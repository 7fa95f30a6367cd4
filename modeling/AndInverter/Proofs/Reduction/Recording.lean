import AndInverter.Proofs.Reduction.Schedule

open AndInverter.Sat

namespace AndInverter

namespace Sat

variable {σ α : Type}

/-- A call of an oracle, with the answer or the reason of the failure. -/
inductive Call where
  | add (clause : Clause) (result : Except String Unit)
  | solve (assumed : List Lit) (result : Except String Bool)
deriving DecidableEq

namespace Call

/-- The same call, when it fails. -/
def failing (reason : String) : Call → Call
  | add clause _ => add clause (.error reason)
  | solve assumed _ => solve assumed (.error reason)

/-- Clauses that are taken one after the other. -/
def adds (clauses : List Clause) : List Call := clauses.map (add · (.ok ()))

/-- The clause that a call hands over. -/
def clause? : Call → Option Clause
  | add clause _ => some clause
  | solve _ _ => none

/-- The answer that a call got. -/
def answer? : Call → Option Bool
  | add _ _ => none
  | solve _ result => result.toOption

/-- All clauses that the calls hand over. -/
def handed (calls : List Call) : List Clause := calls.filterMap clause?

/-- All answers that the calls got. -/
def answers (calls : List Call) : List Bool := calls.filterMap answer?

/-- The calls keep to a plan up to one that fails. -/
def BreaksOff (reason : String) (calls plan : List Call) : Prop :=
  ∃ before call after, plan = before ++ call :: after ∧ calls = before ++ [call.failing reason]

variable {calls plan more : List Call} {reason : String}

@[simp]
theorem handed_append : handed (calls ++ more) = handed calls ++ handed more :=
  List.filterMap_append

@[simp]
theorem handed_adds (clauses : List Clause) : handed (adds clauses) = clauses := by
  simp [handed, adds, List.filterMap_map, Function.comp_def, clause?]

@[simp]
theorem handed_solve (assumed : List Lit) (result : Except String Bool) :
    handed [solve assumed result] = [] := rfl

@[simp]
theorem answers_append : answers (calls ++ more) = answers calls ++ answers more :=
  List.filterMap_append

@[simp]
theorem answers_adds (clauses : List Clause) : answers (adds clauses) = [] := by
  simp [answers, adds, List.filterMap_map, Function.comp_def, answer?]

theorem answer?_failing (call : Call) : (call.failing reason).answer? = none := by
  cases call <;> rfl

theorem solve_notMem_adds {assumed : List Lit} {result : Except String Bool}
    (clauses : List Clause) : solve assumed result ∉ adds clauses := by
  simp [adds]

namespace BreaksOff

theorem append (h : BreaksOff reason calls plan) (more : List Call) :
    BreaksOff reason calls (plan ++ more) := by
  obtain ⟨before, call, after, rfl, rfl⟩ := h
  exact ⟨before, call, after ++ more, by simp, rfl⟩

theorem prepend (h : BreaksOff reason calls plan) (earlier : List Call) :
    BreaksOff reason (earlier ++ calls) (earlier ++ plan) := by
  obtain ⟨before, call, after, rfl, rfl⟩ := h
  exact ⟨earlier ++ before, call, after, by simp, by simp⟩

theorem singleton (call : Call) : BreaksOff reason [call.failing reason] [call] :=
  ⟨[], call, [], rfl, rfl⟩

end BreaksOff

end Call

namespace Oracle

/-- Notes down how an action went. -/
def noting (action : EStateM String σ α) (call : Except String α → Call) :
    EStateM String (σ × List Call) α := fun s =>
  match action s.1 with
  | .ok a t => .ok a (t, s.2 ++ [call (.ok a)])
  | .error reason t => .error reason (t, s.2 ++ [call (.error reason)])

/-- The oracle with a record of the calls it got. -/
def recorded (oracle : Oracle σ) : Oracle (σ × List Call) where
  add clause := noting (oracle.add clause) (.add clause)
  solve assumed := noting (oracle.solve assumed) (.solve assumed)

end Oracle

end Sat

/-- The reduction without the record of its oracle. -/
def Reduction.plain {σ ρ : Type} (r : Reduction (σ × ρ)) : Reduction σ :=
  ⟨r.circuit, r.encoding, r.oracle.1, r.report⟩

namespace Reducer

variable {σ α β : Type} {oracle : Oracle σ}

/-- The first steps do with a record what the second do without. -/
def Records (x : Reducer (σ × List Call) α) (y : Reducer σ α) : Prop :=
  ∀ r, y r.plain = match x r with
    | .ok a s => .ok a s.plain
    | .error failure s => .error failure s.plain

namespace Records

theorem pure (a : α) : Records (σ := σ) (Pure.pure a) (Pure.pure a) := fun _ => rfl

/-- A recording of two steps in a row is the recording of the first followed by that of the
    second. -/
theorem bind {x : Reducer (σ × List Call) α} {y : Reducer σ α}
    {f : α → Reducer (σ × List Call) β} {g : α → Reducer σ β} (hx : Records x y)
    (hf : ∀ a, Records (f a) (g a)) : Records (x >>= f) (y >>= g) := by
  intro r
  have hfirst := hx r
  cases hresult : x r with
  | ok a s =>
    rw [hresult] at hfirst
    rw [estateM_bind_of_ok hfirst, estateM_bind_of_ok hresult]
    exact hf a s
  | error failure s =>
    rw [hresult] at hfirst
    rw [estateM_bind_of_error hfirst, estateM_bind_of_error hresult]

theorem get_bind {f : Reduction (σ × List Call) → Reducer (σ × List Call) β}
    {g : Reduction σ → Reducer σ β} (hf : ∀ r, Records (f r) (g r.plain)) :
    Records (get >>= f) (get >>= g) := fun r => hf r r

theorem forM {f : α → Reducer (σ × List Call) PUnit} {g : α → Reducer σ PUnit}
    (h : ∀ a, Records (f a) (g a)) (l : List α) : Records (l.forM f) (l.forM g) := by
  induction l with
  | nil => exact .pure PUnit.unit
  | cons a l ih => exact (h a).bind fun _ => ih

theorem consult (action : EStateM String σ α) (call : Except String α → Call) :
    Records (consult (Oracle.noting action call)) (consult action) := by
  intro r
  unfold Reducer.consult Oracle.noting Reduction.plain
  dsimp only
  cases action r.oracle.1 <;> rfl

theorem nodeLit (id : NodeId) : Records (σ := σ) (ask (·.encoding.nodeLit id))
    (ask (·.encoding.nodeLit id)) := by
  intro r
  unfold Reducer.ask Reduction.plain
  dsimp only
  cases r.encoding.nodeLit id <;> rfl

theorem changeCircuit (change : Circuit → Except Error Circuit) :
    Records (σ := σ) (changeCircuit change) (changeCircuit change) := by
  intro r
  unfold Reducer.changeCircuit Reduction.plain
  cases change r.circuit <;> rfl

theorem note (f : ReductionReport → ReductionReport) :
    Records (σ := σ) (note f) (note f) := fun _ => rfl

theorem proveEqual (oracle : Oracle σ) (a b : NodeId) :
    Records (proveEqual oracle.recorded a b) (proveEqual oracle a b) := by
  unfold Reducer.proveEqual
  refine (nodeLit a).bind fun la => (nodeLit b).bind fun lb => get_bind fun r => ?_
  dsimp only [Reduction.plain, Cnf.fresh]
  refine Records.bind (fun _ => rfl) fun _ => ?_
  refine (forM (fun clause => consult (oracle.add clause) _) _).bind fun _ => ?_
  exact (consult (oracle.solve _) _).bind fun answer => pure _

theorem mergeEqual (oracle : Oracle σ) (first : NodeId) (rest : List NodeId) :
    Records (mergeEqual oracle.recorded first rest) (mergeEqual oracle first rest) := by
  induction rest with
  | nil => exact pure _
  | cons other rest ih =>
    refine (note _).bind fun _ => (proveEqual oracle first other).bind fun equal => ?_
    cases equal with
    | true => exact (changeCircuit _).bind fun _ => (note _).bind fun _ => ih
    | false => exact (note _).bind fun _ => ih.bind fun kept => pure _

theorem reduceGroup (oracle : Oracle σ) (rounds : Nat) (group : List NodeId) :
    Records (reduceGroup oracle.recorded rounds group) (reduceGroup oracle rounds group) := by
  induction rounds generalizing group with
  | zero => exact pure _
  | succ rounds ih =>
    cases group with
    | nil => exact pure _
    | cons first rest => exact (mergeEqual oracle first rest).bind ih

theorem run (oracle : Oracle σ) : Records (run oracle.recorded) (run oracle) := by
  refine get_bind fun r => ?_
  refine (forM (fun clause => consult (oracle.add clause) _) _).bind fun _ => ?_
  refine (forM (fun group => reduceGroup oracle _ group) _).bind fun _ => ?_
  exact changeCircuit _

end Records

end Reducer

/-- A record of the calls changes nothing else. -/
theorem Circuit.reduceWith_of_recorded {σ : Type} {c d : Circuit} {oracle : Oracle σ} {start s : σ}
    {calls more : List Call} {result : Except Error ReductionReport}
    (h : c.reduceWith oracle.recorded (start, calls) = (result, d, s, more)) :
    c.reduceWith oracle start = (result, d, s) := by
  unfold Circuit.reduceWith at h ⊢
  cases hencode : c.encode with
  | error failure =>
    rw [hencode] at h
    cases h
    rfl
  | ok enc =>
    rw [hencode] at h
    have hrun := Reducer.Records.run oracle ⟨c, enc, (start, calls), ⟨[], 0, 0⟩⟩
    dsimp only [Reduction.plain] at h hrun ⊢
    rw [hrun]
    cases hrecorded : Reducer.run oracle.recorded ⟨c, enc, (start, calls), ⟨[], 0, 0⟩⟩ with
    | ok _ r =>
      rw [hrecorded] at h
      obtain ⟨rfl, rfl, rfl, rfl⟩ : _ ∧ _ ∧ _ ∧ _ := by simpa [Prod.ext_iff] using h
      rfl
    | error failure r =>
      rw [hrecorded] at h
      obtain ⟨rfl, rfl, rfl, rfl⟩ : _ ∧ _ ∧ _ ∧ _ := by simpa [Prod.ext_iff] using h
      rfl

end AndInverter
