import AndInverter.Proofs.Reduction
import AndInverter.Proofs.Reduction.Recording
import AndInverter.Proofs.WellFormed.Redirect

open AndInverter.Sat

namespace AndInverter

namespace Encoding

/-- The clauses by which `z` tells whether two nodes differ. A node that is not encoded has no
    variable, which counts as zero. -/
def difference (enc : Encoding) (z : Nat) (a b : NodeId) : List Clause :=
  Cnf.xorClauses (.pos (enc.vars.getD a 0)) (.pos (enc.vars.getD b 0)) (.pos z)

/-- The calls for a comparison: the clauses for a variable of its own, and the question. -/
def query (enc : Encoding) (z : Nat) (comparison : Comparison) : List Call :=
  Call.adds (enc.difference z comparison.first comparison.other) ++
    [.solve [.pos z] (.ok !comparison.equal)]

/-- The calls for the encoding and then for the comparisons, each with the next variable. -/
def transcript (enc : Encoding) (log : List Comparison) : List Call :=
  Call.adds enc.cnf.clauses.toList ++
    (log.zipIdx (enc.cnf.varCount + 1)).flatMap fun (comparison, z) => enc.query z comparison

/-- The candidates that are encoded, group by group. -/
def groups (enc : Encoding) (classes : Classes) : List (List NodeId) :=
  classes.candidates.map (·.filter fun id => (enc.lit? id).isSome)

variable {enc : Encoding} {log : List Comparison}

theorem difference_of_getElem? {z u v : Nat} {a b : NodeId} (hu : enc.vars[a]? = some u)
    (hv : enc.vars[b]? = some v) :
    enc.difference z a b = Cnf.xorClauses (.pos u) (.pos v) (.pos z) := by
  simp [difference, Std.TreeMap.getD_eq_getD_getElem?, hu, hv]

theorem transcript_nil (enc : Encoding) :
    enc.transcript [] = Call.adds enc.cnf.clauses.toList := by
  simp [transcript]

theorem transcript_concat (enc : Encoding) (log : List Comparison) (comparison : Comparison) :
    enc.transcript (log ++ [comparison]) =
      enc.transcript log ++ enc.query (enc.cnf.varCount + log.length + 1) comparison := by
  rw [transcript, List.zipIdx_append, List.flatMap_append, ← List.append_assoc, ← transcript]
  simp [Nat.add_right_comm]

theorem answers_query (enc : Encoding) (z : Nat) (comparison : Comparison) :
    Call.answers (enc.query z comparison) = [!comparison.equal] := by
  rw [query, Call.answers_append, Call.answers_adds]
  rfl

theorem answers_transcript (enc : Encoding) (log : List Comparison) :
    Call.answers (enc.transcript log) = log.map (!·.equal) := by
  induction log using List.reverseRecOn with
  | nil => rw [enc.transcript_nil, Call.answers_adds, List.map_nil]
  | append_singleton log last ih =>
    rw [enc.transcript_concat, Call.answers_append, ih, answers_query, List.map_append,
      List.map_singleton]

theorem mem_of_mem_groups {classes : Classes} {group : List NodeId} {id : NodeId}
    (hgroup : group ∈ enc.groups classes) (hid : id ∈ group) : id ∈ enc.vars := by
  obtain ⟨listed, _, rfl⟩ := List.mem_map.1 hgroup
  have hlit := (List.mem_filter.1 hid).2
  rw [Std.TreeMap.mem_iff_isSome_getElem?]
  simpa [lit?] using hlit

/-- Each comparison is of two encoded nodes, the second behind the first in a group. -/
def Fits (enc : Encoding) (classes : Classes) (log : List Comparison) : Prop :=
  ∀ comparison ∈ log,
    (∃ group ∈ classes.candidates, [comparison.first, comparison.other].Sublist group) ∧
      comparison.first ∈ enc.vars ∧ comparison.other ∈ enc.vars

theorem fits_of_schedule {classes : Classes} (h : Reducer.Schedule (enc.groups classes) log) :
    enc.Fits classes log := by
  intro comparison hmem
  obtain ⟨group, hgroup, hsublist⟩ := h.exists_sublist hmem
  refine ⟨?_, mem_of_mem_groups hgroup (hsublist.subset (by simp)),
    mem_of_mem_groups hgroup (hsublist.subset (by simp))⟩
  obtain ⟨listed, hlisted, rfl⟩ := List.mem_map.1 hgroup
  exact ⟨listed, hlisted, hsublist.trans List.filter_sublist⟩

/-- Whether a comparison fits does not depend on its answer. -/
theorem fits_of_schedule_next {classes : Classes} {next : Comparison} {more : List Comparison}
    (h : Reducer.Schedule (enc.groups classes) (log ++ next :: more)) (equal : Bool) :
    enc.Fits classes (log ++ [⟨next.first, next.other, equal⟩]) := by
  intro comparison hmem
  have hfits := fits_of_schedule h
  rcases List.mem_append.1 hmem with hmem | hmem
  · exact hfits comparison (List.mem_append_left _ hmem)
  · rw [List.mem_singleton.1 hmem]
    exact hfits next (by simp)

end Encoding

namespace Reducer

variable {σ α β : Type}

/-- The steps do nothing but make these calls, up to the first that fails. -/
def Makes (x : Reducer (σ × List Call) α) (plan : α → List Call) : Prop :=
  ∀ r, match x r with
    | .ok a s => ∃ t, s = { r with oracle := (t, r.oracle.2 ++ plan a) }
    | .error failure s => ∃ reason t calls, failure = .oracle reason ∧
        s = { r with oracle := (t, r.oracle.2 ++ calls) } ∧
        ∀ a, Call.BreaksOff reason calls (plan a)

namespace Makes

theorem pure (a : α) : Makes (σ := σ) (Pure.pure a) fun _ => [] := fun r => ⟨r.oracle.1, by simp⟩

/-- Calls of one step come before those of the next. A run that breaks off does so in one of the
    two. -/
theorem andThen {x : Reducer (σ × List Call) Unit}
    {y : Reducer (σ × List Call) β} {first : List Call} {plan : β → List Call}
    (hx : Makes x fun _ => first) (hy : Makes y plan) :
    Makes (x >>= fun _ => y) fun b => first ++ plan b := by
  intro r
  have hfirst := hx r
  cases hresult : x r with
  | error failure s =>
    rw [hresult] at hfirst
    rw [estateM_bind_of_error hresult]
    obtain ⟨reason, t, calls, hfailure, hs, hbreaks⟩ := hfirst
    exact ⟨reason, t, calls, hfailure, hs, fun b => (hbreaks ()).append (plan b)⟩
  | ok _ s =>
    rw [hresult] at hfirst
    rw [estateM_bind_of_ok hresult]
    obtain ⟨t, rfl⟩ := hfirst
    have hsecond := hy { r with oracle := (t, r.oracle.2 ++ first) }
    cases hresult : y { r with oracle := (t, r.oracle.2 ++ first) } with
    | ok b s =>
      rw [hresult] at hsecond
      obtain ⟨u, rfl⟩ := hsecond
      exact ⟨u, by rw [List.append_assoc]⟩
    | error failure s =>
      rw [hresult] at hsecond
      obtain ⟨reason, u, calls, rfl, rfl, hbreaks⟩ := hsecond
      exact ⟨reason, u, first ++ calls, rfl, by rw [List.append_assoc],
        fun b => (hbreaks b).prepend first⟩

theorem add (oracle : Oracle σ) (clause : Clause) :
    Makes (consult (oracle.recorded.add clause)) fun _ => Call.adds [clause] := by
  intro r
  unfold consult Oracle.recorded Oracle.noting
  dsimp only
  cases oracle.add clause r.oracle.1 with
  | ok _ t => exact ⟨t, rfl⟩
  | error reason t =>
    exact ⟨reason, t, _, rfl, rfl, fun _ => .singleton (.add clause (.ok ()))⟩

theorem adds (oracle : Oracle σ) (clauses : List Clause) :
    Makes (clauses.forM fun clause => consult (oracle.recorded.add clause))
      fun _ => Call.adds clauses := by
  induction clauses with
  | nil => exact pure ()
  | cons clause clauses ih => exact (add oracle clause).andThen ih

/-- A question is recorded with its answer, also if the answer is a failure. -/
theorem solve (oracle : Oracle σ) (assumed : List Lit) :
    Makes (do return !(← consult (oracle.recorded.solve assumed)))
      fun equal => [.solve assumed (.ok !equal)] := by
  intro r
  have hconsult : consult (oracle.recorded.solve assumed) r =
      match oracle.solve assumed r.oracle.1 with
      | .ok answer t => .ok answer
          { r with oracle := (t, r.oracle.2 ++ [.solve assumed (.ok answer)]) }
      | .error reason t => .error (.oracle reason)
          { r with oracle := (t, r.oracle.2 ++ [.solve assumed (.error reason)]) } := by
    unfold consult Oracle.recorded Oracle.noting
    dsimp only
    cases oracle.solve assumed r.oracle.1 <;> rfl
  cases hsolve : oracle.solve assumed r.oracle.1 with
  | ok answer t =>
    rw [hsolve] at hconsult
    rw [estateM_bind_of_ok hconsult]
    exact ⟨t, by simp⟩
  | error reason t =>
    rw [hsolve] at hconsult
    rw [estateM_bind_of_error hconsult]
    exact ⟨reason, t, _, rfl, rfl, fun equal => .singleton (.solve assumed (.ok !equal))⟩

end Makes

/-- A reduction of `c` after these comparisons, and nothing else. -/
structure Recorded (c : Circuit) (enc : Encoding) (log : List Comparison)
    (r : Reduction (σ × List Call)) : Prop where
  vars : r.encoding.vars = enc.vars
  varCount : r.encoding.cnf.varCount = enc.cnf.varCount + log.length
  report : r.report = ⟨Comparison.merges log, (Comparison.left log).length, log.length⟩
  calls : r.oracle.2 = enc.transcript log
  merged : Circuit.mergeAll (Comparison.merges log) c = .ok () r.circuit

variable {c : Circuit} {enc : Encoding} {log : List Comparison} {first other : NodeId}
  {r : Reduction (σ × List Call)}

/-- What a query leaves: its calls are on the record, and one more variable is set aside. -/
structure Asked (enc : Encoding) (r : Reduction (σ × List Call)) (comparison : Comparison)
    (s : Reduction (σ × List Call)) : Prop where
  circuit : s.circuit = r.circuit
  report : s.report = r.report
  vars : s.encoding.vars = enc.vars
  varCount : s.encoding.cnf.varCount = r.encoding.cnf.varCount + 1
  calls : s.oracle.2 = r.oracle.2 ++ enc.query (r.encoding.cnf.varCount + 1) comparison

/-- A comparison makes the calls of its query, or breaks off within them and leaves the circuit as
    it is. -/
theorem proveEqual_recorded (oracle : Oracle σ) (hfirst : first ∈ enc.vars)
    (hother : other ∈ enc.vars) (hvars : r.encoding.vars = enc.vars) :
    match proveEqual oracle.recorded first other r with
    | .ok equal s => Asked enc r ⟨first, other, equal⟩ s
    | .error failure s => s.circuit = r.circuit ∧ ∃ reason calls, failure = .oracle reason ∧
        s.oracle.2 = r.oracle.2 ++ calls ∧ ∀ equal, Call.BreaksOff reason calls
          (enc.query (r.encoding.cnf.varCount + 1) ⟨first, other, equal⟩) := by
  obtain ⟨u, hu⟩ := Circuit.exists_of_mem hfirst
  obtain ⟨v, hv⟩ := Circuit.exists_of_mem hother
  let z := r.encoding.cnf.varCount + 1
  let named : Reduction (σ × List Call) :=
    { r with encoding := { r.encoding with cnf := { r.encoding.cnf with varCount := z } } }
  have hnamed : proveEqual oracle.recorded first other r =
      ((enc.difference z first other).forM (fun clause => consult (oracle.recorded.add clause)) >>=
        fun _ => do return !(← consult (oracle.recorded.solve [.pos z]))) named := by
    have hla : ask (·.encoding.nodeLit first) r = .ok (.pos u) r :=
      ask_of_ok (nodeLit_of_getElem? (hvars ▸ hu))
    have hlb : ask (·.encoding.nodeLit other) r = .ok (.pos v) r :=
      ask_of_ok (nodeLit_of_getElem? (hvars ▸ hv))
    have hget : (get : Reducer (σ × List Call) _) r = .ok r r := rfl
    rw [proveEqual, estateM_bind_of_ok hla, estateM_bind_of_ok hlb, estateM_bind_of_ok hget,
      Encoding.difference_of_getElem? hu hv]
    exact estateM_bind_of_ok (t := named) rfl _
  have hmakes := (Makes.adds oracle (enc.difference z first other)).andThen
    (Makes.solve oracle [.pos z]) named
  rw [← hnamed] at hmakes
  cases hresult : proveEqual oracle.recorded first other r with
  | ok equal s =>
    rw [hresult] at hmakes
    obtain ⟨t, rfl⟩ := hmakes
    exact ⟨rfl, rfl, hvars, rfl, rfl⟩
  | error failure s =>
    rw [hresult] at hmakes
    obtain ⟨reason, t, calls, rfl, rfl, hbreaks⟩ := hmakes
    exact ⟨rfl, reason, calls, rfl, rfl, hbreaks⟩

namespace Recorded

variable {s : Reduction (σ × List Call)} {comparison : Comparison}

/-- The state with one more query in its report. -/
def counted (r : Reduction σ) : Reduction σ :=
  { r with report := { r.report with queries := r.report.queries + 1 } }

theorem calls_of_asked (h : Recorded c enc log r) (hs : Asked enc (counted r) comparison s) :
    s.oracle.2 = enc.transcript (log ++ [comparison]) := by
  rw [hs.calls, enc.transcript_concat, ← h.varCount, ← h.calls]
  rfl

theorem varCount_of_asked (h : Recorded c enc log r) (hs : Asked enc (counted r) comparison s) :
    s.encoding.cnf.varCount = enc.cnf.varCount + (log ++ [comparison]).length := by
  rw [hs.varCount, List.length_append, List.length_singleton, ← Nat.add_assoc, ← h.varCount]
  rfl

theorem report_of_asked (h : Recorded c enc log r) (hs : Asked enc (counted r) comparison s) :
    s.report = ⟨Comparison.merges log, (Comparison.left log).length, log.length + 1⟩ := by
  rw [hs.report, counted, h.report]

/-- The nodes were found to differ. -/
theorem keep (h : Recorded c enc log r) (hs : Asked enc (counted r) ⟨first, other, false⟩ s) :
    Recorded c enc (log ++ [⟨first, other, false⟩])
      { s with report := { s.report with disproved := s.report.disproved + 1 } } where
  vars := hs.vars
  varCount := (h.varCount_of_asked hs :)
  report := by simp [h.report_of_asked hs, Comparison.merges, Comparison.left]
  calls := (h.calls_of_asked hs :)
  merged := by
    rw [Comparison.merges_append, hs.circuit]
    exact (List.append_nil _).symm ▸ h.merged

/-- The nodes were found equal. -/
theorem merge (h : Recorded c enc log r) (hs : Asked enc (counted r) ⟨first, other, true⟩ s)
    {d : Circuit} (hmerge : r.circuit.merge other first false = .ok d) :
    Recorded c enc (log ++ [⟨first, other, true⟩])
      { s with circuit := d
               report := { s.report with merges := s.report.merges ++ [(other, first)] } } where
  vars := hs.vars
  varCount := (h.varCount_of_asked hs :)
  report := by simp [h.report_of_asked hs, Comparison.merges, Comparison.left]
  calls := (h.calls_of_asked hs :)
  merged := by
    have hstep : Pass.step (·.merge other first false) r.circuit = .ok () d := Pass.step_of_ok hmerge
    rw [Comparison.merges_append, Circuit.mergeAll_append, estateM_bind_of_ok h.merged]
    exact estateM_bind_of_ok hstep _

/-- A comparison puts its calls on the record. It fails if the oracle does, or if the merge that its
    answer asks for is refused. -/
theorem compareNodes (h : Recorded c enc log r) (oracle : Oracle σ) (hfirst : first ∈ enc.vars)
    (hother : other ∈ enc.vars) :
    match Reducer.compareNodes oracle.recorded first other r with
    | .ok equal s => Recorded c enc (log ++ [⟨first, other, equal⟩]) s
    | .error failure s => s.circuit = r.circuit ∧
        ((∃ reason broken, failure = .oracle reason ∧ s.oracle.2 = enc.transcript log ++ broken ∧
          ∀ equal, Call.BreaksOff reason broken
            (enc.query (enc.cnf.varCount + log.length + 1) ⟨first, other, equal⟩)) ∨
        r.circuit.merge other first false = .error failure ∧
          s.oracle.2 = enc.transcript (log ++ [⟨first, other, true⟩])) := by
  have hnote : note (fun report => { report with queries := report.queries + 1 }) r =
    .ok () (counted r) := rfl
  have hproves := proveEqual_recorded (r := counted r) oracle hfirst hother h.vars
  rw [Reducer.compareNodes, estateM_bind_of_ok hnote]
  cases hproved : proveEqual oracle.recorded first other (counted r) with
  | error failure s =>
    rw [hproved] at hproves
    rw [estateM_bind_of_error hproved]
    obtain ⟨hcircuit, reason, broken, hfailure, hcalls, hbreaks⟩ := hproves
    rw [show (counted r).oracle.2 = enc.transcript log from h.calls] at hcalls
    rw [show (counted r).encoding.cnf.varCount = _ from h.varCount] at hbreaks
    exact ⟨hcircuit, .inl ⟨reason, broken, hfailure, hcalls, hbreaks⟩⟩
  | ok equal s =>
    rw [hproved] at hproves
    rw [estateM_bind_of_ok hproved]
    cases equal with
    | false => exact h.keep hproves
    | true =>
      rw [if_pos rfl]
      have hcircuit : s.circuit = r.circuit := hproves.circuit
      cases hmerge : r.circuit.merge other first false with
      | error failure =>
        have hchange : changeCircuit (·.merge other first false) s = .error failure s := by
          rw [changeCircuit, hcircuit, hmerge]
        rw [estateM_bind_of_error hchange]
        exact ⟨hcircuit, .inr ⟨rfl, h.calls_of_asked hproves⟩⟩
      | ok d =>
        have hchange : changeCircuit (·.merge other first false) s = .ok () { s with circuit := d } :=
          changeCircuit_eq_ok_iff.2 ⟨d, hcircuit ▸ hmerge, rfl⟩
        rw [estateM_bind_of_ok hchange]
        exact h.merge hproves hmerge

end Recorded

/-- The ways in which a reduction can end, with its calls: all comparisons are made; the encoding is
    not taken; a query is not taken or not answered; a merge is refused. -/
inductive Ending (c : Circuit) (enc : Encoding) :
    Except Error ReductionReport → Circuit → List Call → Prop where
  | finished {log : List Comparison} {d e : Circuit}
    (hlog : Schedule (enc.groups c.classes) log)
    (hmerged : Circuit.mergeAll (Comparison.merges log) c = .ok () e)
    (hclassify : e.classify = .ok d) :
    Ending c enc (.ok ⟨Comparison.merges log, (Comparison.left log).length, log.length⟩) d
      (enc.transcript log)
  | unloaded {reason : String} {calls : List Call}
    (hbreaks : Call.BreaksOff reason calls (enc.transcript [])) :
    Ending c enc (.error (.oracle reason)) c calls
  | unanswered {log more : List Comparison} {next : Comparison} {d : Circuit} {reason : String}
    {broken : List Call} (hlog : Schedule (enc.groups c.classes) (log ++ next :: more))
    (hmerged : Circuit.mergeAll (Comparison.merges log) c = .ok () d)
    (hbreaks : Call.BreaksOff reason broken
      (enc.query (enc.cnf.varCount + log.length + 1) next)) :
    Ending c enc (.error (.oracle reason)) d (enc.transcript log ++ broken)
  | refused {log more : List Comparison} {next : Comparison} {d : Circuit} {failure : Error}
    (hlog : Schedule (enc.groups c.classes) (log ++ next :: more))
    (hmerged : Circuit.mergeAll (Comparison.merges log) c = .ok () d)
    (hmerge : d.merge next.other next.first false = .error failure) :
    Ending c enc (.error failure) d (enc.transcript (log ++ [⟨next.first, next.other, true⟩]))

/-- A comparison that fails ends the reduction. -/
theorem Recorded.ending {oracle : Oracle σ} {s : Reduction (σ × List Call)} {failure : Error}
    {next : Comparison} {more : List Comparison} (h : Recorded c enc log r)
    (hlog : Schedule (enc.groups c.classes) (log ++ next :: more))
    (hfails : Reducer.compareNodes oracle.recorded next.first next.other r = .error failure s) :
    Ending c enc (.error failure) s.circuit s.oracle.2 := by
  obtain ⟨_, hfirst, hother⟩ := Encoding.fits_of_schedule hlog next (by simp)
  have hnext := h.compareNodes oracle hfirst hother
  rw [hfails] at hnext
  obtain ⟨hcircuit, ⟨reason, broken, rfl, hcalls, hbreaks⟩ | ⟨hmerge, hcalls⟩⟩ := hnext
  · rw [hcalls]
    exact .unanswered hlog (hcircuit ▸ h.merged) (hbreaks next.equal)
  · rw [hcalls]
    exact .refused hlog (hcircuit ▸ h.merged) (hcircuit ▸ hmerge)

/-- The comparisons of a reduction, and the one that fails. -/
theorem reduceGroups_recorded (oracle : Oracle σ) (classes : Classes) (hr : Recorded c enc [] r) :
    match reduceGroups oracle.recorded (enc.groups classes) r with
    | .ok _ s => ∃ log, Schedule (enc.groups classes) log ∧ Recorded c enc log s
    | .error failure s => ∃ log next more t, Schedule (enc.groups classes) (log ++ next :: more) ∧
        Recorded c enc log t ∧
        compareNodes oracle.recorded next.first next.other t = .error failure s := by
  have hrun : ∀ all log s, Schedule (enc.groups classes) all → log ⊆ all →
      Compares oracle.recorded r log s → Recorded c enc log s := by
    intro all log s hall hsubset hcompares
    refine hcompares.invariant (P := Recorded c enc) (fun before comparison hmem r s hr hresult => ?_)
      [] hr
    obtain ⟨_, hfirst, hother⟩ := Encoding.fits_of_schedule hall _ (hsubset hmem)
    have hnext := hr.compareNodes oracle hfirst hother
    rw [hresult] at hnext
    exact hnext
  have hfollows := Schedule.follows oracle.recorded (enc.groups classes) r
  cases hresult : reduceGroups oracle.recorded (enc.groups classes) r with
  | ok _ s =>
    rw [hresult] at hfollows
    obtain ⟨log, hlog, hcompares⟩ := hfollows
    exact ⟨log, hlog, hrun log log s hlog (List.Subset.refl log) hcompares⟩
  | error failure s =>
    rw [hresult] at hfollows
    obtain ⟨log, next, t, ⟨_, more, hlog⟩, hcompares, hfails⟩ := hfollows
    exact ⟨log, next, more, t, hlog,
      hrun _ log t hlog (List.subset_append_left log _) hcompares, hfails⟩

end Reducer

namespace Circuit

variable {σ : Type} {c : Circuit} {enc : Encoding}

/-- What a run does and how it ends. -/
theorem WellFormed.run_recorded (hc : c.WellFormed) (enc : Encoding) (oracle : Oracle σ) (start : σ) :
    match Reducer.run oracle.recorded ⟨c, enc, (start, []), ⟨[], 0, 0⟩⟩ with
    | .ok _ s => Reducer.Ending c enc (.ok s.report) s.circuit s.oracle.2
    | .error failure s => Reducer.Ending c enc (.error failure) s.circuit s.oracle.2 := by
  let begun : Reduction (σ × List Call) := ⟨c, enc, (start, []), ⟨[], 0, 0⟩⟩
  have hrun : Reducer.run oracle.recorded begun =
      (enc.cnf.clauses.toList.forM (fun clause => Reducer.consult (oracle.recorded.add clause)) >>=
        fun _ => Reducer.reduceGroups oracle.recorded (enc.groups c.classes) >>= fun _ =>
          Reducer.changeCircuit Circuit.classify) begun := rfl
  rw [hrun]
  have hloads := Reducer.Makes.adds oracle enc.cnf.clauses.toList begun
  cases hload : enc.cnf.clauses.toList.forM
      (fun clause => Reducer.consult (oracle.recorded.add clause)) begun with
  | error failure s =>
    rw [hload] at hloads
    rw [estateM_bind_of_error hload]
    obtain ⟨reason, t, calls, rfl, rfl, hbreaks⟩ := hloads
    refine .unloaded ?_
    rw [enc.transcript_nil]
    exact hbreaks ()
  | ok _ s =>
    rw [hload] at hloads
    rw [estateM_bind_of_ok hload]
    obtain ⟨t, rfl⟩ := hloads
    have hloaded : Reducer.Recorded c enc []
        { begun with oracle := (t, begun.oracle.2 ++ Call.adds enc.cnf.clauses.toList) } :=
      ⟨rfl, rfl, rfl, (enc.transcript_nil).symm, rfl⟩
    have hreduces := Reducer.reduceGroups_recorded oracle c.classes hloaded
    cases hreduce : Reducer.reduceGroups oracle.recorded (enc.groups c.classes)
        { begun with oracle := (t, begun.oracle.2 ++ Call.adds enc.cnf.clauses.toList) } with
    | ok _ u =>
      rw [hreduce] at hreduces
      obtain ⟨log, hlog, hu⟩ := hreduces
      obtain ⟨hwell, _⟩ := hc.of_mergeAll hu.merged
      obtain ⟨classes, _, hclassify, _⟩ := hwell.exists_classify
      rw [estateM_bind_of_ok hreduce, Reducer.changeCircuit_eq_ok_iff.2 ⟨_, hclassify, rfl⟩]
      dsimp only
      rw [hu.report, hu.calls]
      exact .finished hlog hu.merged hclassify
    | error failure u =>
      rw [hreduce] at hreduces
      obtain ⟨log, next, more, v, hlog, hv, hfails⟩ := hreduces
      rw [estateM_bind_of_error hreduce]
      exact hv.ending hlog hfails

/-- However the oracle behaves, a reduction ends in one of four ways. -/
theorem WellFormed.ending_reduceWith (hc : c.WellFormed) (hencode : c.encode = .ok enc)
    (oracle : Oracle σ) (start : σ) :
    Reducer.Ending c enc (c.reduceWith oracle.recorded (start, [])).1
      (c.reduceWith oracle.recorded (start, [])).2.1
      (c.reduceWith oracle.recorded (start, [])).2.2.2 := by
  have hends := hc.run_recorded enc oracle start
  rw [reduceWith, hencode]
  dsimp only
  cases hresult : Reducer.run oracle.recorded ⟨c, enc, (start, []), ⟨[], 0, 0⟩⟩ with
  | ok _ s =>
    rw [hresult] at hends
    exact hends
  | error failure s =>
    rw [hresult] at hends
    exact hends

/-- Every reduction ends in one of these ways, and does the same without a record. -/
theorem WellFormed.exists_ending (hc : c.WellFormed) (hencode : c.encode = .ok enc)
    (oracle : Oracle σ) (start : σ) :
    ∃ result d s calls, c.reduceWith oracle.recorded (start, []) = (result, d, s, calls) ∧
      c.reduceWith oracle start = (result, d, s) ∧ Reducer.Ending c enc result d calls :=
  ⟨_, _, _, _, rfl, reduceWith_of_recorded rfl, hc.ending_reduceWith hencode oracle start⟩

end Circuit

end AndInverter
