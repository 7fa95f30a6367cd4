import AndInverter.Circuit.Reduction
import AndInverter.Proofs.Classes
import AndInverter.Proofs.Encoding
import AndInverter.Proofs.Passes
import AndInverter.Sat.Answer

open AndInverter.Sat

namespace AndInverter

namespace Sat

variable {σ : Type}

/-- The oracle never fails and answers by the clauses that its state holds. -/
structure Oracle.Answers (oracle : Oracle σ) (Holds : σ → List Clause → Prop) : Prop where
  add : ∀ {s clauses} (clause : Clause), Holds s clauses →
    ∃ t, oracle.add clause s = .ok () t ∧ Holds t (clauses ++ [clause])
  solve : ∀ {s clauses} (assumed : List Lit), Holds s clauses →
    ∃ answer t, oracle.solve assumed s = .ok answer t ∧
      (answer = true ↔ Satisfiable clauses assumed) ∧ Holds t clauses

/-- From this state on, which has been given no clause, the oracle never fails, and it says whether
    the clauses given so far can be true together with the assumed literals. -/
def Oracle.Truthful (oracle : Oracle σ) (start : σ) : Prop :=
  ∃ Holds, oracle.Answers Holds ∧ Holds start []

/-- The solver of the library tells the truth. -/
theorem Solver.truthful : Solver.oracle.Truthful .empty := by
  refine ⟨fun solver clauses => solver.given.toList = clauses, ⟨?_, ?_⟩, rfl⟩
  · rintro solver _ clause rfl
    exact ⟨solver.add clause, rfl, by simp⟩
  · rintro solver _ assumed rfl
    exact ⟨_, _, rfl, Solver.solve_eq_true_iff, congrArg Array.toList (Solver.given_solve ..)⟩

end Sat

namespace Circuit

/-- Merges the pairs of victim and survivor one after the other, up to the first that fails. -/
def mergeAll (merges : List (NodeId × NodeId)) : Pass Unit :=
  merges.forM fun (victim, survivor) => Pass.step (·.merge victim survivor false)

/-- The merges within a group: the first member takes in all those that are the same as it, then
    the first of the others does so, and on. -/
def groupMerges (same : NodeId → NodeId → Bool) : Nat → List NodeId → List (NodeId × NodeId)
  | 0, _ => []
  | _, [] => []
  | rounds + 1, first :: rest =>
    (rest.filter (same first)).map (·, first) ++
      groupMerges same rounds (rest.filter (!same first ·))

theorem mergeAll_append (merges more : List (NodeId × NodeId)) :
    mergeAll (merges ++ more) = mergeAll merges >>= fun _ => mergeAll more :=
  List.forM_append

end Circuit

namespace Reducer

variable {σ α β : Type}

/-- From states with `P` on, the steps do nothing but some merges, and return `a` unless one of the
    merges fails. -/
def Performs (P : Reduction σ → Prop) (x : Reducer σ α) (a : α) (merges : List (NodeId × NodeId)) :
    Prop :=
  ∀ r, P r → ∃ r', P r' ∧ match Circuit.mergeAll merges r.circuit with
    | .ok _ d => x r = .ok a r' ∧ r'.circuit = d ∧ r'.report.merges = r.report.merges ++ merges
    | .error failure d => x r = .error failure r' ∧ r'.circuit = d

namespace Performs

variable {P : Reduction σ → Prop} {x : Reducer σ α} {a : α} {merges more : List (NodeId × NodeId)}

/-- Steps that merge nothing. -/
theorem of_quiet (h : ∀ r, P r → ∃ r', P r' ∧ x r = .ok a r' ∧ r'.circuit = r.circuit ∧
    r'.report.merges = r.report.merges) : Performs P x a [] := by
  intro r hr
  obtain ⟨r', hr', hx, hcircuit, hmerges⟩ := h r hr
  exact ⟨r', hr', hx, hcircuit, by rw [hmerges, List.append_nil]⟩

theorem pure (P : Reduction σ → Prop) (a : α) : Performs P (Pure.pure a) a [] :=
  of_quiet fun r hr => ⟨r, hr, rfl, rfl, rfl⟩

/-- Merges of one step come before those of the next. -/
theorem bind {f : α → Reducer σ β} {b : β} (hx : Performs P x a merges)
    (hf : Performs P (f a) b more) : Performs P (x >>= f) b (merges ++ more) := by
  intro r hr
  obtain ⟨r', hr', hfirst⟩ := hx r hr
  rw [Circuit.mergeAll_append]
  cases hmerge : Circuit.mergeAll merges r.circuit with
  | error failure d =>
    rw [hmerge] at hfirst
    rw [estateM_bind_of_error hmerge, estateM_bind_of_error hfirst.1]
    exact ⟨r', hr', rfl, hfirst.2⟩
  | ok _ d =>
    rw [hmerge] at hfirst
    obtain ⟨hrun, rfl, hreport⟩ := hfirst
    obtain ⟨r'', hr'', hsecond⟩ := hf r' hr'
    rw [estateM_bind_of_ok hmerge, estateM_bind_of_ok hrun]
    refine ⟨r'', hr'', ?_⟩
    cases hmore : Circuit.mergeAll more r'.circuit with
    | error failure e =>
      rw [hmore] at hsecond
      exact hsecond
    | ok _ e =>
      rw [hmore] at hsecond
      exact ⟨hsecond.1, hsecond.2.1, by rw [hsecond.2.2, hreport, List.append_assoc]⟩

end Performs

/-- What holds throughout a reduction of `c`: the oracle holds clauses that describe `c`. The
    circuit of the reduction may have changed since. -/
structure Reducing (c : Circuit) (vars : Std.TreeMap NodeId Nat) (Holds : σ → List Clause → Prop)
    (r : Reduction σ) : Prop where
  vars_eq : r.encoding.vars = vars
  clauses : ∃ clauses, c.Describes vars r.encoding.cnf.varCount clauses ∧ Holds r.oracle clauses

/-- Compares two nodes, and merges the second into the first if they are equal. -/
def compareNodes (oracle : Oracle σ) (first other : NodeId) : Reducer σ Bool := do
  note fun report => { report with queries := report.queries + 1 }
  if ← proveEqual oracle first other then
    changeCircuit (·.merge other first false)
    note fun report => { report with merges := report.merges ++ [(other, first)] }
    return true
  else
    note fun report => { report with disproved := report.disproved + 1 }
    return false

/-- A group is gone through one comparison at a time. -/
theorem mergeEqual_cons (first other : NodeId) (rest : List NodeId) :
    mergeEqual oracle first (other :: rest) =
      compareNodes oracle first other >>= fun equal =>
        if equal then mergeEqual oracle first rest
        else mergeEqual oracle first rest >>= fun kept => pure (other :: kept) := by
  rw [mergeEqual, compareNodes, bind_assoc]
  congr 1
  funext _
  rw [bind_assoc]
  congr 1
  funext equal
  cases equal <;> simp [bind_assoc]

variable {c : Circuit} {vars : Std.TreeMap NodeId Nat} {Holds : σ → List Clause → Prop}
  {oracle : Oracle σ} {same : NodeId → NodeId → Bool}

theorem consult_of_ok {action : EStateM String σ α} {r : Reduction σ} {a : α} {s : σ}
    (h : action r.oracle = .ok a s) : consult action r = .ok a { r with oracle := s } := by
  rw [consult, h]

theorem changeCircuit_eq_ok_iff {change : Circuit → Except Error Circuit} {r s : Reduction σ} :
    changeCircuit change r = .ok () s ↔ ∃ d, change r.circuit = .ok d ∧ s = { r with circuit := d } := by
  unfold changeCircuit
  cases change r.circuit <;> simp [eq_comm]

theorem consult_adds (horacle : oracle.Answers Holds) {clauses new : List Clause} {r : Reduction σ}
    (hr : Holds r.oracle clauses) :
    ∃ s, new.forM (fun clause => consult (oracle.add clause)) r = .ok () { r with oracle := s } ∧
      Holds s (clauses ++ new) := by
  induction new generalizing clauses r with
  | nil => exact ⟨r.oracle, rfl, by rwa [List.append_nil]⟩
  | cons clause new ih =>
    obtain ⟨s, hadd, hs⟩ := horacle.add clause hr
    obtain ⟨t, hrest, ht⟩ := ih (r := { r with oracle := s }) hs
    refine ⟨t, ?_, by rwa [List.append_assoc] at ht⟩
    rw [List.forM, estateM_bind_of_ok (consult_of_ok hadd), hrest]

/-- The question that is put to the oracle: some stimulus tells the nodes apart. -/
theorem satisfiable_differ_iff {count u v : Nat} {clauses : List Clause} {a b : NodeId}
    (h : c.Describes vars count clauses) (hu : vars[a]? = some u) (hv : vars[b]? = some v) :
    Satisfiable (clauses ++ Cnf.xorClauses (.pos u) (.pos v) (.pos (count + 1)))
        [.pos (count + 1)] ↔ ¬ c.SameFunction a b := by
  rw [Circuit.SameFunction, not_forall]
  constructor
  · rintro ⟨s, hs, hassumed⟩
    have hp := c.supplies_stimulusFor vars s
    have hmatches := h.sound s _ (fun clause hclause => hs clause (List.mem_append_left _ hclause)) hp
    have hxor := Assignment.satisfies_xorClauses_iff.1 fun clause hclause =>
      hs clause (List.mem_append_right clauses hclause)
    rw [hassumed _ List.mem_cons_self, Assignment.lit_pos, Assignment.lit_pos, hmatches a u hu,
      hmatches b v hv] at hxor
    refine ⟨c.stimulusFor vars s, fun heq => ?_⟩
    rw [heq, Bool.xor_self] at hxor
    cases hxor
  · rintro ⟨p, hne⟩
    obtain ⟨s, hs, hmatches, htrue⟩ := h.exists_extension p true
    refine ⟨s, fun clause hclause => ?_, fun l hl => ?_⟩
    · rcases List.mem_append.1 hclause with hold | hnew
      · exact hs clause hold
      · refine Assignment.satisfies_xorClauses_iff.2 ?_ clause hnew
        rw [Assignment.lit_pos, Assignment.lit_pos, Assignment.lit_pos, hmatches a u hu,
          hmatches b v hv, htrue]
        simpa using hne
    · rw [List.mem_singleton.1 hl, Assignment.lit_pos, htrue]

/-- The clauses of a question leave the description of the circuit as it is. -/
theorem describes_xorClauses {count u v : Nat} {clauses : List Clause} {a b : NodeId}
    (h : c.Describes vars count clauses) (hu : vars[a]? = some u) (hv : vars[b]? = some v) :
    c.Describes vars (count + 1)
      (clauses ++ Cnf.xorClauses (.pos u) (.pos v) (.pos (count + 1))) := by
  have hule := h.var_le a u hu
  have hvle := h.var_le b v hv
  refine h.append (fun p => c.value p a ^^ c.value p b) (fun clause hclause l hl => ?_)
    fun p s hmatches hs => ?_
  · simp only [Cnf.xorClauses, List.mem_cons, List.not_mem_nil, or_false] at hclause
    rcases hclause with rfl | rfl | rfl | rfl <;> simp at hl <;> rcases hl with rfl | rfl | rfl <;>
      simp [Lit.pos] <;> omega
  · rw [Assignment.satisfies_xorClauses_iff, Assignment.lit_pos, Assignment.lit_pos,
      Assignment.lit_pos, hmatches a u hu, hmatches b v hv, hs]

theorem ask_of_ok {question : Reduction σ → Except Error α} {r : Reduction σ} {a : α}
    (h : question r = .ok a) : ask question r = .ok a r := by
  rw [ask, h]

theorem nodeLit_of_getElem? {enc : Encoding} {id : NodeId} {v : Nat}
    (hv : enc.vars[id]? = some v) : enc.nodeLit id = .ok (.pos v) := by
  simp [Encoding.nodeLit, Encoding.lit?, hv]

/-- A truthful oracle tells whether two encoded nodes compute the same. -/
theorem proveEqual_performs (horacle : oracle.Answers Holds)
    (hsame : ∀ a b, same a b = true ↔ c.SameFunction a b) {a b : NodeId} (ha : a ∈ vars)
    (hb : b ∈ vars) : Performs (Reducing c vars Holds) (proveEqual oracle a b) (same a b) [] := by
  apply Performs.of_quiet
  intro r hr
  obtain ⟨clauses, hdescribes, hholds⟩ := hr.clauses
  obtain ⟨u, hu⟩ := Circuit.exists_of_mem ha
  obtain ⟨v, hv⟩ := Circuit.exists_of_mem hb
  have hla : ask (·.encoding.nodeLit a) r = .ok (.pos u) r :=
    ask_of_ok (nodeLit_of_getElem? (hr.vars_eq ▸ hu))
  have hlb : ask (·.encoding.nodeLit b) r = .ok (.pos v) r :=
    ask_of_ok (nodeLit_of_getElem? (hr.vars_eq ▸ hv))
  let count := r.encoding.cnf.varCount
  let named : Reduction σ := { r with encoding :=
    { r.encoding with cnf := { r.encoding.cnf with varCount := count + 1 } } }
  obtain ⟨s, hadds, hs⟩ : ∃ s, (Cnf.xorClauses (.pos u) (.pos v) (.pos (count + 1))).forM
      (fun clause => consult (oracle.add clause)) named = .ok () { named with oracle := s } ∧
      Holds s (clauses ++ Cnf.xorClauses (.pos u) (.pos v) (.pos (count + 1))) :=
    consult_adds horacle hholds
  obtain ⟨answer, t, hsolve, hanswer, ht⟩ := horacle.solve [.pos (count + 1)] hs
  rw [satisfiable_differ_iff hdescribes hu hv] at hanswer
  have hresult : (!answer) = same a b := by
    rw [Bool.eq_iff_iff, hsame, Bool.not_eq_true', ← Bool.not_eq_true, hanswer, not_not]
  refine ⟨{ named with oracle := t }, ⟨hr.vars_eq, _, describes_xorClauses hdescribes hu hv, ht⟩, ?_,
    rfl, rfl⟩
  have hget : (get : Reducer σ _) r = .ok r r := rfl
  rw [proveEqual, estateM_bind_of_ok hla, estateM_bind_of_ok hlb, estateM_bind_of_ok hget, ← hresult]
  exact (estateM_bind_of_ok (t := named) rfl _).trans ((estateM_bind_of_ok hadds _).trans
    (estateM_bind_of_ok (consult_of_ok hsolve) _))

theorem note_performs (f : ReductionReport → ReductionReport)
    (hf : ∀ report, (f report).merges = report.merges) :
    Performs (Reducing c vars Holds) (note f) () [] :=
  Performs.of_quiet fun r hr => ⟨{ r with report := f r.report }, ⟨hr.vars_eq, hr.clauses⟩, rfl, rfl,
    hf r.report⟩

/-- A merge is made and then written into the report. -/
theorem merge_performs (victim survivor : NodeId) :
    Performs (Reducing c vars Holds) (do
      changeCircuit (·.merge victim survivor false)
      note fun report => { report with merges := report.merges ++ [(victim, survivor)] })
      () [(victim, survivor)] := by
  intro r hr
  cases hmerge : r.circuit.merge victim survivor false with
  | ok d =>
    have hall : Circuit.mergeAll [(victim, survivor)] r.circuit = .ok () d := by
      simp [Circuit.mergeAll, List.forM, Bind.bind, EStateM.bind, Pass.step, hmerge, pure,
        EStateM.pure]
    have hchange : changeCircuit (·.merge victim survivor false) r = .ok () { r with circuit := d } :=
      changeCircuit_eq_ok_iff.2 ⟨d, hmerge, rfl⟩
    rw [hall, estateM_bind_of_ok hchange]
    exact ⟨⟨d, r.encoding, r.oracle,
      { r.report with merges := r.report.merges ++ [(victim, survivor)] }⟩,
      ⟨hr.vars_eq, hr.clauses⟩, rfl, rfl, rfl⟩
  | error failure =>
    have hall : Circuit.mergeAll [(victim, survivor)] r.circuit = .error failure r.circuit := by
      simp [Circuit.mergeAll, List.forM, Bind.bind, EStateM.bind, Pass.step, hmerge]
    have hchange : changeCircuit (·.merge victim survivor false) r = .error failure r := by
      rw [changeCircuit, hmerge]
    rw [hall, estateM_bind_of_error hchange]
    exact ⟨r, hr, rfl, rfl⟩

/-- With right answers, a comparison is a merge if the nodes compute the same. -/
theorem compareNodes_performs (horacle : oracle.Answers Holds)
    (hsame : ∀ a b, same a b = true ↔ c.SameFunction a b) {first other : NodeId}
    (hfirst : first ∈ vars) (hother : other ∈ vars) :
    Performs (Reducing c vars Holds) (compareNodes oracle first other) (same first other)
      (if same first other then [(other, first)] else []) := by
  have hquery : Performs (Reducing c vars Holds)
      (note fun report => { report with queries := report.queries + 1 }) () [] :=
    note_performs _ fun _ => rfl
  have hdisproved : Performs (Reducing c vars Holds)
      (note fun report => { report with disproved := report.disproved + 1 }) () [] :=
    note_performs _ fun _ => rfl
  rw [compareNodes]
  refine hquery.bind ((proveEqual_performs horacle hsame hfirst hother).bind ?_)
  cases hequal : same first other with
  | true =>
    have hmerge := (merge_performs (c := c) other first).bind
      (f := fun _ => Pure.pure true) (Performs.pure (Reducing c vars Holds) true)
    rw [bind_assoc] at hmerge
    exact hmerge
  | false => exact hdisproved.bind (Performs.pure _ false)

/-- One round merges into the first gate of the group all that compute the same, and keeps the
    others in order. -/
theorem mergeEqual_performs (horacle : oracle.Answers Holds)
    (hsame : ∀ a b, same a b = true ↔ c.SameFunction a b) {first : NodeId} {rest : List NodeId}
    (hfirst : first ∈ vars) (hrest : ∀ other ∈ rest, other ∈ vars) :
    Performs (Reducing c vars Holds) (mergeEqual oracle first rest)
      (rest.filter (!same first ·)) ((rest.filter (same first)).map (·, first)) := by
  induction rest with
  | nil => exact Performs.pure _ _
  | cons other rest ih =>
    have htail : Performs (Reducing c vars Holds) (mergeEqual oracle first rest) _ _ :=
      ih fun id hid => hrest id (List.mem_cons_of_mem other hid)
    have hcompare := compareNodes_performs horacle hsame hfirst (hrest other List.mem_cons_self)
    rw [mergeEqual_cons]
    cases hequal : same first other with
    | true =>
      rw [hequal] at hcompare
      rw [List.filter_cons_of_pos hequal, List.filter_cons_of_neg (by simp [hequal]), List.map_cons]
      exact hcompare.bind htail
    | false =>
      rw [hequal] at hcompare
      have hkept := htail.bind (f := fun kept => Pure.pure (other :: kept)) (Performs.pure _ _)
      rw [List.append_nil] at hkept
      rw [List.filter_cons_of_pos (by simp [hequal]), List.filter_cons_of_neg (by simp [hequal])]
      exact hcompare.bind hkept

/-- Rounds go on with what is left, until the group is used up. -/
theorem reduceGroup_performs (horacle : oracle.Answers Holds)
    (hsame : ∀ a b, same a b = true ↔ c.SameFunction a b) {rounds : Nat} {group : List NodeId}
    (hgroup : ∀ id ∈ group, id ∈ vars) :
    Performs (Reducing c vars Holds) (reduceGroup oracle rounds group) ()
      (Circuit.groupMerges same rounds group) := by
  induction rounds generalizing group with
  | zero => exact Performs.pure _ _
  | succ rounds ih =>
    cases group with
    | nil => exact Performs.pure _ _
    | cons first rest =>
      have hrest : ∀ id ∈ rest, id ∈ vars := fun id hid => hgroup id (List.mem_cons_of_mem first hid)
      exact (mergeEqual_performs horacle hsame (hgroup first List.mem_cons_self) hrest).bind
        (ih fun id hid => hrest id (List.mem_filter.1 hid).1)

theorem reduceGroups_performs (horacle : oracle.Answers Holds)
    (hsame : ∀ a b, same a b = true ↔ c.SameFunction a b) {groups : List (List NodeId)}
    (hgroups : ∀ group ∈ groups, ∀ id ∈ group, id ∈ vars) :
    Performs (Reducing c vars Holds) (reduceGroups oracle groups) ()
      (groups.flatMap fun group => Circuit.groupMerges same group.length group) := by
  induction groups with
  | nil => exact Performs.pure _ _
  | cons group groups ih =>
    rw [List.flatMap_cons]
    exact (reduceGroup_performs horacle hsame (hgroups group List.mem_cons_self)).bind
      (ih fun other hother => hgroups other (List.mem_cons_of_mem group hother))

end Reducer

namespace Circuit

variable {σ : Type} {c : Circuit} {oracle : Oracle σ} {start : σ}

open Classical in
/-- Whether the nodes have the same value on all inputs. -/
noncomputable def same (c : Circuit) (a b : NodeId) : Bool := decide (c.SameFunction a b)

open Classical in
noncomputable def isEncoded (c : Circuit) (id : NodeId) : Bool := decide (c.Encoded id)

/-- The merges that a reduction of the circuit comes to when all answers are right. -/
noncomputable def plannedMerges (c : Circuit) : List (NodeId × NodeId) :=
  (c.classes.candidates.map (·.filter c.isEncoded)).flatMap fun group =>
    groupMerges c.same group.length group

theorem same_eq_true_iff {a b : NodeId} : c.same a b = true ↔ c.SameFunction a b := by
  simp [same]

theorem isEncoded_eq_true_iff {id : NodeId} : c.isEncoded id = true ↔ c.Encoded id := by
  simp [isEncoded]

theorem keeps_mergeAll {P : Circuit → Prop}
    (h : ∀ c d victim replacement, P c → c.redirect victim replacement = .ok d → P d)
    (merges : List (NodeId × NodeId)) : Keeps P (mergeAll merges) :=
  Keeps.forM fun merge _ => Pass.keeps_step fun c d hc hd => h c d merge.1 ⟨merge.2, false⟩ hc hd

theorem WellFormed.of_mergeAll {merges : List (NodeId × NodeId)} (hc : c.WellFormed)
    (h : mergeAll merges c = .ok () d) : d.WellFormed ∧ d.classes = c.classes := by
  have hkept : Keeps (fun e => e.WellFormed ∧ e.classes = c.classes) (mergeAll merges) := by
    refine keeps_mergeAll (fun e f victim replacement he hredirect => ?_) merges
    obtain ⟨hredirected, hf⟩ := he.1.of_redirect hredirect
    exact ⟨hf, hredirected.classes.trans he.2⟩
  exact hkept.of_ok ⟨hc, rfl⟩ h

/-- The groups that a reduction works through. -/
noncomputable def encodedGroups (c : Circuit) : List (List NodeId) :=
  c.classes.candidates.map (·.filter c.isEncoded)

/-- A reduction first hands over the encoding of the circuit, then works through the groups without
    the nodes that are not encoded, and groups the gates anew. -/
theorem WellFormed.exists_encode_run (hc : c.WellFormed) (hacyclic : c.Acyclic) :
    ∃ enc, c.encode = .ok enc ∧ c.DescribedBy enc ∧ (∀ id, id ∈ enc.vars ↔ c.Encoded id) ∧
      ∀ oracle : Oracle σ, ∀ start, Reducer.run oracle ⟨c, enc, start, ⟨[], 0, 0⟩⟩ =
        (enc.cnf.clauses.toList.forM (fun clause => Reducer.consult (oracle.add clause)) >>= fun _ =>
          Reducer.reduceGroups oracle c.encodedGroups >>= fun _ =>
            Reducer.changeCircuit Circuit.classify) ⟨c, enc, start, ⟨[], 0, 0⟩⟩ := by
  obtain ⟨enc, hencode, hdescribed, hmem⟩ := hc.exists_encode hacyclic
  have hencoded : (fun id => (enc.lit? id).isSome) = c.isEncoded := by
    funext id
    rw [Bool.eq_iff_iff, isEncoded_eq_true_iff, ← hmem, Std.TreeMap.mem_iff_isSome_getElem?]
    simp [Encoding.lit?]
  refine ⟨enc, hencode, hdescribed, hmem, fun oracle start => ?_⟩
  have hget : (get : Reducer σ _) ⟨c, enc, start, ⟨[], 0, 0⟩⟩ =
    .ok ⟨c, enc, start, ⟨[], 0, 0⟩⟩ ⟨c, enc, start, ⟨[], 0, 0⟩⟩ := rfl
  rw [Reducer.run, estateM_bind_of_ok hget, hencoded]
  rfl

/-- With a truthful oracle a reduction does nothing but the planned merges, as far as they succeed,
    and groups the gates anew when all of them have. -/
theorem WellFormed.reduceWith_eq (hc : c.WellFormed) (hacyclic : c.Acyclic)
    (htruthful : oracle.Truthful start) :
    match mergeAll c.plannedMerges c with
    | .ok _ d => ∃ e report s, d.classify = .ok e ∧
        c.reduceWith oracle start = (.ok report, e, s) ∧ report.merges = c.plannedMerges
    | .error failure d => ∃ s, c.reduceWith oracle start = (.error failure, d, s) := by
  obtain ⟨Holds, horacle, hstart⟩ := htruthful
  obtain ⟨enc, hencode, hdescribed, hmem, hrun⟩ := hc.exists_encode_run hacyclic
  obtain ⟨s, hadds, hs⟩ : ∃ s, enc.cnf.clauses.toList.forM
      (fun clause => Reducer.consult (oracle.add clause)) ⟨c, enc, start, ⟨[], 0, 0⟩⟩ =
        .ok () ⟨c, enc, s, ⟨[], 0, 0⟩⟩ ∧ Holds s ([] ++ enc.cnf.clauses.toList) :=
    Reducer.consult_adds horacle hstart
  have hgroups : ∀ group ∈ c.encodedGroups, ∀ id ∈ group, id ∈ enc.vars := by
    intro group hgroup id hid
    obtain ⟨listed, _, rfl⟩ := List.mem_map.1 hgroup
    exact (hmem id).2 (isEncoded_eq_true_iff.1 (List.mem_filter.1 hid).2)
  have hreducing : Reducer.Reducing c enc.vars Holds ⟨c, enc, s, ⟨[], 0, 0⟩⟩ :=
    ⟨rfl, enc.cnf.clauses.toList, hdescribed, hs⟩
  obtain ⟨r, _, hresult⟩ := Reducer.reduceGroups_performs horacle
    (fun a b => same_eq_true_iff) hgroups _ hreducing
  unfold reduceWith
  rw [hencode]
  dsimp only
  rw [hrun, estateM_bind_of_ok hadds]
  change match mergeAll c.plannedMerges c with
    | .ok _ d => _ = _ ∧ r.circuit = d ∧ r.report.merges = [] ++ c.plannedMerges
    | .error failure d => _ = _ ∧ r.circuit = d at hresult
  cases hmerges : mergeAll c.plannedMerges c with
  | ok _ d =>
    rw [hmerges] at hresult
    obtain ⟨hreduced, rfl, hreport⟩ := hresult
    obtain ⟨hd, _⟩ := hc.of_mergeAll hmerges
    obtain ⟨classes, _, hclassify, _⟩ := hd.exists_classify
    rw [estateM_bind_of_ok hreduced, Reducer.changeCircuit_eq_ok_iff.2 ⟨_, hclassify, rfl⟩]
    exact ⟨_, r.report, r.oracle, hclassify, rfl, hreport⟩
  | error failure d =>
    rw [hmerges] at hresult
    obtain ⟨hreduced, rfl⟩ := hresult
    rw [estateM_bind_of_error hreduced]
    exact ⟨r.oracle, rfl⟩

end Circuit

end AndInverter
