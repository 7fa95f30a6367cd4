import AndInverter.Proofs.Preservation.Reduction
import AndInverter.Proofs.Reduction.Schedule

open AndInverter.Sat

namespace AndInverter

namespace Sat

variable {σ : Type}

/-- The states that an oracle can come to when its calls succeed. -/
inductive Oracle.Reaches (oracle : Oracle σ) (start : σ) : σ → Prop where
  | refl : Reaches oracle start start
  | add {s t : σ} {clause : Clause} (hs : Reaches oracle start s)
    (hadd : oracle.add clause s = .ok () t) : Reaches oracle start t
  | solve {s t : σ} {assumed : List Lit} {answer : Bool} (hs : Reaches oracle start s)
    (hsolve : oracle.solve assumed s = .ok answer t) : Reaches oracle start t

/-- In one of these states the oracle gives this reason for a failure. -/
def Oracle.CanFail (oracle : Oracle σ) (start : σ) (reason : String) : Prop :=
  ∃ s t, oracle.Reaches start s ∧ ((∃ clause, oracle.add clause s = .error reason t) ∨
    ∃ assumed, oracle.solve assumed s = .error reason t)

/-- The oracle never fails. Its answers may be wrong. -/
def Oracle.Unfailing (oracle : Oracle σ) (start : σ) : Prop :=
  ∀ reason, ¬ oracle.CanFail start reason

/-- An oracle that answers truthfully answers. -/
theorem Oracle.Truthful.unfailing {oracle : Oracle σ} {start : σ} (h : oracle.Truthful start) :
    oracle.Unfailing start := by
  obtain ⟨Holds, hanswers, hstart⟩ := h
  have hholds : ∀ s, oracle.Reaches start s → ∃ clauses, Holds s clauses := by
    intro s hs
    induction hs with
    | refl => exact ⟨[], hstart⟩
    | @add s t clause _ hadd ih =>
      obtain ⟨clauses, hclauses⟩ := ih
      obtain ⟨u, hu, hholds⟩ := hanswers.add clause hclauses
      rw [hadd] at hu
      cases hu
      exact ⟨_, hholds⟩
    | @solve s t assumed answer _ hsolve ih =>
      obtain ⟨clauses, hclauses⟩ := ih
      obtain ⟨_, u, hu, _, hholds⟩ := hanswers.solve assumed hclauses
      rw [hsolve] at hu
      cases hu
      exact ⟨_, hholds⟩
  rintro reason ⟨s, t, hs, hfails⟩
  obtain ⟨clauses, hclauses⟩ := hholds s hs
  rcases hfails with ⟨clause, hadd⟩ | ⟨assumed, hsolve⟩
  · obtain ⟨_, hok, _⟩ := hanswers.add clause hclauses
    rw [hadd] at hok
    cases hok
  · obtain ⟨_, _, hok, _⟩ := hanswers.solve assumed hclauses
    rw [hsolve] at hok
    cases hok

end Sat

namespace Reducer

variable {σ α β : Type} {oracle : Oracle σ} {start : σ}

/-- The steps keep `P` unless the oracle fails, and nothing else fails. -/
def Secure (oracle : Oracle σ) (start : σ) (P : Reduction σ → Prop) (x : Reducer σ α) : Prop :=
  ∀ r, P r → match x r with
    | .ok _ s => P s
    | .error failure _ => ∃ reason, failure = .oracle reason ∧ oracle.CanFail start reason

namespace Secure

variable {P : Reduction σ → Prop} {x : Reducer σ α}

theorem pure (a : α) : Secure oracle start P (Pure.pure a) := fun _ hr => hr

theorem modify {f : Reduction σ → Reduction σ} (h : ∀ r, P r → P (f r)) :
    Secure oracle start P (modifyGet fun r => (PUnit.unit, f r) : Reducer σ PUnit) := fun r hr => h r hr

/-- Steps that are secure one by one are secure in a row. -/
theorem bind {f : α → Reducer σ β} (hx : Secure oracle start P x)
    (hf : ∀ a, Secure oracle start P (f a)) : Secure oracle start P (x >>= f) := by
  intro r hr
  have hfirst := hx r hr
  cases hresult : x r with
  | ok a s =>
    rw [hresult] at hfirst
    rw [estateM_bind_of_ok hresult]
    exact hf a s hfirst
  | error failure s =>
    rw [hresult] at hfirst
    rw [estateM_bind_of_error hresult]
    exact hfirst

theorem forM {f : α → Reducer σ PUnit} {l : List α} (h : ∀ a, Secure oracle start P (f a)) :
    Secure oracle start P (l.forM f) := by
  induction l with
  | nil => exact .pure PUnit.unit
  | cons a l ih => exact (h a).bind fun _ => ih

end Secure

/-- The reduction has these variables and this report, and its oracle has not failed. -/
structure Attached (vars : Std.TreeMap NodeId Nat) (report : ReductionReport) (oracle : Oracle σ)
    (start : σ) (r : Reduction σ) : Prop where
  vars_eq : r.encoding.vars = vars
  report_eq : r.report = report
  reaches : oracle.Reaches start r.oracle

variable {vars : Std.TreeMap NodeId Nat} {report : ReductionReport}

theorem secure_add (clause : Clause) :
    Secure oracle start (Attached vars report oracle start) (consult (oracle.add clause)) := by
  intro r hr
  unfold consult
  cases hadd : oracle.add clause r.oracle with
  | ok _ s => exact ⟨hr.vars_eq, hr.report_eq, hr.reaches.add hadd⟩
  | error reason s => exact ⟨reason, rfl, r.oracle, s, hr.reaches, .inl ⟨clause, hadd⟩⟩

theorem secure_solve (assumed : List Lit) :
    Secure oracle start (Attached vars report oracle start) (consult (oracle.solve assumed)) := by
  intro r hr
  unfold consult
  cases hsolve : oracle.solve assumed r.oracle with
  | ok answer s => exact ⟨hr.vars_eq, hr.report_eq, hr.reaches.solve hsolve⟩
  | error reason s => exact ⟨reason, rfl, r.oracle, s, hr.reaches, .inr ⟨assumed, hsolve⟩⟩

theorem secure_nodeLit {id : NodeId} (hid : id ∈ vars) :
    Secure oracle start (Attached vars report oracle start) (ask (·.encoding.nodeLit id)) := by
  intro r hr
  obtain ⟨v, hv⟩ := Circuit.exists_of_mem hid
  rw [ask_of_ok (nodeLit_of_getElem? (hr.vars_eq ▸ hv))]
  exact hr

/-- A query fails if the oracle does, and for no other reason. -/
theorem secure_proveEqual {a b : NodeId} (ha : a ∈ vars) (hb : b ∈ vars) :
    Secure oracle start (Attached vars report oracle start) (proveEqual oracle a b) := by
  apply (secure_nodeLit ha).bind
  intro la
  apply (secure_nodeLit hb).bind
  intro lb
  refine Secure.bind (x := get) (fun _ hr => hr) fun r => ?_
  split
  refine Secure.bind (Secure.modify fun _ hr => ⟨hr.vars_eq, hr.report_eq, hr.reaches⟩) fun _ => ?_
  apply (Secure.forM secure_add).bind
  intro _
  exact (secure_solve _).bind fun answer => Secure.pure _

/-- A reduction of `c` after these comparisons: it has made the merges that they led to, and no
    cycle. -/
structure Underway (c : Circuit) (rank : NodeId → Nat) (vars : Std.TreeMap NodeId Nat)
    (oracle : Oracle σ) (start : σ) (log : List Comparison) (r : Reduction σ) : Prop where
  merged : Circuit.mergeAll (Comparison.merges log) c = .ok () r.circuit
  wellFormed : r.circuit.WellFormed
  ranked : r.circuit.Ranked rank
  attached : Attached vars ⟨Comparison.merges log, (Comparison.left log).length, log.length⟩ oracle
    start r

namespace Underway

variable {c : Circuit} {rank : NodeId → Nat} {log : List Comparison} {r s : Reduction σ}
  {first other : NodeId}

/-- The nodes were found to differ. -/
theorem keep (h : Underway c rank vars oracle start log r)
    (hs : Attached vars ⟨Comparison.merges log, (Comparison.left log).length, log.length + 1⟩ oracle
      start s) (hcircuit : s.circuit = r.circuit) :
    Underway c rank vars oracle start (log ++ [⟨first, other, false⟩])
      { s with report := { s.report with disproved := s.report.disproved + 1 } } where
  merged := by
    rw [Comparison.merges_append, hcircuit]
    exact (List.append_nil _).symm ▸ h.merged
  wellFormed := hcircuit ▸ h.wellFormed
  ranked := hcircuit ▸ h.ranked
  attached := by
    refine ⟨hs.vars_eq, ?_, hs.reaches⟩
    rw [hs.report_eq]
    simp [Comparison.merges, Comparison.left]

/-- The nodes were found equal, and the merge went down along the numbers. -/
theorem merge (h : Underway c rank vars oracle start log r)
    (hs : Attached vars ⟨Comparison.merges log, (Comparison.left log).length, log.length + 1⟩ oracle
      start s) {d : Circuit} (hmerge : r.circuit.merge other first false = .ok d)
    (hd : d.WellFormed) (hrank : d.Ranked rank) :
    Underway c rank vars oracle start (log ++ [⟨first, other, true⟩])
      { s with circuit := d, report := { s.report with merges := s.report.merges ++ [(other, first)] } } where
  merged := by
    have hstep : Pass.step (·.merge other first false) r.circuit = .ok () d := Pass.step_of_ok hmerge
    rw [Comparison.merges_append, Circuit.mergeAll_append, estateM_bind_of_ok h.merged]
    exact estateM_bind_of_ok hstep _
  wellFormed := hd
  ranked := hrank
  attached := by
    refine ⟨hs.vars_eq, ?_, hs.reaches⟩
    rw [hs.report_eq]
    simp [Comparison.merges, Comparison.left]

/-- The gates of the circuit at the start are still there. -/
theorem isGate (h : Underway c rank vars oracle start log r) (hc : c.WellFormed) {id : NodeId}
    (hid : c.IsGate id) : r.circuit.IsGate id := by
  have hcontracted := hc.mergeAll_contracted (Comparison.merges log)
  rw [h.merged] at hcontracted
  exact hcontracted.1.isGate_iff.2 hid

/-- A comparison of gates that the circuit had at the start, in the order of the numbers, fails only
    if the oracle does, and then merges nothing. -/
theorem compareNodes (h : Underway c rank vars oracle start log r) (hc : c.WellFormed)
    (hfirst : first ∈ vars) (hother : other ∈ vars) (hfirstGate : c.IsGate first)
    (hotherGate : c.IsGate other) (hlt : rank first < rank other) :
    match Reducer.compareNodes oracle first other r with
    | .ok equal s => Underway c rank vars oracle start (log ++ [⟨first, other, equal⟩]) s
    | .error failure s => s.circuit = r.circuit ∧
        ∃ reason, failure = .oracle reason ∧ oracle.CanFail start reason := by
  let noted : Reduction σ := { r with report := { r.report with queries := r.report.queries + 1 } }
  have hnote : note (fun report => { report with queries := report.queries + 1 }) r = .ok () noted :=
    rfl
  have hnoted : Attached vars
      ⟨Comparison.merges log, (Comparison.left log).length, log.length + 1⟩ oracle start noted :=
    ⟨h.attached.vars_eq, by simp [noted, h.attached.report_eq], h.attached.reaches⟩
  have hattached := secure_proveEqual (a := first) (b := other) hfirst hother noted hnoted
  have hcircuit := keeps_proveEqual (· = r.circuit) oracle first other noted rfl
  rw [Reducer.compareNodes, estateM_bind_of_ok hnote]
  cases hproved : proveEqual oracle first other noted with
  | error failure s =>
    rw [hproved] at hattached hcircuit
    rw [estateM_bind_of_error hproved]
    exact ⟨hcircuit, hattached⟩
  | ok equal s =>
    rw [hproved] at hattached hcircuit
    rw [estateM_bind_of_ok hproved]
    cases equal with
    | false => exact h.keep hattached hcircuit
    | true =>
      have hne : other ≠ first := by
        rintro rfl
        exact Nat.lt_irrefl _ hlt
      obtain ⟨kind, hkind, hgate⟩ := h.isGate hc hfirstGate
      obtain ⟨kind', hkind', _⟩ := h.isGate hc hotherGate
      have hreadable : ∃ kind, r.circuit.kind? first = some kind ∧ kind.isOutput = false :=
        ⟨kind, hkind, Kind.isOutput_eq_false (by simp [hgate])⟩
      obtain ⟨d, hmerge, _, hd, hrank⟩ : ∃ d, r.circuit.merge other first false = .ok d ∧
          r.circuit.Redirected other ⟨first, false⟩ d ∧ d.WellFormed ∧ d.Ranked rank :=
        h.wellFormed.redirect_down h.ranked hne hlt.le hreadable (by simp [hkind'])
      have hchange : changeCircuit (·.merge other first false) s = .ok () { s with circuit := d } :=
        changeCircuit_eq_ok_iff.2 ⟨d, hcircuit ▸ hmerge, rfl⟩
      rw [if_pos rfl, estateM_bind_of_ok hchange]
      exact h.merge hattached hmerge hd hrank

end Underway

end Reducer

namespace Circuit

variable {σ : Type} {c : Circuit} {rank : NodeId → Nat} {log : List Comparison}
  {oracle : Oracle σ} {start : σ}

/-- A comparison is of encoded gates, the second above the first. -/
theorem Ordered.of_scheduled (hc : c.Ordered rank) (hlists : c.ListsGates)
    (hlog : Reducer.Schedule c.encodedGroups log) {comparison : Comparison} (hmem : comparison ∈ log) :
    (c.Encoded comparison.first ∧ c.IsGate comparison.first) ∧
      (c.Encoded comparison.other ∧ c.IsGate comparison.other) ∧
      rank comparison.first < rank comparison.other := by
  obtain ⟨_, hgroup, hsublist⟩ := hlog.exists_sublist hmem
  obtain ⟨group, hcandidate, rfl⟩ := List.mem_map.1 hgroup
  have hpairwise := ((hc.groups group hcandidate).filter c.isEncoded).sublist hsublist
  have hgate : ∀ id ∈ group.filter c.isEncoded, c.Encoded id ∧ c.IsGate id := by
    intro id hid
    obtain ⟨hmem, hencoded⟩ := List.mem_filter.1 hid
    have hencoded := isEncoded_eq_true_iff.1 hencoded
    obtain ⟨_, kind, hkind, _⟩ := hencoded
    exact ⟨isEncoded_eq_true_iff.1 (List.mem_filter.1 hid).2, kind, hkind,
      hlists group hcandidate id hmem kind hkind⟩
  exact ⟨hgate _ (hsublist.subset (by simp)), hgate _ (hsublist.subset (by simp)),
    (List.pairwise_cons.1 hpairwise).1 _ (List.mem_singleton.2 rfl)⟩

/-- The comparisons of a reduction, whatever the oracle answers. If one of them fails, so did the
    oracle, and the merges are those of the comparisons before. -/
theorem Ordered.reduceGroups (hc : c.Ordered rank) (hwell : c.WellFormed) (hlists : c.ListsGates)
    {vars : Std.TreeMap NodeId Nat} (hvars : ∀ id, id ∈ vars ↔ c.Encoded id) {r : Reduction σ}
    (hr : Reducer.Underway c rank vars oracle start [] r) :
    match Reducer.reduceGroups oracle c.encodedGroups r with
    | .ok _ s => ∃ log, Reducer.Schedule c.encodedGroups log ∧
        Reducer.Underway c rank vars oracle start log s
    | .error failure s => (∃ reason, failure = .oracle reason ∧ oracle.CanFail start reason) ∧
        ∃ log more t, Reducer.Schedule c.encodedGroups (log ++ more) ∧
          Reducer.Underway c rank vars oracle start log t ∧ s.circuit = t.circuit := by
  have hstep : ∀ all, Reducer.Schedule c.encodedGroups all → ∀ before, ∀ comparison ∈ all, ∀ r,
      Reducer.Underway c rank vars oracle start before r →
      match Reducer.compareNodes oracle comparison.first comparison.other r with
      | .ok equal s => Reducer.Underway c rank vars oracle start
          (before ++ [⟨comparison.first, comparison.other, equal⟩]) s
      | .error failure s => s.circuit = r.circuit ∧
          ∃ reason, failure = .oracle reason ∧ oracle.CanFail start reason := by
    intro all hall before comparison hmem r hr
    obtain ⟨⟨hfirst, hfirstGate⟩, ⟨hother, hotherGate⟩, hlt⟩ := hc.of_scheduled hlists hall hmem
    exact hr.compareNodes hwell ((hvars _).2 hfirst) ((hvars _).2 hother) hfirstGate hotherGate hlt
  have hrun : ∀ all log, Reducer.Schedule c.encodedGroups all → log ⊆ all → ∀ s,
      Reducer.Compares oracle r log s → Reducer.Underway c rank vars oracle start log s := by
    intro all log hall hsubset s hcompares
    refine hcompares.invariant (P := Reducer.Underway c rank vars oracle start) ?_ [] hr
    intro before comparison hmem r s hr hresult
    have hnext := hstep all hall before comparison (hsubset hmem) r hr
    rw [hresult] at hnext
    exact hnext
  have hfollows := Reducer.Schedule.follows oracle c.encodedGroups r
  cases hresult : Reducer.reduceGroups oracle c.encodedGroups r with
  | ok _ s =>
    rw [hresult] at hfollows
    obtain ⟨log, hlog, hcompares⟩ := hfollows
    exact ⟨log, hlog, hrun log log hlog (List.Subset.refl log) s hcompares⟩
  | error failure s =>
    rw [hresult] at hfollows
    obtain ⟨log, next, t, ⟨_, more, hlog⟩, hcompares, hfails⟩ := hfollows
    have ht := hrun _ log hlog (List.subset_append_left log _) t hcompares
    have hnext := hstep _ hlog log next (by simp) t ht
    rw [hfails] at hnext
    exact ⟨hnext.2, log, _, t, hlog, ht, hnext.1⟩

/-- The oracle may fail before all clauses are handed over, and the circuit is then as it was. -/
theorem Ordered.load (hc : c.Ordered rank) (hwell : c.WellFormed) (oracle : Oracle σ) (start : σ)
    (enc : Encoding) :
    match enc.cnf.clauses.toList.forM (fun clause => Reducer.consult (oracle.add clause))
        ⟨c, enc, start, ⟨[], 0, 0⟩⟩ with
    | .ok _ s => Reducer.Underway c rank enc.vars oracle start [] s
    | .error failure s => s.circuit = c ∧
        ∃ reason, failure = .oracle reason ∧ oracle.CanFail start reason := by
  let begun : Reduction σ := ⟨c, enc, start, ⟨[], 0, 0⟩⟩
  have hattached : Reducer.Attached enc.vars ⟨[], 0, 0⟩ oracle start begun := ⟨rfl, rfl, .refl⟩
  have hloads := Reducer.Secure.forM (l := enc.cnf.clauses.toList) Reducer.secure_add begun hattached
  have hkept := Keeps.forM (l := enc.cnf.clauses.toList)
    (fun clause _ => Reducer.keeps_consult (· = c) (oracle.add clause)) begun rfl
  cases hload : enc.cnf.clauses.toList.forM (fun clause => Reducer.consult (oracle.add clause)) begun with
  | error failure s =>
    rw [hload] at hloads hkept
    exact ⟨hkept, hloads⟩
  | ok _ s =>
    rw [hload] at hloads hkept
    exact ⟨congrArg _ hkept.symm, hkept ▸ hwell, hkept ▸ hc.ranked, hloads⟩

/-- A reduction with any oracle fails only if the oracle does. The circuit is then what the merges
    so far have made of it, and otherwise what all merges have made of it, with the gates grouped
    anew. In neither case is there a cycle. -/
theorem Sound.reduceWith_cases (hc : c.Sound) (hlists : c.ListsGates) (oracle : Oracle σ)
    (start : σ) :
    match c.reduceWith oracle start with
    | (.ok report, d, _) => ∃ log e, Reducer.Schedule c.encodedGroups log ∧
        mergeAll (Comparison.merges log) c = .ok () e ∧ e.WellFormed ∧ e.Acyclic ∧
        e.classify = .ok d ∧
        report = ⟨Comparison.merges log, (Comparison.left log).length, log.length⟩
    | (.error failure, d, _) => (∃ reason, failure = .oracle reason ∧ oracle.CanFail start reason) ∧
        ∃ log more, Reducer.Schedule c.encodedGroups (log ++ more) ∧
          mergeAll (Comparison.merges log) c = .ok () d ∧ d.WellFormed ∧ d.Acyclic := by
  obtain ⟨rank, hordered⟩ := hc.ordered
  obtain ⟨enc, hencode, _, hvars, hrun⟩ := hc.wellFormed.exists_encode_run hc.acyclic
  let begun : Reduction σ := ⟨c, enc, start, ⟨[], 0, 0⟩⟩
  have hloaded := hordered.load hc.wellFormed oracle start enc
  unfold Circuit.reduceWith
  rw [hencode]
  dsimp only
  rw [hrun]
  cases hload : enc.cnf.clauses.toList.forM (fun clause => Reducer.consult (oracle.add clause)) begun with
  | error failure s =>
    rw [hload] at hloaded
    obtain ⟨rfl, hfails⟩ := hloaded
    rw [estateM_bind_of_error hload]
    obtain ⟨log, hlog⟩ := Reducer.Schedule.exists_log s.circuit.encodedGroups
    exact ⟨hfails, [], log, hlog, rfl, hc.wellFormed, hc.acyclic⟩
  | ok _ s =>
    rw [hload] at hloaded
    rw [estateM_bind_of_ok hload]
    have hgroups := hordered.reduceGroups hc.wellFormed hlists hvars hloaded
    cases hreduce : Reducer.reduceGroups oracle c.encodedGroups s with
    | error failure t =>
      rw [hreduce] at hgroups
      obtain ⟨hfails, log, more, u, hlog, hu, hcircuit⟩ := hgroups
      rw [estateM_bind_of_error hreduce]
      exact ⟨hfails, log, more, hlog, hcircuit ▸ hu.merged, hcircuit ▸ hu.wellFormed,
        hcircuit ▸ hu.ranked.acyclic⟩
    | ok _ t =>
      rw [hreduce] at hgroups
      obtain ⟨log, hlog, ht⟩ := hgroups
      obtain ⟨classes, _, hclassify, _⟩ := ht.wellFormed.exists_classify
      rw [estateM_bind_of_ok hreduce, Reducer.changeCircuit_eq_ok_iff.2 ⟨_, hclassify, rfl⟩]
      exact ⟨log, t.circuit, hlog, ht.merged, ht.wellFormed, ht.ranked.acyclic, hclassify,
        ht.attached.report_eq⟩

end Circuit

end AndInverter
