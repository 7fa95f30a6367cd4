import AndInverter.Proofs.Pipeline

open AndInverter.Sat
open Relation

namespace AndInverter

namespace Operation

def IsReduction : Operation → Prop
  | reduceWith _ _ => True
  | _ => False

/-- The call declares a gate under an id that is free, though a candidate group still lists it. -/
def RenewsCandidate (c : Circuit) : Operation → Prop
  | addGate id _ _ => c.node? id = none ∧ ∃ group ∈ c.classes.candidates, id ∈ group
  | _ => False

end Operation

namespace Circuit

variable {c d : Circuit} {op : Operation} {ops : List Operation}

/-- What a node would read once the merges are made. -/
def FeedsAfter (c : Circuit) (merges : List (NodeId × NodeId)) (source consumer : NodeId) : Prop :=
  ∃ old, c.Feeds old consumer ∧ standIn merges old = source

/-- The merges of a reduction, as far as they are performed, leave no node that depends on itself.
    This is a question about the circuit as it is before the reduction. -/
def ReducesSafely (c : Circuit) : Prop :=
  ∀ id, ¬ TransGen (c.FeedsAfter (performedMerges c.plannedMerges c)) id id

theorem Contracted.acyclic_iff {merges : List (NodeId × NodeId)} (h : c.Contracted merges d) :
    d.Acyclic ↔ ∀ id, ¬ TransGen (c.FeedsAfter merges) id id := by
  have hfeeds : d.Feeds = c.FeedsAfter merges := by
    funext source consumer
    exact propext h.feeds
  rw [Acyclic, hfeeds]

variable {σ : Type} {oracle : Oracle σ} {start : σ}

/-- Whether a reduction closes a cycle can be told beforehand. -/
theorem WellFormed.acyclic_reduceWith_iff (hc : c.WellFormed) (hacyclic : c.Acyclic)
    (htruthful : oracle.Truthful start) :
    (c.reduceWith oracle start).2.1.Acyclic ↔ c.ReducesSafely := by
  have hreduce := hc.reduceWith_eq hacyclic htruthful
  have hcontracted := hc.mergeAll_contracted c.plannedMerges
  cases hmerges : Circuit.mergeAll c.plannedMerges c with
  | ok _ d =>
    rw [hmerges] at hreduce hcontracted
    obtain ⟨e, report, s, hclassify, hreduce, _⟩ := hreduce
    obtain ⟨hcontracted, hall⟩ := hcontracted
    obtain ⟨hd, _⟩ := hc.of_mergeAll hmerges
    obtain ⟨hshape, _⟩ := hd.of_classify hclassify
    rw [hreduce, ReducesSafely, hall, ← hcontracted.acyclic_iff]
    exact ⟨hshape.symm.acyclic, hshape.acyclic⟩
  | error failure d =>
    rw [hmerges] at hreduce hcontracted
    obtain ⟨s, hreduce⟩ := hreduce
    rw [hreduce, ReducesSafely, ← hcontracted.acyclic_iff]

theorem steady_acyclic : Steady fun c => c.WellFormed ∧ c.Acyclic where
  classify := by
    intro c d hboth hclassify
    obtain ⟨hc, hacyclic⟩ := hboth
    obtain ⟨hshape, _⟩ := hc.of_classify hclassify
    exact ⟨hshape.wellFormed hc, hshape.acyclic hacyclic⟩
  simulated := fun ⟨hc, hacyclic⟩ h => ⟨h.wellFormed hc, h.acyclic hacyclic⟩

/-- Nothing but a reduction can close a cycle. -/
theorem WellFormed.acyclic_perform_iff (hc : c.WellFormed) (hacyclic : c.Acyclic)
    (hop : op.IsConstruction ∨ op.IsTruthfulPass) :
    (op.perform c).2.Acyclic ↔ (op.IsReduction → c.ReducesSafely) := by
  have hboth : c.WellFormed ∧ c.Acyclic := ⟨hc, hacyclic⟩
  rcases hop with hconstruction | hpass
  · have hother : ¬ op.IsReduction := by
      cases op <;> simp_all [Operation.IsConstruction, Operation.IsReduction]
    refine iff_of_true ?_ fun h => absurd h hother
    refine Operation.construction_induction hconstruction hc hacyclic
      (fun d hd haudit _ => hd.audit_eq_ok_iff.1 haudit) fun n d hattach _ hfanins _ => ?_
    obtain ⟨rank, hrank, _⟩ := hc.exists_ranked hacyclic
    refine (hrank.attach hc hattach fun e he => ?_).acyclic
    obtain ⟨source, hsource, _⟩ := hfanins e he
    simp [hsource]
  · cases op with
    | reduceWith oracle start =>
      exact (hc.acyclic_reduceWith_iff hacyclic hpass).trans ⟨fun h _ => h, fun h => h trivial⟩
    | share =>
      refine iff_of_true ?_ fun h => h.elim
      obtain ⟨merges, d, hshare, hd, _⟩ := hc.share hacyclic
      rw [Operation.perform, Operation.runPass_of_ok hshare]
      exact hd.acyclic
    | simplify =>
      refine iff_of_true ?_ fun h => h.elim
      obtain ⟨rank, hrank, hzero⟩ := hc.exists_rank hacyclic
      obtain ⟨replaced, d, hsimplify, hd⟩ := hc.simplify hrank hzero
      rw [Operation.perform, Operation.runPass_of_ok hsimplify]
      exact hd.ranked.acyclic
    | sweep =>
      refine iff_of_true ?_ fun h => h.elim
      obtain ⟨rank, hrank, _⟩ := hc.exists_ranked hacyclic
      obtain ⟨ids, d, hsweep, _, hwithout, _⟩ := hc.exists_sweep
      rw [Operation.perform, Operation.runPass_of_ok hsweep]
      exact (hrank.of_without hwithout).acyclic
    | classify =>
      refine iff_of_true ?_ fun h => h.elim
      exact (Operation.attempt_induction hboth fun d hd => steady_acyclic.classify hboth hd).2
    | resetSignatures =>
      refine iff_of_true ?_ fun h => h.elim
      exact (steady_acyclic.simulated hboth (Simulated.resetSignatures c)).2
    | simulateRandom sink log seed count =>
      exact iff_of_true (steady_acyclic.simulate sink log _ hboth).2 fun h => h.elim
    | simulateText sink log text =>
      exact iff_of_true (steady_acyclic.simulate sink log _ hboth).2 fun h => h.elim
    | load | addInput | addGate | addOutput | merge => exact hpass.elim

/-- The candidate groups list no id above the bound, so they never list a new output. -/
def Bounded (c : Circuit) : Prop := ∀ group ∈ c.classes.candidates, ∀ id ∈ group, id ≤ c.maxVar

theorem bounded_of_no_candidates (hclasses : c.classes = .empty) : c.Bounded := by
  intro group hgroup id hid
  obtain ⟨signature, rfl⟩ := Classes.exists_eq_group hgroup
  rw [hclasses, Classes.group_empty] at hid
  cases hid

theorem lasting_bounded : Lasting fun c => c.WellFormed ∧ c.Bounded := by
  refine lasting_of_groups ?_ ?_
  · intro c order hc hgrouped group hgroup id hid
    obtain ⟨signature, rfl⟩ := Classes.exists_eq_group hgroup
    rw [hgrouped.group] at hid
    obtain ⟨⟨kind, hkind, hgate⟩, _⟩ := isGateWith_eq_true_iff.1 (List.mem_filter.1 hid).2
    exact hc.id_le hkind (Kind.isOutput_eq_false (by simp [hgate]))
  · intro c d hbounded hclasses hmaxVar _
    rw [Bounded, hclasses, hmaxVar]
    exact hbounded

/-- As long as no gate takes an id that the groups still list, the groups go on fitting an order of
    the circuit. -/
theorem Sound.perform_of_not_renews (hc : c.Sound) (hbounded : c.Bounded)
    (hop : op.IsConstruction ∨ op.IsTruthfulPass) (hrenews : ¬ op.RenewsCandidate c) :
    (op.perform c).2.Sound ∧ (op.perform c).2.Bounded := by
  rcases hop with hconstruction | hpass
  · refine Operation.construction_induction (P := fun d => d.Sound ∧ d.Bounded) hconstruction
      hc.wellFormed ⟨hc, hbounded⟩
      (fun d hd haudit hclasses => ?_) fun n d hattach hd hfanins hnew => ?_
    · exact ⟨hd.sound_of_no_candidates (hd.audit_eq_ok_iff.1 haudit) hclasses,
        bounded_of_no_candidates hclasses⟩
    · have hclasses := classes_of_attach hattach
      obtain ⟨rank, hordered⟩ := hc.ordered
      have hgroups : n.fanins = [] ∨ ∀ group ∈ c.classes.candidates, n.id ∉ group := by
        rcases hnew with hnone | habove | ⟨left, right, rfl⟩
        · exact .inl hnone
        · exact .inr fun group hgroup hid => UInt64.not_lt.2 (hbounded group hgroup _ hid) habove
        · exact .inr fun group hgroup hid =>
            hrenews ⟨(attach_eq_ok_iff.1 hattach).2.1, group, hgroup, hid⟩
      have hpresent : ∀ e ∈ n.fanins, (c.kind? e.node).isSome = true := by
        intro e he
        obtain ⟨source, hsource, _⟩ := hfanins e he
        simp [hsource]
      refine ⟨⟨hd, hordered.attach hc.wellFormed hattach hpresent hgroups⟩, ?_⟩
      rw [Bounded, hclasses]
      exact fun group hgroup id hid =>
        UInt64.le_trans (hbounded group hgroup id hid) (maxVar_le_of_attach hattach)
  · refine ⟨(hc.perform hpass).1, ?_⟩
    refine (lasting_bounded.perform ?_ ?_ ⟨hc.wellFormed, hbounded⟩).2
    · cases op <;> simp_all [Operation.IsConstruction, Operation.IsTruthfulPass]
    · rintro victim survivor inverted rfl
      exact hpass.elim

/-- In a session without direct merges and with truthful oracles, the audit passes in every state
    if and only if no reduction is started on a circuit whose planned merges close a cycle. This
    cannot happen when no gate takes the id of a removed one that the groups still list. -/
theorem audit_of_regular_session (ops : List Operation)
    (hops : ∀ op ∈ ops, op.IsConstruction ∨ op.IsTruthfulPass) :
    ((∀ before, before <+: ops → (empty.after before).audit = .ok ()) ↔
      ∀ before op, before ++ [op] <+: ops → op.IsReduction → (empty.after before).ReducesSafely) ∧
    ((∀ before op, before ++ [op] <+: ops → ¬ op.RenewsCandidate (empty.after before)) →
      ∀ before, before <+: ops → (empty.after before).audit = .ok ()) := by
  have hwell : ∀ before, (empty.after before).WellFormed := fun before =>
    wellFormed_empty.after before
  have hearlier : ∀ {before op}, before ++ [op] <+: ops → before <+: ops := fun h =>
    (List.prefix_append _ _).trans h
  have hregular : ∀ {before op}, before ++ [op] <+: ops → op.IsConstruction ∨ op.IsTruthfulPass :=
    fun h => hops _ (h.subset (List.mem_append_right _ List.mem_cons_self))
  simp only [(hwell _).audit_eq_ok_iff]
  refine ⟨⟨fun hall before op hprefix => ?_, fun hsafe before => ?_⟩, fun hrenews before => ?_⟩
  · have hnext := hall _ hprefix
    rw [after_concat] at hnext
    have hacyclic := hall before (hearlier hprefix)
    exact ((hwell before).acyclic_perform_iff hacyclic (hregular hprefix)).1 hnext
  · induction before using List.reverseRecOn with
    | nil => exact fun _ => acyclic_empty
    | append_singleton before op ih =>
      intro hprefix
      rw [after_concat]
      have hacyclic := ih (hearlier hprefix)
      exact ((hwell before).acyclic_perform_iff hacyclic (hregular hprefix)).2
        (hsafe before op hprefix)
  · suffices hinvariant : before <+: ops →
        (empty.after before).Sound ∧ (empty.after before).Bounded from
      fun hprefix => (hinvariant hprefix).1.acyclic
    induction before using List.reverseRecOn with
    | nil =>
      exact fun _ => ⟨wellFormed_empty.sound_of_no_candidates acyclic_empty rfl,
        bounded_of_no_candidates rfl⟩
    | append_singleton before op ih =>
      intro hprefix
      rw [after_concat]
      obtain ⟨hsound, hbounded⟩ := ih (hearlier hprefix)
      exact hsound.perform_of_not_renews hbounded (hregular hprefix) (hrenews before op hprefix)

/-- Two gates are grouped, replaced and swept away. Then their ids are used again, for gates of
    which the first depends on the second. -/
def recycled : List Operation :=
  [.addInput 1, .addGate 2 ⟨1, false⟩ ⟨1, false⟩, .addGate 3 ⟨2, false⟩ ⟨1, false⟩,
    .addOutput ⟨3, false⟩, .classify, .simplify, .sweep, .addGate 3 ⟨1, false⟩ ⟨1, false⟩,
    .addGate 5 ⟨3, false⟩ ⟨1, false⟩, .addGate 2 ⟨5, false⟩ ⟨1, false⟩, .addOutput ⟨2, false⟩]

theorem recycled_state :
    (empty.after recycled).audit = .ok () ∧
      (empty.after recycled).liveOrder = .ok [1, 4, 3, 5, 2, 6] ∧
      (empty.after recycled).classes.candidates = [[2, 3]] ∧
      ((empty.after recycled).merge 3 2 false).isOk = true ∧
      [2, 3, 5].map (empty.after recycled).kind? = [some (.gate ⟨5, false⟩ ⟨1, false⟩),
        some (.gate ⟨1, false⟩ ⟨1, false⟩), some (.gate ⟨3, false⟩ ⟨1, false⟩)] := by
  decide +kernel

theorem plannedMerges_recycled : (empty.after recycled).plannedMerges = [(3, 2)] := by
  have hwell := wellFormed_empty.after recycled
  obtain ⟨haudit, hlisted, hcandidates, _, hkinds⟩ := recycled_state
  generalize empty.after recycled = c at *
  simp only [List.map_cons, List.map_nil, List.cons.injEq, and_true] at hkinds
  obtain ⟨htwo, hthree, hfive⟩ := hkinds
  have hacyclic := hwell.audit_eq_ok_iff.1 haudit
  have hsame : c.same 2 3 = true := by
    apply same_eq_true_iff.2
    intro p
    rw [hwell.value_eq hacyclic htwo, hwell.value_eq hacyclic hthree]
    simp only [Kind.eval, Edge.signal_plain, hwell.value_eq hacyclic hfive,
      hwell.value_eq hacyclic hthree, Bool.and_self]
  obtain ⟨order, horder, hlive⟩ := hwell.exists_liveOrder
  obtain rfl := Except.ok.inj (horder.symm.trans hlisted)
  have htwoEncoded : c.isEncoded 2 = true :=
    isEncoded_eq_true_iff.2 ⟨hlive.mem_iff.1 (by decide), _, htwo, rfl⟩
  have hthreeEncoded : c.isEncoded 3 = true :=
    isEncoded_eq_true_iff.2 ⟨hlive.mem_iff.1 (by decide), _, hthree, rfl⟩
  simp [plannedMerges, hcandidates, groupMerges, hsame, htwoEncoded, hthreeEncoded]

/-- The merge makes the second gate read itself through the one between them. -/
theorem not_reducesSafely_recycled : ¬ (empty.after recycled).ReducesSafely := by
  obtain ⟨_, _, _, hok, hkinds⟩ := recycled_state
  simp only [List.map_cons, List.map_nil, List.cons.injEq, and_true] at hkinds
  obtain ⟨htwo, _, hfive⟩ := hkinds
  intro hsafe
  apply hsafe 2
  rw [plannedMerges_recycled, performedMerges]
  cases hmerge : (empty.after recycled).merge 3 2 false with
  | error failure =>
    rw [hmerge] at hok
    cases hok
  | ok d =>
    refine TransGen.head ⟨3, ⟨_, hfive, _, List.mem_cons_self, rfl⟩, rfl⟩ (.single ?_)
    exact ⟨5, ⟨_, htwo, _, List.mem_cons_self, rfl⟩, rfl⟩

/-- Ids that are used again can leave a circuit that fails its audit. -/
theorem audit_of_regular_recycled :
    (∀ op ∈ recycled ++ [.reduceWith Solver.oracle .empty],
        op.IsConstruction ∨ op.IsTruthfulPass) ∧
      ¬ ∀ before, before <+: recycled ++ [.reduceWith Solver.oracle .empty] →
        (empty.after before).audit = .ok () := by
  have hops : ∀ op ∈ recycled ++ [.reduceWith Solver.oracle .empty],
      op.IsConstruction ∨ op.IsTruthfulPass := by
    simp [recycled, Operation.IsConstruction, Operation.IsTruthfulPass, Solver.truthful]
  refine ⟨hops, fun hall => ?_⟩
  have hsafe := (audit_of_regular_session _ hops).1.1 hall
  exact not_reducesSafely_recycled (hsafe recycled _ (List.prefix_refl _) trivial)

end Circuit

end AndInverter
