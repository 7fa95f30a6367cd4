import AndInverter.Proofs.Pipeline
import AndInverter.Proofs.Session
import AndInverter.Proofs.Sharing

open AndInverter.Sat

namespace AndInverter

namespace Circuit

variable {c d : Circuit} {op : Operation} {ops : List Operation}

/-- What is true of all groups that are up to date stays true: nothing but grouping anew changes the
    groups of a circuit. -/
theorem lasting_classes {Q : Classes → Prop}
    (hnew : ∀ {c : Circuit} {order : List NodeId}, c.Grouped order → Q c.classes) :
    Lasting fun c => c.WellFormed ∧ Q c.classes := by
  refine lasting_of_groups (fun _ hgrouped => hnew hgrouped) ?_
  intro c d hold hclasses _ _
  rwa [hclasses]

theorem lasting_listsGates : Lasting fun c => c.WellFormed ∧ c.ListsGates := by
  refine lasting_of_groups (fun _ hgrouped => hgrouped.listsGates) ?_
  intro c d hlists hclasses _ hkinds
  rw [ListsGates, hclasses]
  intro group hgroup id hid kind hkind
  obtain ⟨old, hold, hgate⟩ := hkinds hkind
  exact hgate ▸ hlists group hgroup id hid old hold

theorem candidates_empty (hclasses : c.classes = .empty) : c.classes.candidates = [] := by
  refine List.eq_nil_iff_forall_not_mem.2 fun group hgroup => ?_
  have hsize := (Classes.mem_candidates_iff.1 hgroup).2
  obtain ⟨signature, rfl⟩ := Classes.exists_eq_group hgroup
  rw [hclasses, Classes.group_empty] at hsize
  cases hsize

/-- What is true of no groups, and of all groups that are up to date, is true of the groups in every
    state of a session. -/
theorem classes_after {Q : Classes → Prop} (hempty : Q .empty)
    (hnew : ∀ {c : Circuit} {order : List NodeId}, c.Grouped order → Q c.classes)
    (ops : List Operation) : Q (empty.after ops).classes := by
  have hlasting := lasting_classes hnew
  suffices hinvariant : (empty.after ops).WellFormed ∧ Q (empty.after ops).classes from hinvariant.2
  induction ops using List.reverseRecOn with
  | nil => exact ⟨wellFormed_empty, hempty⟩
  | append_singleton ops op ih =>
    rw [after_concat]
    by_cases hop : op.IsConstruction
    · refine Operation.construction_induction (P := fun d => d.WellFormed ∧ Q d.classes) hop ih.1 ih
        (fun d hd _ hclasses => ⟨hd, hclasses ▸ hempty⟩) fun n d hattach hd _ _ => ⟨hd, ?_⟩
      rw [classes_of_attach hattach]
      exact ih.2
    · cases op with
      | merge victim survivor inverted =>
        exact Operation.attempt_induction ih fun d hd => hlasting.redirect ih hd
      | _ => exact hlasting.perform hop (by simp) ih

/-- In no state of a session is a gate a candidate twice. -/
theorem nodup_candidates_after (ops : List Operation) :
    (empty.after ops).classes.candidates.flatten.Nodup := by
  refine classes_after (Q := fun classes => classes.candidates.flatten.Nodup) ?_
    (fun hgrouped => hgrouped.nodup_candidates) ops
  have hnone : Classes.empty.candidates = [] := candidates_empty (c := empty) rfl
  rw [hnone]
  exact List.nodup_nil

end Circuit

namespace Operation

/-- The call groups the gates anew when it succeeds. -/
def Collects : Operation → Prop
  | share | classify | simulateRandom _ _ _ _ | simulateText _ _ _ | reduceWith _ _ => True
  | _ => False

/-- The call reworks the circuit and keeps the groups. -/
def Tidies : Operation → Prop
  | simplify | sweep => True
  | _ => False

end Operation

namespace Circuit

variable {c d : Circuit} {op : Operation} {ops : List Operation}

/-- A reduction that succeeds groups the gates at the end. -/
theorem WellFormed.exists_classify_of_reduceWith {σ : Type} {oracle : Oracle σ} {start s : σ}
    {report : ReductionReport} (hc : c.WellFormed)
    (h : c.reduceWith oracle start = (.ok report, d, s)) :
    ∃ e : Circuit, e.WellFormed ∧ e.classify = .ok d := by
  unfold Circuit.reduceWith at h
  split at h
  · cases h
  · next enc _ =>
    split at h
    · next r hrun =>
      cases h
      obtain ⟨_, _, hget, hrun⟩ := estateM_bind_eq_ok_iff.1 hrun
      cases hget
      obtain ⟨_, t, hload, hrun⟩ := estateM_bind_eq_ok_iff.1 hrun
      obtain ⟨_, u, hgroups, hrun⟩ := estateM_bind_eq_ok_iff.1 hrun
      have ht := (Keeps.forM fun clause _ => Reducer.keeps_consult WellFormed _).of_ok hc hload
      have hu := (Keeps.forM fun group _ => lasting_wellFormed.reduceGroup oracle _ group).of_ok ht
        hgroups
      obtain ⟨_, hclassify, rfl⟩ := Reducer.changeCircuit_eq_ok_iff.1 hrun
      exact ⟨u.circuit, hu, hclassify⟩
    · cases h

/-- After such a call the groups are up to date. -/
theorem WellFormed.grouped_of_collects (hc : c.WellFormed) (hop : op.Collects)
    (hok : (op.perform c).1 = .ok ()) : ∃ order, (op.perform c).2.Grouped order := by
  suffices hclassify : ∃ e : Circuit, e.WellFormed ∧ e.classify = .ok (op.perform c).2 by
    obtain ⟨e, he, hclassify⟩ := hclassify
    exact (he.of_classify hclassify).2.2
  have hsimulate : ∀ {τ : Type} (sink : Sink τ) (log : τ) (source : PatternSource),
      (∃ report, (c.simulate sink log source).1 = .ok report) →
        ∃ e : Circuit, e.WellFormed ∧ e.classify = .ok (c.simulate sink log source).2.1 := by
    rintro τ sink log source ⟨report, hreport⟩
    exact Simulation.of_simulate (Prod.ext hreport rfl)
      ((Simulated.resetSignatures c).wellFormed hc)
      fun order _ => Simulation.keeps_present
        (fun e id value he => (sameShape_record e id value).wellFormed he) order
  cases op with
  | share =>
    obtain ⟨merges, d, hshare⟩ := Operation.runPass_eq_ok_iff.1 hok
    obtain ⟨order, e, _, hmerges, hclassify⟩ := share_eq_ok_iff.1 hshare
    rw [Operation.perform, Operation.runPass_of_ok hshare]
    exact ⟨e, (lasting_wellFormed.mergeShared ∅ order).of_ok hc hmerges, hclassify⟩
  | classify =>
    obtain ⟨d, hclassify⟩ := Operation.attempt_eq_ok_iff.1 hok
    rw [Operation.perform, hclassify]
    exact ⟨c, hc, hclassify⟩
  | simulateRandom sink log seed count =>
    obtain ⟨report, hreport, _⟩ := except_map_eq_ok_iff.1 hok
    exact hsimulate sink log _ ⟨report, hreport⟩
  | simulateText sink log text =>
    obtain ⟨report, hreport, _⟩ := except_map_eq_ok_iff.1 hok
    exact hsimulate sink log _ ⟨report, hreport⟩
  | reduceWith oracle start =>
    obtain ⟨report, hreport, _⟩ := except_map_eq_ok_iff.1 hok
    exact hc.exists_classify_of_reduceWith (Prod.ext hreport rfl)
  | _ => exact hop.elim

/-- The groups were last collected on a circuit without cycles, or never, and since then nothing but
    tidying passes has edited the circuit. Other calls have changed simulated values at most. -/
inductive CollectedAcyclic : List Operation → Prop where
  | never {ops : List Operation} (hclasses : (empty.after ops).classes = .empty)
    (hacyclic : (empty.after ops).Acyclic) : CollectedAcyclic ops
  | collected {ops : List Operation} {op : Operation} (hop : op.Collects)
    (hok : (op.perform (empty.after ops)).1 = .ok ())
    (hacyclic : (empty.after (ops ++ [op])).Acyclic) : CollectedAcyclic (ops ++ [op])
  | tidied {ops : List Operation} {op : Operation} (hop : op.Tidies)
    (hops : CollectedAcyclic ops) : CollectedAcyclic (ops ++ [op])
  | unedited {ops : List Operation} {op : Operation}
    (hsame : (empty.after ops).Simulated (empty.after (ops ++ [op])))
    (hops : CollectedAcyclic ops) : CollectedAcyclic (ops ++ [op])

/-- Then the groups fit an order of the circuit, and what they list is a gate if it is there. -/
theorem CollectedAcyclic.sound (h : CollectedAcyclic ops) :
    (empty.after ops).Sound ∧ (empty.after ops).ListsGates := by
  induction h with
  | @never ops hclasses hacyclic =>
    refine ⟨(wellFormed_after ops).sound_of_no_candidates hacyclic hclasses, ?_⟩
    rw [ListsGates, candidates_empty hclasses]
    exact nofun
  | @collected ops op hop hok hacyclic =>
    have hd := wellFormed_after (ops ++ [op])
    rw [after_concat] at hacyclic hd ⊢
    obtain ⟨order, hgrouped⟩ := (wellFormed_after ops).grouped_of_collects hop hok
    exact ⟨hgrouped.sound hd hacyclic, hgrouped.listsGates⟩
  | @tidied ops op hop _ ih =>
    rw [after_concat]
    have hpass : op.IsTruthfulPass ∧ ¬ op.IsConstruction ∧ ∀ v s i, op ≠ .merge v s i := by
      cases op <;> simp_all [Operation.Tidies, Operation.IsTruthfulPass, Operation.IsConstruction]
    obtain ⟨htruthful, hconstruction, hmerge⟩ := hpass
    exact ⟨(ih.1.perform htruthful).1,
      (lasting_listsGates.perform hconstruction hmerge ⟨ih.1.wellFormed, ih.2⟩).2⟩
  | unedited hsame _ ih =>
    exact ⟨((steady_sound _).simulated ⟨ih.1, Preserves.refl _⟩ hsame).1,
      (lasting_listsGates.simulated ⟨ih.1.wellFormed, ih.2⟩ hsame).2⟩

/-- Three gates in a row, all in one group because none was simulated. -/
def row : List Operation :=
  [.addInput 1, .addInput 2, .addGate 3 ⟨1, false⟩ ⟨2, false⟩, .addGate 4 ⟨3, false⟩ ⟨2, true⟩,
    .addGate 5 ⟨4, false⟩ ⟨1, false⟩, .addOutput ⟨5, false⟩, .classify]

end Circuit

end AndInverter
