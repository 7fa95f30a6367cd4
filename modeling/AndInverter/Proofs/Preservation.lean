import AndInverter.Proofs.Ordered
import AndInverter.Proofs.Passes

namespace AndInverter.Circuit

/-- The second circuit takes and gives what the first one does. It may have fewer nodes; those it
    has compute what they did. -/
structure Preserves (c d : Circuit) : Prop where
  inputs : d.inputs = c.inputs
  outputs : d.outputs = c.outputs
  isSome : ∀ {id}, (d.kind? id).isSome = true → (c.kind? id).isSome = true
  value : ∀ {id}, (d.kind? id).isSome = true → ∀ p, d.value p id = c.value p id

/-- What holds of a circuit that was built and then only simulated and reworked. -/
structure Sound (c : Circuit) : Prop where
  wellFormed : c.WellFormed
  ordered : ∃ rank, c.Ordered rank

variable {c d e : Circuit} {rank : NodeId → Nat}

theorem Sound.acyclic (h : c.Sound) : c.Acyclic := by
  obtain ⟨rank, hordered⟩ := h.ordered
  exact hordered.ranked.acyclic

namespace Preserves

theorem refl (c : Circuit) : c.Preserves c := ⟨rfl, rfl, fun h => h, fun _ _ => rfl⟩

theorem trans (hcd : c.Preserves d) (hde : d.Preserves e) : c.Preserves e :=
  ⟨hde.inputs.trans hcd.inputs, hde.outputs.trans hcd.outputs, fun h => hcd.isSome (hde.isSome h),
    fun h p => (hde.value h p).trans (hcd.value (hde.isSome h) p)⟩

end Preserves

theorem Rewired.preserves (h : Rewired rank c d) : c.Preserves d :=
  ⟨h.inputs, h.outputs, fun hid => h.isSome ▸ hid, fun _ p => congrFun (h.value p) _⟩

theorem SameShape.preserves (h : c.SameShape d) (hc : c.WellFormed) (hacyclic : c.Acyclic) :
    c.Preserves d :=
  ⟨h.inputs, h.outputs, fun {id} hid => h.kind? id ▸ hid,
    fun _ p => congrFun (h.value (p := p) hc hacyclic) _⟩

theorem isGateWith_ne_zero (hc : c.WellFormed) {signature : Signature} {id : NodeId}
    (h : c.isGateWith signature id = true) : id ≠ 0 :=
  (isGateWith_eq_true_iff.1 h).1.ne_zero hc.toIndexed

/-- Groups that are up to date fit the order of the walk. -/
theorem Grouped.sound {order : List NodeId} (h : c.Grouped order) (hc : c.WellFormed)
    (hacyclic : c.Acyclic) : c.Sound := by
  obtain ⟨rank, hrank, hzero, hpairwise⟩ := hc.exists_rank_of_liveOrder hacyclic h.isLiveOrder
  refine ⟨hc, rank, hrank, hzero, fun group hgroup => ?_⟩
  obtain ⟨signature, rfl⟩ := Classes.exists_eq_group hgroup
  rw [h.group]
  apply (hpairwise.filter _).imp_of_mem
  intro _ _ _ hlater hlt
  apply hlt
  exact isGateWith_ne_zero hc (List.mem_filter.1 hlater).2

theorem WellFormed.sound_of_classify (hc : c.WellFormed) (hacyclic : c.Acyclic)
    (h : c.classify = .ok d) : d.Sound ∧ c.Preserves d := by
  obtain ⟨hshape, _, order, hgrouped⟩ := hc.of_classify h
  have hsound := hgrouped.sound (hshape.wellFormed hc) (hshape.acyclic hacyclic)
  exact ⟨hsound, hshape.preserves hc hacyclic⟩

end AndInverter.Circuit
