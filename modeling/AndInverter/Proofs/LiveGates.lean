import AndInverter.Proofs.Contraction
import AndInverter.Proofs.Ordered
import AndInverter.Proofs.Simulation

namespace AndInverter.Circuit

variable {c d e : Circuit} {merges : List (NodeId × NodeId)} {victims : List NodeId} {id : NodeId}

theorem LiveGate.exists_feeds (h : c.LiveGate id) (hc : c.WellFormed) :
    ∃ consumer, c.Feeds id consumer := by
  obtain ⟨⟨output, houtput, hreach⟩, kind, hkind, hgate⟩ := h
  rcases Relation.ReflTransGen.cases_head hreach with rfl | ⟨consumer, hfeeds, _⟩
  · obtain ⟨fanin, houtputKind⟩ := hc.mem_outputs.1 houtput
    obtain rfl := Option.some.inj (hkind.symm.trans houtputKind)
    cases hgate
  · exact ⟨consumer, hfeeds⟩

/-- In the end nothing reads a victim. -/
theorem Contracted.unread (h : c.Contracted merges d)
    (hfinal : ∀ merge ∈ merges, ∀ other ∈ merges, merge.2 ≠ other.1) {merge : NodeId × NodeId}
    (hmerge : merge ∈ merges) (consumer : NodeId) : ¬ d.Feeds merge.1 consumer := by
  intro hfeeds
  obtain ⟨old, _, heq⟩ := h.feeds.1 hfeeds
  exact standIn_ne_victim hfinal hmerge old heq

/-- The victims were different live gates and are live no more, and no other gate has become
    live. -/
structure Shrunk (c : Circuit) (victims : List NodeId) (d : Circuit) : Prop where
  nodup : victims.Nodup
  retired : ∀ id ∈ victims, c.LiveGate id ∧ ¬ d.Live id
  liveGate : ∀ {id}, d.LiveGate id → c.LiveGate id

/-- Merges of live gates into live nodes or the constant take the victims out of what is live, and
    bring nothing in, even when a merge revives a node that an earlier one had left unread. -/
theorem Contracted.shrunk (h : c.Contracted merges d) (hmerges : OneStep merges) (hc : c.WellFormed)
    (hd : d.WellFormed) (hvictims : ∀ merge ∈ merges, c.LiveGate merge.1)
    (hsurvivors : ∀ merge ∈ merges, merge.2 = 0 ∨ c.Live merge.2) :
    c.Shrunk (merges.map (·.1)) d where
  nodup := hmerges.nodup
  retired id hid := by
    obtain ⟨merge, hmerge, rfl⟩ := List.mem_map.1 hid
    refine ⟨hvictims merge hmerge, fun hlive => ?_⟩
    have hgate : d.LiveGate merge.1 := ⟨hlive, h.isGate_iff.2 (hvictims merge hmerge).2⟩
    obtain ⟨consumer, hfeeds⟩ := hgate.exists_feeds hd
    exact h.unread hmerges.final hmerge consumer hfeeds
  liveGate {id} hid := by
    have hgate := h.isGate_iff.1 hid.2
    have hlive : id = 0 ∨ c.Live id := by
      refine h.mem_of_live (S := fun id => id = 0 ∨ c.Live id)
        (fun output houtput => .inr ⟨output, houtput, .refl⟩) ?_ hsurvivors hid.1
      rintro source consumer hfeeds (rfl | hlive)
      · exact absurd hfeeds (hc.not_feeds_zero source)
      · exact .inr (hlive.of_feeds hfeeds)
    exact ⟨hlive.resolve_left (hgate.ne_zero hc.toIndexed), hgate⟩

theorem Shrunk.sameShape (h : c.Shrunk victims d) (he : d.SameShape e) : c.Shrunk victims e where
  nodup := h.nodup
  retired id hid := by
    rw [he.live]
    exact h.retired id hid
  liveGate hid := h.liveGate (he.liveGate.1 hid)

open Classical in
/-- All live gates. -/
noncomputable def liveGates (c : Circuit) : Finset NodeId := c.ids.toFinset.filter c.LiveGate

theorem WellFormed.mem_liveGates (hc : c.WellFormed) : id ∈ c.liveGates ↔ c.LiveGate id := by
  simp only [liveGates, Finset.mem_filter, List.mem_toFinset, mem_ids, and_iff_right_iff_imp]
  exact fun hid => hid.1.isSome hc

/-- There are fewer live gates than before, by at least the number of victims. -/
theorem Shrunk.card_add_length_le (h : c.Shrunk victims d) (hc : c.WellFormed) (hd : d.WellFormed) :
    d.liveGates.card + victims.length ≤ c.liveGates.card := by
  have hdisjoint : Disjoint d.liveGates victims.toFinset := by
    rw [Finset.disjoint_left]
    intro id hid hvictim
    exact (h.retired id (List.mem_toFinset.1 hvictim)).2 (hd.mem_liveGates.1 hid).1
  have hsubset : d.liveGates ∪ victims.toFinset ⊆ c.liveGates := by
    intro id hid
    rw [hc.mem_liveGates]
    rcases Finset.mem_union.1 hid with hid | hvictim
    · exact h.liveGate (hd.mem_liveGates.1 hid)
    · exact (h.retired id (List.mem_toFinset.1 hvictim)).1
  calc d.liveGates.card + victims.length
      = (d.liveGates ∪ victims.toFinset).card := by
        rw [Finset.card_union_of_disjoint hdisjoint, List.toFinset_card_of_nodup h.nodup]
    _ ≤ c.liveGates.card := Finset.card_le_card hsubset

end AndInverter.Circuit
