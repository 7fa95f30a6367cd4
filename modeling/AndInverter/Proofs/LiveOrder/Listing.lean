import AndInverter.Proofs.LiveCone
import AndInverter.Proofs.Session

open Relation

namespace AndInverter.Circuit

/-- Each node in the list comes after all its fanins. -/
def FaninsFirst (c : Circuit) (order : List NodeId) : Prop :=
  ∀ before id after, order = before ++ id :: after → ∀ source, c.Feeds source id → source ∈ before

variable {c : Circuit} {order : List NodeId}

/-- One more node at the end has to have its fanins among the others. -/
theorem faninsFirst_concat {id : NodeId} :
    c.FaninsFirst (order ++ [id]) ↔
      (∀ source, c.Feeds source id → source ∈ order) ∧ c.FaninsFirst order := by
  constructor
  · intro h
    refine ⟨h order id [] rfl, fun before other after horder => h before other (after ++ [id]) ?_⟩
    rw [horder, List.append_assoc, List.cons_append]
  · rintro ⟨hid, horder⟩ before other after hsplit
    -- Either the node is the last one, or the list is split before it.
    rcases List.eq_nil_or_concat after with rfl | ⟨after, final, rfl⟩
    · obtain ⟨rfl, hlast⟩ := List.append_inj' hsplit rfl
      obtain rfl := List.singleton_inj.1 hlast
      exact hid
    · rw [List.concat_eq_append, ← List.cons_append, ← List.append_assoc] at hsplit
      exact horder before other after (List.append_inj' hsplit rfl).1

theorem faninsFirst_iff_topological : c.FaninsFirst order ↔ c.Topological order.reverse := by
  induction order using List.reverseRecOn with
  | nil => exact iff_of_true (fun before id after h => by simp at h) trivial
  | append_singleton order id ih =>
    rw [faninsFirst_concat, ih, List.reverse_concat]
    simp only [Topological, List.mem_reverse]

/-- If all listed nodes come after their fanins, none of them depends on itself. -/
theorem IsLiveOrder.liveAcyclic (h : c.IsLiveOrder order)
    (htopological : c.Topological order.reverse) : c.LiveAcyclic := by
  intro id hlive
  apply htopological.not_cyclic (List.nodup_reverse.2 h.nodup)
  rw [List.mem_reverse]
  exact h.mem_iff.2 hlive

/-- Cycles among dead nodes do no harm: sweeping takes them away and leaves the list as it is. -/
theorem WellFormed.topological_of_liveAcyclic (hc : c.WellFormed) (horder : c.liveOrder = .ok order)
    (hacyclic : c.LiveAcyclic) : c.Topological order.reverse := by
  obtain ⟨_, d, _, hswept⟩ := hc.exists_swept
  have hd := hswept.wellFormed.isLiveOrder (hswept.liveOrder hc horder)
  have htopological := hd.topological ((hswept.acyclic_iff hc).2 hacyclic)
  refine htopological.of_feeds fun id hid source hfeeds => ?_
  have hlive := (hc.isLiveOrder horder).mem_iff.1 (List.mem_reverse.1 hid)
  exact (hswept.feeds_iff hc).2 ⟨hfeeds, hlive⟩

/-- In any session: listing the live nodes succeeds. The list has the nodes that the outputs depend
    on, the outputs included, each once, and has them after their fanins if and only if none of them
    depends on itself. -/
theorem liveOrder_lists (ops : List Operation) :
    ∃ order, (empty.after ops).liveOrder = .ok order ∧ order.Nodup ∧
      (∀ id, id ∈ order ↔
        ∃ output ∈ (empty.after ops).outputs, ReflTransGen (empty.after ops).Feeds id output) ∧
      ((empty.after ops).FaninsFirst order ↔ (empty.after ops).LiveAcyclic) := by
  have hc := wellFormed_after ops
  obtain ⟨order, horder, hlive⟩ := hc.exists_liveOrder
  refine ⟨order, horder, hlive.nodup, fun _ => hlive.mem_iff, ?_⟩
  rw [faninsFirst_iff_topological]
  exact ⟨hlive.liveAcyclic, hc.topological_of_liveAcyclic horder⟩

end AndInverter.Circuit
