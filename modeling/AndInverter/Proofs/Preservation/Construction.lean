import AndInverter.Proofs.Audit
import AndInverter.Proofs.Preservation
import AndInverter.Proofs.Session

namespace AndInverter.Circuit

variable {c d : Circuit} {rank : NodeId → Nat} {n : Node}

theorem le_sumOver {id : NodeId} {ids : List NodeId} (hid : id ∈ ids) :
    rank id ≤ sumOver rank ids := by
  induction ids with
  | nil => cases hid
  | cons other ids ih =>
    rw [sumOver]
    rcases List.mem_cons.1 hid with rfl | hid
    · exact Nat.le_add_right _ _
    · exact (ih hid).trans (Nat.le_add_left _ _)

/-- Numbers a new node above its fanins. -/
def rankWith (rank : NodeId → Nat) (n : Node) (id : NodeId) : Nat :=
  if id = n.id then rank 0 + sumOver rank (n.fanins.map (·.node)) + 1 else rank id

theorem rankWith_of_ne {id : NodeId} (h : id ≠ n.id) : rankWith rank n id = rank id := if_neg h

/-- Nothing reads a new node yet. -/
theorem Ranked.attach (hrank : c.Ranked rank) (hc : c.WellFormed) (hattach : c.attach n = .ok d)
    (hfanins : ∀ e ∈ n.fanins, (c.kind? e.node).isSome = true) : d.Ranked (rankWith rank n) := by
  have hexists : ∀ {id}, (c.kind? id).isSome = true → id ≠ n.id := by
    rintro id hid rfl
    rw [kind?_eq_none_iff.2 (attach_eq_ok_iff.1 hattach).2.1] at hid
    cases hid
  intro source consumer hfeeds
  rcases (feeds_of_attach hattach _ _).1 hfeeds with ⟨rfl, e, he, rfl⟩ | ⟨hne, hold⟩
  · have hle : rank e.node ≤ sumOver rank (n.fanins.map (·.node)) :=
      le_sumOver (List.mem_map_of_mem he)
    rw [rankWith_of_ne (hexists (hfanins e he)), rankWith, if_pos rfl]
    omega
  · rw [rankWith_of_ne hne, rankWith_of_ne (hexists (hc.isSome_of_feeds hold))]
    exact hrank source consumer hold

/-- A new node comes after its fanins. If it has any, no candidate group may name it, for the group
    might place it before them. -/
theorem Ordered.attach (ho : c.Ordered rank) (hc : c.WellFormed) (hattach : c.attach n = .ok d)
    (hfanins : ∀ e ∈ n.fanins, (c.kind? e.node).isSome = true)
    (hgroups : n.fanins = [] ∨ ∀ group ∈ c.classes.candidates, n.id ∉ group) :
    ∃ rank', d.Ordered rank' := by
  have hclasses := classes_of_attach hattach
  rcases hgroups with hnone | hgroups
  · refine ⟨rank, fun source consumer h => ?_, ho.zero_le, hclasses ▸ ho.groups⟩
    rcases (feeds_of_attach hattach _ _).1 h with ⟨_, e, he, _⟩ | ⟨_, hold⟩
    · rw [hnone] at he
      cases he
    · exact ho.ranked source consumer hold
  · have hzero := (attach_eq_ok_iff.1 hattach).1
    refine ⟨rankWith rank n, ho.ranked.attach hc hattach hfanins, fun id => ?_,
      fun group hgroup => ?_⟩
    · rw [rankWith_of_ne hzero.symm, rankWith]
      split
      · omega
      · exact ho.zero_le id
    · rw [hclasses] at hgroup
      apply (ho.groups group hgroup).imp_of_mem
      intro first other hfirst hother hlt
      have hne : ∀ id ∈ group, id ≠ n.id := by
        rintro id hid rfl
        exact hgroups group hgroup hid
      rwa [rankWith_of_ne (hne first hfirst), rankWith_of_ne (hne other hother)]

/-- Without cycles there are numbers that ascend along the edges and are least at the constant. -/
theorem WellFormed.exists_rank (hc : c.WellFormed) (hacyclic : c.Acyclic) :
    ∃ rank, c.Ranked rank ∧ ∀ id, rank 0 ≤ rank id := by
  obtain ⟨rank, hrank, _⟩ := hc.exists_ranked hacyclic
  refine ⟨fun id => if id = 0 then 0 else rank id + 1, fun source consumer hfeeds => ?_,
    fun id => by simp⟩
  have hne : consumer ≠ 0 := by
    rintro rfl
    exact hc.not_feeds_zero source hfeeds
  have hlt := hrank source consumer hfeeds
  simp only [hne, if_false]
  split <;> omega

theorem WellFormed.sound_of_no_candidates (hc : c.WellFormed) (hacyclic : c.Acyclic)
    (hclasses : c.classes = .empty) : c.Sound := by
  obtain ⟨rank, hrank, hzero⟩ := hc.exists_rank hacyclic
  refine ⟨hc, rank, hrank, hzero, fun group hgroup => ?_⟩
  obtain ⟨signature, rfl⟩ := Classes.exists_eq_group hgroup
  rw [hclasses, Classes.group_empty]
  exact List.Pairwise.nil

theorem acyclic_empty : empty.Acyclic := by
  intro id hcycle
  obtain ⟨_, hfeeds, _⟩ := Relation.TransGen.head'_iff.1 hcycle
  exact not_feeds_empty _ _ hfeeds

/-- A circuit that was only built has no cycle and no candidates. -/
structure Built (c : Circuit) : Prop where
  wellFormed : c.WellFormed
  acyclic : c.Acyclic
  classes : c.classes = .empty

theorem Built.perform (hc : c.Built) {op : Operation} (hop : op.IsConstruction) :
    (op.perform c).2.Built := by
  refine Operation.construction_induction hop hc.wellFormed hc (fun d hd haudit hclasses => ?_)
    fun n d hattach hd hfanins _ => ?_
  · exact ⟨hd, hd.audit_eq_ok_iff.1 haudit, hclasses⟩
  · obtain ⟨rank, hrank, _⟩ := hc.wellFormed.exists_ranked hc.acyclic
    have hranked := hrank.attach hc.wellFormed hattach fun e he => by
      obtain ⟨source, hsource, _⟩ := hfanins e he
      simp [hsource]
    exact ⟨hd, hranked.acyclic, (classes_of_attach hattach).trans hc.classes⟩

theorem Built.after {ops : List Operation} (hc : c.Built) (hops : ∀ op ∈ ops, op.IsConstruction) :
    (c.after ops).Built := by
  induction ops generalizing c with
  | nil => exact hc
  | cons op ops ih =>
    exact ih (hc.perform (hops op List.mem_cons_self)) fun other hother =>
      hops other (List.mem_cons_of_mem op hother)

end AndInverter.Circuit
