import AndInverter.Proofs.Preservation

namespace AndInverter.Circuit

variable {c d : Circuit}

/-- The list of nodes that satisfy a test has them all, under their own ids. -/
theorem Indexed.mem_idsWhere (hc : c.Indexed) {p : Node → Bool} {id : NodeId} :
    id ∈ c.idsWhere p ↔ ∃ n, c.node? id = some n ∧ p n = true := by
  have hentry : ∀ {key n}, (key, n) ∈ c.nodes.toList ↔ c.node? key = some n := by
    intro key n
    exact Std.TreeMap.mem_toList_iff_getElem?_eq_some
  unfold idsWhere
  rw [List.mem_map]
  constructor
  · rintro ⟨⟨key, n⟩, hmem, rfl⟩
    obtain ⟨hmem, hp⟩ := List.mem_filter.1 hmem
    have hn := hentry.1 hmem
    exact ⟨n, (hc.own_id hn).symm ▸ hn, hp⟩
  · rintro ⟨n, hn, hp⟩
    exact ⟨(id, n), List.mem_filter.2 ⟨hentry.2 hn, hp⟩, hc.own_id hn⟩

theorem Indexed.sorted_idsWhere (hc : c.Indexed) (p : Node → Bool) :
    (c.idsWhere p).Pairwise (· < ·) := by
  unfold idsWhere
  rw [List.pairwise_map]
  refine (Std.TreeMap.ordered_keys_toList.filter _).imp_of_mem fun {a b} ha hb hlt => ?_
  have hown : ∀ {entry}, entry ∈ c.nodes.toList → entry.2.id = entry.1 := fun hentry =>
    hc.own_id (Std.TreeMap.mem_toList_iff_getElem?_eq_some.1 hentry)
  rw [hown (List.mem_filter.1 ha).1, hown (List.mem_filter.1 hb).1]
  exact Std.compare_eq_lt.1 hlt

/-- Dead are the gates and the nodes without a meaning that no output depends on. -/
theorem WellFormed.exists_dead (hc : c.WellFormed) :
    ∃ ids, c.dead = .ok ids ∧ ∀ id, id ∈ ids ↔ ¬ c.Live id ∧
      ∃ kind, c.kind? id = some kind ∧ (kind.isGate || kind.isUndefined) = true := by
  obtain ⟨order, horder, hlive⟩ := hc.exists_liveOrder
  refine ⟨_, except_bind_eq_ok_iff.2 ⟨order, horder, rfl⟩, fun id => ?_⟩
  rw [hc.mem_idsWhere]
  simp only [Bool.and_eq_true, Bool.not_eq_true', Std.TreeSet.contains_ofList]
  constructor
  · rintro ⟨n, hn, hkind, hdead⟩
    rw [hc.own_id hn] at hdead
    refine ⟨fun hlives => ?_, n.kind, kind?_of_node? hn, hkind⟩
    rw [← hlive.mem_iff, ← List.contains_iff_mem, hdead] at hlives
    cases hlives
  · rintro ⟨hdead, kind, hkind, hgate⟩
    obtain ⟨n, hn, rfl⟩ := kind?_eq_some_iff.1 hkind
    refine ⟨n, hn, hgate, ?_⟩
    rw [hc.own_id hn, Bool.eq_false_iff, ne_eq, List.contains_iff_mem, hlive.mem_iff]
    exact hdead

/-- Sweeping never fails: what a dead node feeds is dead as well. -/
theorem WellFormed.exists_sweep (hc : c.WellFormed) :
    ∃ ids d, Circuit.sweep c = .ok ids d ∧ c.remove ids = .ok d ∧ c.Without ids d ∧ d.WellFormed := by
  obtain ⟨ids, hdead, hmem⟩ := hc.exists_dead
  have hremove : c.remove ids = .ok (ids.foldl erase c) := by
    refine remove_eq_ok_iff.2 ⟨fun id hid => ?_, rfl⟩
    obtain ⟨hunused, kind, hkind, hgate⟩ := (hmem id).1 hid
    obtain ⟨n, hn, rfl⟩ := kind?_eq_some_iff.1 hkind
    refine checkRemovable_eq_ok_iff.2 ⟨n, hn, hgate, fun consumer hconsumer => ?_⟩
    have hfeeds : c.Feeds id consumer := hc.mirror.2 ⟨n, hn, hconsumer⟩
    refine (hmem consumer).2 ⟨fun hlives => hunused (hlives.of_feeds hfeeds), ?_⟩
    obtain ⟨reader, hreader, e, he, _⟩ := hfeeds
    refine ⟨reader, hreader, ?_⟩
    cases reader with
    | output fanin =>
      have hlives : c.Live consumer :=
        ⟨consumer, hc.mem_outputs.2 ⟨fanin, hreader⟩, Relation.ReflTransGen.refl⟩
      exact absurd (hlives.of_feeds ⟨_, hreader, e, he, ‹_›⟩) hunused
    | gate left right => rfl
    | _ => cases he
  obtain ⟨hwithout, hd⟩ := hc.of_remove hremove
  exact ⟨ids, _, sweep_eq_ok_iff.2 ⟨hdead, hremove⟩, hremove, hwithout, hd⟩

/-- Sweeping preserves what the circuit computes. The candidate groups may go on listing the nodes
    that are gone. -/
theorem Sound.sweep (hc : c.Sound) :
    ∃ ids d, Circuit.sweep c = .ok ids d ∧ d.Sound ∧ c.Preserves d := by
  obtain ⟨rank, hordered⟩ := hc.ordered
  obtain ⟨ids, d, hsweep, _, hwithout, hd⟩ := hc.wellFormed.exists_sweep
  have hrank := hordered.ranked.of_without hwithout
  refine ⟨ids, d, hsweep, ⟨hd, rank, hrank, hordered.zero_le, ?_⟩, hwithout.inputs,
    hwithout.outputs, ?_, ?_⟩
  · rw [hwithout.classes]
    exact hordered.groups
  · intro id hid
    rw [hwithout.kind?] at hid
    split at hid
    · cases hid
    · exact hid
  · exact fun hid p =>
      hwithout.value hc.wellFormed hd hordered.ranked.acyclic hrank.acyclic hid

end AndInverter.Circuit
