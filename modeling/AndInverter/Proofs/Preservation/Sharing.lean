import AndInverter.Proofs.Preservation

namespace AndInverter

namespace FaninPair

/-- The order of the fanins makes no difference to their conjunction. -/
theorem signal_ofFanins (read : NodeId → Bool) (left right : Edge) :
    ((ofFanins left right).first.signal read && (ofFanins left right).second.signal read) =
      (left.signal read && right.signal read) := by
  unfold ofFanins
  split
  · exact Bool.and_comm _ _
  · rfl

end FaninPair

namespace Circuit

variable {c d : Circuit} {rank : NodeId → Nat}

/-- A known gate is the conjunction of its pair, and comes before the nodes that are left. -/
structure KnownGate (c : Circuit) (rank : NodeId → Nat) (rest : List NodeId) (pair : FaninPair)
    (survivor : NodeId) : Prop where
  readable : ∃ kind, c.kind? survivor = some kind ∧ kind.isOutput = false
  lt : ∀ id ∈ rest, id ≠ 0 → rank survivor < rank id
  value : ∀ p, c.value p survivor = (pair.first.signal (c.value p) && pair.second.signal (c.value p))

theorem KnownGate.rewired {rest : List NodeId} {pair : FaninPair} {survivor id : NodeId}
    (h : c.KnownGate rank (id :: rest) pair survivor) (hd : Rewired rank c d) :
    d.KnownGate rank rest pair survivor where
  readable := hd.readable h.readable
  lt other hother := h.lt other (List.mem_cons_of_mem id hother)
  value p := by
    rw [hd.value]
    exact h.value p

/-- A gate with the fanins of a known gate may be merged into it. -/
theorem KnownGate.merge {id survivor : NodeId} {rest : List NodeId} {left right : Edge}
    (h : c.KnownGate rank (id :: rest) (.ofFanins left right) survivor) (hc : c.WellFormed)
    (hrank : c.Ranked rank) (hkind : c.kind? id = some (.gate left right)) :
    ∃ d, c.merge id survivor false = .ok d ∧ Rewired rank c d := by
  have hzero : id ≠ 0 := hc.ne_zero hkind nofun
  have hbefore := h.lt id List.mem_cons_self hzero
  have hne : id ≠ survivor := by
    rintro rfl
    exact Nat.lt_irrefl _ hbefore
  have hsame : ∀ p, c.value p id = Edge.signal (c.value p) ⟨survivor, false⟩ := by
    intro p
    rw [Edge.signal_plain, h.value p, hc.value_eq hrank.acyclic hkind, FaninPair.signal_ofFanins]
    rfl
  exact hc.rewire hrank hne hbefore.le h.readable (by simp [hkind]) hsame

/-- By its own fanins a gate is known to the nodes after it. -/
theorem knownGate_self {id : NodeId} {rest : List NodeId} {left right : Edge} (hc : c.WellFormed)
    (hacyclic : c.Acyclic) (hkind : c.kind? id = some (.gate left right))
    (hlt : ∀ other ∈ rest, other ≠ 0 → rank id < rank other) :
    c.KnownGate rank rest (.ofFanins left right) id where
  readable := ⟨_, hkind, rfl⟩
  lt := hlt
  value p := by
    rw [hc.value_eq hacyclic hkind, FaninPair.signal_ofFanins]
    rfl

/-- With a new gate entered, everything known comes before the nodes that are left. -/
theorem KnownGate.insert {id : NodeId} {rest : List NodeId} {pair : FaninPair}
    {known : Std.TreeMap FaninPair NodeId} (hc : c.WellFormed) (hrank : c.Ranked rank)
    (hknown : ∀ other survivor, known[other]? = some survivor →
      c.KnownGate rank (id :: rest) other survivor)
    (hself : c.KnownGate rank rest pair id) (other : FaninPair) (survivor : NodeId)
    (h : (known.insert pair id)[other]? = some survivor) :
    c.KnownGate rank rest other survivor := by
  rw [Std.TreeMap.getElem?_insert] at h
  split at h
  · next heq =>
    obtain rfl := Std.compare_eq_iff_eq.1 heq
    obtain rfl := Option.some.inj h
    exact hself
  · exact (hknown other survivor h).rewired (Rewired.refl hc hrank)

/-- Structural hashing of a list of nodes, producers first, never fails. -/
theorem WellFormed.mergeShared {ids : List NodeId} {known : Std.TreeMap FaninPair NodeId}
    (hc : c.WellFormed) (hrank : c.Ranked rank)
    (hids : ids.Pairwise fun earlier later => later ≠ 0 → rank earlier < rank later)
    (hpresent : ∀ id ∈ ids, (c.kind? id).isSome = true)
    (hknown : ∀ pair survivor, known[pair]? = some survivor → c.KnownGate rank ids pair survivor) :
    ∃ merges d, Circuit.mergeShared known ids c = .ok merges d ∧ Rewired rank c d := by
  induction ids generalizing known c with
  | nil => exact ⟨[], c, rfl, Rewired.refl hc hrank⟩
  | cons id rest ih =>
    obtain ⟨hlt, hrest⟩ := List.pairwise_cons.1 hids
    obtain ⟨kind, hkind⟩ := Option.isSome_iff_exists.1 (hpresent id List.mem_cons_self)
    obtain ⟨n, hn, rfl⟩ := kind?_eq_some_iff.1 hkind
    have hrestPresent : ∀ other ∈ rest, (c.kind? other).isSome = true :=
      fun other hother => hpresent other (List.mem_cons_of_mem id hother)
    have hask : Pass.ask (·.node id) c = .ok n c := Pass.ask_of_ok (node_eq_ok_iff.2 hn)
    rw [Circuit.mergeShared, estateM_bind_of_ok hask]
    cases hgate : n.kind with
    | gate left right =>
      rw [hgate] at hkind
      dsimp only
      cases hfound : known[FaninPair.ofFanins left right]? with
      | some survivor =>
        obtain ⟨d, hmerge, hd⟩ := (hknown _ survivor hfound).merge hc hrank hkind
        obtain ⟨merges, e, hmerges, he⟩ : ∃ merges e,
            Circuit.mergeShared known rest d = .ok merges e ∧ Rewired rank d e :=
          ih hd.wellFormed hd.ranked hrest
            (fun other hother => hd.isSome ▸ hrestPresent other hother)
            fun pair other hother => (hknown pair other hother).rewired hd
        have hstep : Pass.step (·.merge id survivor false) c = .ok () d := Pass.step_of_ok hmerge
        refine ⟨(id, survivor) :: merges, e, ?_, hd.trans he⟩
        dsimp only
        rw [estateM_bind_of_ok hstep, estateM_bind_of_ok hmerges]
        rfl
      | none =>
        have hself := knownGate_self hc hrank.acyclic hkind hlt
        exact ih hc hrank hrest hrestPresent (KnownGate.insert hc hrank hknown hself)
    | _ =>
      exact ih hc hrank hrest hrestPresent fun pair survivor hsurvivor =>
        (hknown pair survivor hsurvivor).rewired (Rewired.refl hc hrank)

/-- Structural hashing succeeds and preserves what the circuit computes. -/
theorem WellFormed.share (hc : c.WellFormed) (hacyclic : c.Acyclic) :
    ∃ merges d, Circuit.share c = .ok merges d ∧ d.Sound ∧ c.Preserves d := by
  obtain ⟨order, horder, hlive⟩ := hc.exists_liveOrder
  obtain ⟨rank, hrank, _, hpairwise⟩ := hc.exists_rank_of_liveOrder hacyclic hlive
  obtain ⟨merges, d, hmerges, hd⟩ : ∃ merges d,
      Circuit.mergeShared ∅ order c = .ok merges d ∧ Rewired rank c d :=
    hc.mergeShared hrank hpairwise
      (hlive.isSome hc) (by simp)
  obtain ⟨classes, _, hclassify, _⟩ := hd.wellFormed.exists_classify
  obtain ⟨hsound, hpreserves⟩ := hd.wellFormed.sound_of_classify hd.ranked.acyclic hclassify
  exact ⟨merges, _, share_eq_ok_iff.2 ⟨order, d, horder, hmerges, hclassify⟩, hsound,
    hd.preserves.trans hpreserves⟩

end Circuit

end AndInverter
