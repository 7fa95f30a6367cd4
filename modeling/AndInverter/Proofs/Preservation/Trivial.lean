import AndInverter.Proofs.Preservation

namespace AndInverter

namespace Kind

/-- What a gate comes down to is low or one of its fanins. -/
theorem conjoin?_cases {left right e : Edge} (h : conjoin? left right = some e) :
    e = .low ∨ e = left ∨ e = right := by
  unfold conjoin? at h
  repeat' split at h
  all_goals simp_all

/-- Only gates come down to an edge, which is low or one that they have. -/
theorem trivial?_cases {kind : Kind} {e : Edge} (h : kind.trivial? = some e) :
    kind.isGate = true ∧ (e = .low ∨ e ∈ kind.fanins) := by
  cases kind with
  | gate left right =>
    refine ⟨rfl, ?_⟩
    rcases conjoin?_cases h with hlow | hleft | hright
    · exact .inl hlow
    · exact .inr (hleft ▸ List.mem_cons_self)
    · exact .inr (hright ▸ List.mem_cons_of_mem _ List.mem_cons_self)
  | _ => cases h

/-- What a gate comes down to has the value of the gate. -/
theorem signal_of_conjoin? {left right e : Edge} (h : conjoin? left right = some e)
    {read : NodeId → Bool} (hlow : read 0 = false) :
    e.signal read = (left.signal read && right.signal read) := by
  have hconstant : ∀ edge : Edge, edge.node = 0 → edge.signal read = edge.inverted := by
    intro edge hedge
    rw [Edge.signal, hedge, hlow, Bool.false_xor]
  have hlowSignal : Edge.low.signal read = false := hconstant Edge.low rfl
  unfold conjoin? at h
  split at h
  · next hcase =>
    obtain rfl := Option.some.inj h
    rw [hlowSignal]
    rcases hcase with ⟨hnode, hplain⟩ | ⟨hnode, hplain⟩
    · rw [hconstant left hnode, hplain, Bool.false_and]
    · rw [hconstant right hnode, hplain, Bool.and_false]
  · split at h
    · next hcase =>
      obtain rfl := Option.some.inj h
      rw [hconstant left hcase.1, hcase.2, Bool.true_and]
    · split at h
      · next hcase =>
        obtain rfl := Option.some.inj h
        rw [hconstant right hcase.1, hcase.2, Bool.and_true]
      · split at h
        · next hcase =>
          obtain rfl := Option.some.inj h
          rw [hcase, Bool.and_self]
        · split at h
          · next hcase =>
            obtain rfl := Option.some.inj h
            rw [hlowSignal, Edge.signal, Edge.signal, hcase.1]
            have hflip := hcase.2
            revert hflip
            cases left.inverted <;> cases right.inverted <;> cases read right.node <;> simp
          · cases h

end Kind

namespace Circuit

variable {c d : Circuit} {rank : NodeId → Nat}

theorem WellFormed.value_zero (hc : c.WellFormed) (hacyclic : c.Acyclic) (p : Stimulus) :
    c.value p 0 = false := by
  rw [hc.value_eq hacyclic (hc.constant_iff.2 rfl)]
  rfl

/-- A trivial gate may be replaced. -/
theorem WellFormed.replace (hc : c.WellFormed) (hrank : c.Ranked rank)
    (hzero : ∀ id, rank 0 ≤ rank id) {id : NodeId} {kind : Kind} {e : Edge}
    (hkind : c.kind? id = some kind) (htrivial : kind.trivial? = some e) :
    ∃ d, c.redirect id e = .ok d ∧ Rewired rank c d := by
  obtain ⟨left, right, rfl⟩ : ∃ left right, kind = .gate left right := by
    cases kind <;> simp [Kind.trivial?] at htrivial ⊢
  have hnonzero : id ≠ 0 := by
    rintro rfl
    cases hkind.symm.trans (hc.constant_iff.2 rfl)
  have hfanin : ∀ fanin ∈ (Kind.gate left right).fanins, rank fanin.node < rank id ∧
      ∃ source, c.kind? fanin.node = some source ∧ source.isOutput = false :=
    fun fanin hmem => ⟨hrank _ _ ⟨_, hkind, fanin, hmem, rfl⟩, hc.fanin hkind fanin hmem⟩
  have hvalue : ∀ p, c.value p id = e.signal (c.value p) := by
    intro p
    rw [hc.value_eq hrank.acyclic hkind,
      Kind.signal_of_conjoin? htrivial (hc.value_zero hrank.acyclic p)]
    rfl
  rcases (Kind.trivial?_cases htrivial).2 with rfl | hmem
  · exact hc.rewire hrank hnonzero (hzero id) ⟨.constant, hc.constant_iff.2 rfl, rfl⟩
      (by simp [hkind]) hvalue
  · obtain ⟨hlt, hreadable⟩ := hfanin e hmem
    refine hc.rewire hrank ?_ hlt.le hreadable (by simp [hkind]) hvalue
    intro heq
    rw [← heq] at hlt
    exact Nat.lt_irrefl _ hlt

/-- Replacing the trivial ones among any nodes never fails. -/
theorem WellFormed.replaceTrivial {ids : List NodeId} (hc : c.WellFormed) (hrank : c.Ranked rank)
    (hzero : ∀ id, rank 0 ≤ rank id) (hpresent : ∀ id ∈ ids, (c.kind? id).isSome = true) :
    ∃ replaced d, Circuit.replaceTrivial ids c = .ok replaced d ∧ Rewired rank c d := by
  induction ids generalizing c with
  | nil => exact ⟨[], c, rfl, Rewired.refl hc hrank⟩
  | cons id rest ih =>
    obtain ⟨kind, hkind⟩ := Option.isSome_iff_exists.1 (hpresent id List.mem_cons_self)
    obtain ⟨n, hn, rfl⟩ := kind?_eq_some_iff.1 hkind
    have hrest : ∀ other ∈ rest, (c.kind? other).isSome = true :=
      fun other hother => hpresent other (List.mem_cons_of_mem id hother)
    have hask : Pass.ask (·.node id) c = .ok n c := Pass.ask_of_ok (node_eq_ok_iff.2 hn)
    rw [Circuit.replaceTrivial, estateM_bind_of_ok hask]
    cases htrivial : n.kind.trivial? with
    | none => exact ih hc hrank hrest
    | some e =>
      obtain ⟨d, hredirect, hd⟩ := hc.replace hrank hzero hkind htrivial
      obtain ⟨replaced, f, hreplaced, hf⟩ :=
        ih hd.wellFormed hd.ranked fun other hother => hd.isSome ▸ hrest other hother
      have hstep : Pass.step (·.redirect id e) c = .ok () d := Pass.step_of_ok hredirect
      refine ⟨(id, e) :: replaced, f, ?_, hd.trans hf⟩
      dsimp only
      rw [estateM_bind_of_ok hstep, estateM_bind_of_ok hreplaced]
      rfl

/-- The trivial gates are replaced without a failure, and without a change of what the circuit
    computes. -/
theorem WellFormed.simplify (hc : c.WellFormed) (hrank : c.Ranked rank)
    (hzero : ∀ id, rank 0 ≤ rank id) :
    ∃ replaced d, Circuit.simplify c = .ok replaced d ∧ Rewired rank c d := by
  obtain ⟨order, horder, hlive⟩ := hc.exists_liveOrder
  obtain ⟨replaced, d, hreplaced, hd⟩ := hc.replaceTrivial hrank hzero (hlive.isSome hc)
  exact ⟨replaced, d, simplify_eq_ok_iff.2 ⟨order, horder, hreplaced⟩, hd⟩

/-- The candidate groups stay, and still fit. -/
theorem Sound.simplify (hc : c.Sound) :
    ∃ replaced d, Circuit.simplify c = .ok replaced d ∧ d.Sound ∧ c.Preserves d := by
  obtain ⟨rank, hordered⟩ := hc.ordered
  obtain ⟨replaced, d, hsimplify, hd⟩ := hc.wellFormed.simplify hordered.ranked hordered.zero_le
  exact ⟨replaced, d, hsimplify, ⟨hd.wellFormed, rank, hd.ordered hordered⟩, hd.preserves⟩

end Circuit

end AndInverter
