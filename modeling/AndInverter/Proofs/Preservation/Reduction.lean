import AndInverter.Proofs.Contraction
import AndInverter.Proofs.Preservation

open AndInverter.Sat

namespace AndInverter.Circuit

variable {c d : Circuit} {rank : NodeId → Nat}

/-- A planned merge is of encoded nodes that compute the same, down along the numbers. -/
theorem Ordered.of_mem_plannedMerges (hc : c.Ordered rank) {victim survivor : NodeId}
    (hmem : (victim, survivor) ∈ c.plannedMerges) :
    c.Encoded victim ∧ c.Encoded survivor ∧ c.SameFunction survivor victim ∧
      rank survivor < rank victim := by
  obtain ⟨group, hgroup, hmem⟩ := List.mem_flatMap.1 hmem
  obtain ⟨listed, hlisted, rfl⟩ := List.mem_map.1 hgroup
  have hascends := (hc.groups listed hlisted).filter c.isEncoded
  have hnodup : (listed.filter c.isEncoded).Nodup := by
    apply hascends.imp
    rintro first _ hlt rfl
    exact Nat.lt_irrefl _ hlt
  obtain ⟨hvictim, hne, hfind⟩ := (mem_groupMerges_iff le_rfl hnodup).1 hmem
  obtain ⟨hsame, earlier, later, hsplit, hfirst⟩ := List.find?_eq_some_iff_append.1 hfind
  have hsurvivor := List.mem_of_find?_eq_some hfind
  have hlater : victim ∈ later := by
    rw [hsplit] at hvictim
    rcases List.mem_append.1 hvictim with hearlier | hrest
    · have hdifferent := hfirst victim hearlier
      rw [c.same_self] at hdifferent
      cases hdifferent
    · exact (List.mem_cons.1 hrest).resolve_left hne
  rw [hsplit, List.pairwise_append, List.pairwise_cons] at hascends
  rw [same_comm] at hsame
  exact ⟨isEncoded_eq_true_iff.1 (List.mem_filter.1 hvictim).2,
    isEncoded_eq_true_iff.1 (List.mem_filter.1 hsurvivor).2, same_eq_true_iff.1 hsame,
    hascends.2.1.1 victim hlater⟩

/-- Merges of nodes that compute the same, down along the numbers, all succeed. -/
theorem WellFormed.mergeAll {merges : List (NodeId × NodeId)} (hc : c.WellFormed)
    (hrank : c.Ranked rank)
    (hmerges : ∀ victim survivor, (victim, survivor) ∈ merges → rank survivor < rank victim ∧
      (c.kind? victim).isSome = true ∧
      (∃ kind, c.kind? survivor = some kind ∧ kind.isOutput = false) ∧
      c.SameFunction survivor victim) :
    ∃ d, Circuit.mergeAll merges c = .ok () d ∧ Rewired rank c d := by
  induction merges generalizing c with
  | nil => exact ⟨c, rfl, Rewired.refl hc hrank⟩
  | cons merge merges ih =>
    obtain ⟨victim, survivor⟩ := merge
    obtain ⟨hlt, hvictim, hsurvivor, hsame⟩ := hmerges victim survivor List.mem_cons_self
    have hne : victim ≠ survivor := by
      rintro rfl
      exact Nat.lt_irrefl _ hlt
    have hvalue : ∀ p, c.value p victim = Edge.signal (c.value p) ⟨survivor, false⟩ := by
      intro p
      rw [Edge.signal_plain, hsame p]
    obtain ⟨d, hmerge, hd⟩ : ∃ d, c.merge victim survivor false = .ok d ∧ Rewired rank c d :=
      hc.rewire hrank hne hlt.le hsurvivor hvictim hvalue
    obtain ⟨e, hrest, he⟩ := ih hd.wellFormed hd.ranked fun v s hmem => by
      obtain ⟨hlt, hv, hs, hsame⟩ := hmerges v s (List.mem_cons_of_mem _ hmem)
      refine ⟨hlt, hd.isSome ▸ hv, hd.readable hs, fun p => ?_⟩
      rw [hd.value]
      exact hsame p
    refine ⟨e, ?_, hd.trans he⟩
    have hstep : Pass.step (·.merge victim survivor false) c = .ok () d := Pass.step_of_ok hmerge
    unfold Circuit.mergeAll at hrest ⊢
    rw [List.forM, estateM_bind_of_ok hstep, hrest]

variable {σ : Type} {oracle : Oracle σ} {start : σ}

/-- Reduction with a truthful oracle: all planned merges succeed. -/
theorem Sound.exists_reduceWith (hc : c.Sound) (htruthful : oracle.Truthful start) :
    ∃ d e report s, Circuit.mergeAll c.plannedMerges c = .ok () d ∧
      c.reduceWith oracle start = (.ok report, e, s) ∧ report.merges = c.plannedMerges ∧
      c.Preserves d ∧ e.Sound ∧ d.SameShape e := by
  obtain ⟨rank, hordered⟩ := hc.ordered
  obtain ⟨d, hmerges, hd⟩ := hc.wellFormed.mergeAll hordered.ranked fun victim survivor hmem => by
    obtain ⟨⟨_, kind, hkind, _⟩, ⟨_, hsurvivor⟩, hsame, hlt⟩ := hordered.of_mem_plannedMerges hmem
    exact ⟨hlt, by simp [hkind], hsurvivor, hsame⟩
  have hreduce := hc.wellFormed.reduceWith_eq hc.acyclic htruthful
  rw [hmerges] at hreduce
  obtain ⟨e, report, s, hclassify, hreduce, hreport⟩ := hreduce
  obtain ⟨hshape, _⟩ := hd.wellFormed.of_classify hclassify
  obtain ⟨hsound, _⟩ := hd.wellFormed.sound_of_classify hd.ranked.acyclic hclassify
  exact ⟨d, e, report, s, hmerges, hreduce, hreport, hd.preserves, hsound, hshape⟩

/-- Reduction with a truthful oracle succeeds and preserves what the circuit computes. -/
theorem Sound.reduceWith (hc : c.Sound) (htruthful : oracle.Truthful start) :
    ∃ report d s, c.reduceWith oracle start = (.ok report, d, s) ∧ d.Sound ∧ c.Preserves d := by
  obtain ⟨d, e, report, s, _, hreduce, _, hpreserves, hsound, hshape⟩ :=
    hc.exists_reduceWith htruthful
  refine ⟨report, e, s, hreduce, hsound, hpreserves.trans ?_⟩
  have hd := hshape.symm.wellFormed hsound.wellFormed
  exact hshape.preserves hd (hshape.symm.acyclic hsound.acyclic)

end AndInverter.Circuit
