import AndInverter.Proofs.Classes
import AndInverter.Proofs.Value

namespace AndInverter.Circuit

variable {c d e : Circuit} {rank : NodeId → Nat}

/-- The numbers ascend along edges and along the candidate groups, and none is below that of the
    constant. As long as there are such numbers, no pass closes a cycle. -/
structure Ordered (c : Circuit) (rank : NodeId → Nat) : Prop where
  ranked : c.Ranked rank
  zero_le : ∀ id, rank 0 ≤ rank id
  groups : ∀ group ∈ c.classes.candidates, group.Pairwise fun first other => rank first < rank other

theorem Ranked.of_redirected {victim : NodeId} {replacement : Edge} (h : c.Ranked rank)
    (hd : c.Redirected victim replacement d) (hle : rank replacement.node ≤ rank victim) :
    d.Ranked rank := by
  intro source consumer hfeeds
  obtain ⟨old, hold, rfl⟩ := hd.feeds_iff.1 hfeeds
  have hlt := h _ _ hold
  split
  · next heq => exact (heq ▸ hle).trans_lt hlt
  · exact hlt

/-- A redirection does not show in a node that does not read the victim. -/
theorem Redirected.kind?_of_not_feeds {victim id : NodeId} {replacement : Edge}
    (h : c.Redirected victim replacement d) (hid : ¬ c.Feeds victim id) :
    d.kind? id = c.kind? id := by
  rw [h.kind?]
  cases hkind : c.kind? id with
  | none => rfl
  | some kind =>
    refine congrArg some (Kind.retarget_eq_self fun e he hvictim => ?_)
    exact hid ⟨kind, hkind, e, he, hvictim⟩

/-- In a list with producers first, a redirection shows in later nodes only. -/
theorem Redirected.kind?_of_sorted {victim : NodeId} {replacement : Edge} {seen rest : List NodeId}
    (h : c.Redirected victim replacement d) (hrank : c.Ranked rank)
    (hsorted : (seen ++ victim :: rest).Pairwise fun earlier later =>
      later ≠ 0 → rank earlier < rank later) (hzero : victim ≠ 0) :
    ∀ id ∈ seen ++ [victim], d.kind? id = c.kind? id := by
  intro id hid
  refine h.kind?_of_not_feeds fun hfeeds => ?_
  have hlt := hrank _ _ hfeeds
  rcases List.mem_append.1 hid with hid | hid
  · have hbefore := (List.pairwise_append.1 hsorted).2.2 id hid victim List.mem_cons_self hzero
    exact Nat.lt_asymm hlt hbefore
  · rw [List.mem_singleton.1 hid] at hlt
    exact Nat.lt_irrefl _ hlt

theorem Ranked.of_without {gone : List NodeId} (h : c.Ranked rank) (hd : c.Without gone d) :
    d.Ranked rank :=
  fun source consumer hfeeds => h source consumer (hd.feeds.1 hfeeds).1

/-- What a pass may do to a circuit on the way: edges move down along the numbers, to signals of
    the same value. -/
structure Rewired (rank : NodeId → Nat) (c d : Circuit) : Prop where
  wellFormed : d.WellFormed
  ranked : d.Ranked rank
  inputs : d.inputs = c.inputs
  outputs : d.outputs = c.outputs
  classes : d.classes = c.classes
  isOutput : ∀ id, (d.kind? id).map (·.isOutput) = (c.kind? id).map (·.isOutput)
  value : ∀ p, d.value p = c.value p

namespace Rewired

theorem refl (hc : c.WellFormed) (hrank : c.Ranked rank) : Rewired rank c c :=
  ⟨hc, hrank, rfl, rfl, rfl, fun _ => rfl, fun _ => rfl⟩

theorem trans (hcd : Rewired rank c d) (hde : Rewired rank d e) : Rewired rank c e :=
  ⟨hde.wellFormed, hde.ranked, hde.inputs.trans hcd.inputs, hde.outputs.trans hcd.outputs,
    hde.classes.trans hcd.classes, fun id => (hde.isOutput id).trans (hcd.isOutput id),
    fun p => (hde.value p).trans (hcd.value p)⟩

/-- The node is there and may be read. -/
theorem readable (h : Rewired rank c d) {id : NodeId}
    (hid : ∃ kind, c.kind? id = some kind ∧ kind.isOutput = false) :
    ∃ kind, d.kind? id = some kind ∧ kind.isOutput = false := by
  obtain ⟨kind, hkind, houtput⟩ := hid
  have hmap := h.isOutput id
  rw [hkind] at hmap
  obtain ⟨kind', hkind', heq⟩ := Option.map_eq_some_iff.1 hmap
  exact ⟨kind', hkind', heq.trans houtput⟩

theorem isSome (h : Rewired rank c d) {id : NodeId} :
    (d.kind? id).isSome = (c.kind? id).isSome := by
  have hmap := congrArg Option.isSome (h.isOutput id)
  simpa using hmap

theorem ordered (h : Rewired rank c d) (hc : c.Ordered rank) : d.Ordered rank :=
  ⟨h.ranked, hc.zero_le, h.classes ▸ hc.groups⟩

end Rewired

/-- A redirection down along the numbers succeeds. -/
theorem WellFormed.redirect_down (hc : c.WellFormed) (hrank : c.Ranked rank) {victim : NodeId}
    {replacement : Edge} (hne : victim ≠ replacement.node)
    (hle : rank replacement.node ≤ rank victim)
    (hreplacement : ∃ kind, c.kind? replacement.node = some kind ∧ kind.isOutput = false)
    (hvictim : (c.kind? victim).isSome = true) :
    ∃ d, c.redirect victim replacement = .ok d ∧ c.Redirected victim replacement d ∧
      d.WellFormed ∧ d.Ranked rank := by
  have hdirect : ¬ c.Feeds victim replacement.node := by
    intro hfeeds
    have hlt := hrank _ _ hfeeds
    omega
  obtain ⟨d, hredirect, hredirected, hd⟩ := hc.redirect hne hreplacement hvictim hdirect
  exact ⟨d, hredirect, hredirected, hd, hrank.of_redirected hredirected hle⟩

/-- A redirection down along the numbers, to a signal of the same value, changes no value. -/
theorem WellFormed.rewire (hc : c.WellFormed) (hrank : c.Ranked rank) {victim : NodeId}
    {replacement : Edge} (hne : victim ≠ replacement.node)
    (hle : rank replacement.node ≤ rank victim)
    (hreplacement : ∃ kind, c.kind? replacement.node = some kind ∧ kind.isOutput = false)
    (hvictim : (c.kind? victim).isSome = true)
    (hvalue : ∀ p, c.value p victim = replacement.signal (c.value p)) :
    ∃ d, c.redirect victim replacement = .ok d ∧ Rewired rank c d := by
  obtain ⟨d, hredirect, hredirected, hd, hdrank⟩ := hc.redirect_down hrank hne hle hreplacement hvictim
  refine ⟨d, hredirect, hd, hdrank, hredirected.inputs, hredirected.outputs, hredirected.classes,
    fun id => ?_, fun p => ?_⟩
  · rw [hredirected.kind?, Option.map_map]
    congr 1
    funext kind
    exact Kind.isOutput_retarget victim replacement kind
  · exact hredirected.value hc hd hrank.acyclic hdrank.acyclic (hvalue p)

theorem WellFormed.not_feeds_zero (hc : c.WellFormed) (source : NodeId) : ¬ c.Feeds source 0 := by
  intro hfeeds
  obtain ⟨kind, hkind, e, he, _⟩ := hfeeds
  obtain rfl := Option.some.inj (hkind.symm.trans (hc.constant_iff.2 rfl))
  cases he

/-- The order of the walk gives numbers for all nodes: first the constant, then the live nodes in
    this order, then the others by the number of nodes they depend on. -/
theorem WellFormed.exists_rank_of_liveOrder (hc : c.WellFormed) (hacyclic : c.Acyclic)
    {order : List NodeId} (hlive : c.IsLiveOrder order) :
    ∃ rank, c.Ranked rank ∧ (∀ id, rank 0 ≤ rank id) ∧
      order.Pairwise fun earlier later => later ≠ 0 → rank earlier < rank later := by
  obtain ⟨position, hbound, hpairwise, hposition⟩ :=
    (hlive.topological hacyclic).exists_rank (List.nodup_reverse.2 hlive.nodup)
  obtain ⟨height, hheight, _⟩ := hc.exists_ranked hacyclic
  simp only [List.mem_reverse, List.length_reverse, List.pairwise_reverse] at hbound hpairwise hposition
  refine ⟨fun id => if id = 0 then 0 else if id ∈ order then position id + 1
    else order.length + 1 + height id, ?_, ?_, ?_⟩
  · intro source consumer hfeeds
    have hconsumer : consumer ≠ 0 := by
      rintro rfl
      exact hc.not_feeds_zero source hfeeds
    simp only [hconsumer, if_false]
    have hclosed : consumer ∈ order → source ∈ order := by
      simp only [hlive.mem_iff]
      rintro ⟨output, houtput, hreach⟩
      exact ⟨output, houtput, Relation.ReflTransGen.head hfeeds hreach⟩
    by_cases hmem : consumer ∈ order
    · have hlt := hposition source consumer hmem hfeeds
      simp only [hmem, hclosed hmem, if_true]
      split <;> omega
    · have hlt := hheight _ _ hfeeds
      simp only [hmem, if_false]
      split
      · omega
      · split
        · next hsource =>
          have hsmall := hbound source hsource
          omega
        · omega
  · intro id
    simp
  · apply hpairwise.imp_of_mem
    intro earlier later hearlier hlater hlt hne
    simp only [hne, hearlier, hlater, if_true, if_false]
    split <;> omega

end AndInverter.Circuit
