import AndInverter.Proofs.Audit
import AndInverter.Proofs.LiveGates
import AndInverter.Proofs.Preservation.Sharing
import AndInverter.Proofs.Session
import AndInverter.Proofs.Sharing

namespace AndInverter.Circuit

/-- Structural congruence is the least relation that relates a node that is no gate to itself, and
    two gates when their fanins are related and pass the same inverters, in one of the two
    orders. -/
inductive Congruent (c : Circuit) : NodeId → NodeId → Prop where
  | leaf {id : NodeId} (hid : ¬ c.IsGate id) : c.Congruent id id
  | straight {a b : NodeId} {left right left' right' : Edge}
    (ha : c.kind? a = some (.gate left right)) (hb : c.kind? b = some (.gate left' right'))
    (hleft : c.Congruent left.node left'.node) (hinvertedLeft : left.inverted = left'.inverted)
    (hright : c.Congruent right.node right'.node) (hinvertedRight : right.inverted = right'.inverted) :
    c.Congruent a b
  | crossed {a b : NodeId} {left right left' right' : Edge}
    (ha : c.kind? a = some (.gate left right)) (hb : c.kind? b = some (.gate left' right'))
    (hleft : c.Congruent left.node right'.node) (hinvertedLeft : left.inverted = right'.inverted)
    (hright : c.Congruent right.node left'.node) (hinvertedRight : right.inverted = left'.inverted) :
    c.Congruent a b

variable {c d : Circuit} {rank : NodeId → Nat} {order : List NodeId} {id a b : NodeId}
  {merges : List (NodeId × NodeId)} {pair : FaninPair}

theorem relabel_eq_relabel_iff {label : NodeId → NodeId} {e e' : Edge} :
    e.relabel label = e'.relabel label ↔
      label e.node = label e'.node ∧ e.inverted = e'.inverted := by
  simp [Edge.relabel]

theorem IsGate.exists_gate (h : c.IsGate id) :
    ∃ left right, c.kind? id = some (.gate left right) := by
  obtain ⟨kind, hkind, hgate⟩ := h
  cases kind with
  | gate left right => exact ⟨left, right, hkind⟩
  | _ => cases hgate

/-- What a gate reads in the end is what stands in for its fanins. -/
theorem Merged.pair?_eq (h : c.Merged merges d) {left right : Edge}
    (hkind : c.kind? id = some (.gate left right)) :
    d.pair? id =
      some (.ofFanins (left.relabel (standIn merges)) (right.relabel (standIn merges))) := by
  apply pair?_of_gate
  rw [h.kind?, hkind]
  rfl

namespace SharedBy

theorem isGate_victim (h : c.SharedBy [] order merges d) {merge : NodeId × NodeId}
    (hmerge : merge ∈ merges) : c.IsGate merge.1 := by
  obtain ⟨_, _, pair, hpair, _⟩ := h.mem_iff.1 hmerge
  exact h.merged.contracted.isGate_iff.1 (isGate_of_pair? hpair)

/-- The survivors read what their victims read, so no gate before them does, and they stay. -/
theorem oneStep (h : c.SharedBy [] order merges d) (hnodup : order.Nodup) : OneStep merges where
  nodup := hnodup.sublist h.victims
  final := by
    rintro ⟨victim, survivor⟩ hmerge ⟨_, next⟩ hother rfl
    obtain ⟨_, _, pair, _, hfind⟩ := h.mem_iff.1 hmerge
    obtain ⟨_, hne, pair', hpair', hnext⟩ := h.mem_iff.1 hother
    obtain rfl := Option.some.inj ((pair?_of_firstWith hfind).2.symm.trans hpair')
    exact hne (Option.some.inj (hfind.symm.trans hnext))

/-- The first gate that reads the same stands in for a gate. -/
theorem firstWith_eq (h : c.SharedBy [] order merges d) (hnodup : order.Nodup) (hid : id ∈ order)
    (hpair : d.pair? id = some pair) : d.firstWith order pair = some (standIn merges id) := by
  have hsome : (d.firstWith order pair).isSome = true :=
    List.find?_isSome.2 ⟨id, hid, by simpa using hpair⟩
  obtain ⟨first, hfind⟩ := Option.isSome_iff_exists.1 hsome
  rw [hfind]
  by_cases heq : id = first
  · subst heq
    refine congrArg some (standIn_eq_self ?_).symm
    rintro ⟨_, survivor⟩ hmerge rfl
    obtain ⟨_, hne, pair', hpair', hfind'⟩ := h.mem_iff.1 hmerge
    obtain rfl := Option.some.inj (hpair.symm.trans hpair')
    exact hne (Option.some.inj (hfind.symm.trans hfind'))
  · have hmerge := h.mem_iff.2 ⟨hid, heq, pair, hpair, hfind⟩
    rw [(h.oneStep hnodup).standIn_eq hmerge]

theorem standIn_of_leaf (h : c.SharedBy [] order merges d) (hid : ¬ c.IsGate id) :
    standIn merges id = id := by
  apply standIn_eq_self
  rintro merge hmerge rfl
  exact hid (h.isGate_victim hmerge)

theorem isGate_of_standIn_eq (h : c.SharedBy [] order merges d) (hnodup : order.Nodup)
    (ha : a ∈ order) (hgate : c.IsGate a) (heq : standIn merges a = standIn merges b) :
    c.IsGate b := by
  by_contra hleaf
  obtain ⟨left, right, hkind⟩ := hgate.exists_gate
  have hfind := h.firstWith_eq hnodup ha (h.merged.pair?_eq hkind)
  rw [heq, h.standIn_of_leaf hleaf] at hfind
  exact hleaf (h.merged.contracted.isGate_iff.1 (isGate_of_pair? (pair?_of_firstWith hfind).2))

/-- Two gates have the same stand-in if and only if they read the same in the end. -/
theorem standIn_eq_iff_pair? (h : c.SharedBy [] order merges d) (hnodup : order.Nodup)
    (ha : a ∈ order) (hb : b ∈ order) (hgate : c.IsGate a) (hgate' : c.IsGate b) :
    standIn merges a = standIn merges b ↔ d.pair? a = d.pair? b := by
  obtain ⟨_, _, hkind⟩ := hgate.exists_gate
  obtain ⟨_, _, hkind'⟩ := hgate'.exists_gate
  have hpair := h.merged.pair?_eq hkind
  have hpair' := h.merged.pair?_eq hkind'
  have hfind := h.firstWith_eq hnodup ha hpair
  have hfind' := h.firstWith_eq hnodup hb hpair'
  constructor
  · intro heq
    rw [hpair, ← (pair?_of_firstWith hfind).2, heq, (pair?_of_firstWith hfind').2, hpair']
  · intro heq
    rw [hpair, hpair', Option.some.injEq] at heq
    rw [heq, hfind'] at hfind
    exact (Option.some.inj hfind).symm

theorem standIn_eq_iff_fanins (h : c.SharedBy [] order merges d) (hnodup : order.Nodup)
    (ha : a ∈ order) (hb : b ∈ order) {left right left' right' : Edge}
    (hkind : c.kind? a = some (.gate left right)) (hkind' : c.kind? b = some (.gate left' right')) :
    standIn merges a = standIn merges b ↔
      (standIn merges left.node = standIn merges left'.node ∧ left.inverted = left'.inverted) ∧
          standIn merges right.node = standIn merges right'.node ∧ right.inverted = right'.inverted ∨
        (standIn merges left.node = standIn merges right'.node ∧ left.inverted = right'.inverted) ∧
          standIn merges right.node = standIn merges left'.node ∧ right.inverted = left'.inverted := by
  rw [h.standIn_eq_iff_pair? hnodup ha hb ⟨_, hkind, rfl⟩ ⟨_, hkind', rfl⟩, h.merged.pair?_eq hkind,
    h.merged.pair?_eq hkind', Option.some.injEq, FaninPair.ofFanins_eq_iff]
  simp only [relabel_eq_relabel_iff]

/-- Nodes of which nothing but nodes of the list is read have the same stand-in if and only if they
    are congruent. -/
theorem standIn_eq_iff_congruent (h : c.SharedBy [] order merges d) (hnodup : order.Nodup)
    (hrank : c.Ranked rank)
    (hclosed : ∀ {source consumer}, c.Feeds source consumer → consumer ∈ order → source ∈ order)
    (ha : a ∈ order) (hb : b ∈ order) :
    standIn merges a = standIn merges b ↔ c.Congruent a b := by
  constructor
  · -- By induction on the first node: gates with the same stand-in read the same.
    intro heq
    induction hn : rank a using Nat.strong_induction_on generalizing a b with
    | _ n ih =>
      subst hn
      by_cases hgate : c.IsGate a
      · have hgate' := h.isGate_of_standIn_eq hnodup ha hgate heq
        obtain ⟨left, right, hkind⟩ := hgate.exists_gate
        obtain ⟨left', right', hkind'⟩ := hgate'.exists_gate
        obtain ⟨hleft, hright⟩ := feeds_of_gate hkind
        obtain ⟨hleft', hright'⟩ := feeds_of_gate hkind'
        have hfanin : ∀ {source source'}, c.Feeds source a → c.Feeds source' b →
            standIn merges source = standIn merges source' → c.Congruent source source' :=
          fun hs hs' heq => ih _ (hrank _ _ hs) (hclosed hs ha) (hclosed hs' hb) heq rfl
        obtain ⟨⟨hl, hil⟩, hr, hir⟩ | ⟨⟨hl, hil⟩, hr, hir⟩ :=
          (h.standIn_eq_iff_fanins hnodup ha hb hkind hkind').1 heq
        · exact .straight hkind hkind' (hfanin hleft hleft' hl) hil (hfanin hright hright' hr) hir
        · exact .crossed hkind hkind' (hfanin hleft hright' hl) hil (hfanin hright hleft' hr) hir
      · have hgate' : ¬ c.IsGate b := fun hgate' =>
          hgate (h.isGate_of_standIn_eq hnodup hb hgate' heq.symm)
        rw [h.standIn_of_leaf hgate, h.standIn_of_leaf hgate'] at heq
        exact heq ▸ .leaf hgate
  · intro hcongruent
    induction hcongruent with
    | leaf => rfl
    | straight hkind hkind' _ hil _ hir ihleft ihright =>
      obtain ⟨hleft, hright⟩ := feeds_of_gate hkind
      obtain ⟨hleft', hright'⟩ := feeds_of_gate hkind'
      have hl := ihleft (hclosed hleft ha) (hclosed hleft' hb)
      have hr := ihright (hclosed hright ha) (hclosed hright' hb)
      exact (h.standIn_eq_iff_fanins hnodup ha hb hkind hkind').2 (.inl ⟨⟨hl, hil⟩, hr, hir⟩)
    | crossed hkind hkind' _ hil _ hir ihleft ihright =>
      obtain ⟨hleft, hright⟩ := feeds_of_gate hkind
      obtain ⟨hleft', hright'⟩ := feeds_of_gate hkind'
      have hl := ihleft (hclosed hleft ha) (hclosed hright' hb)
      have hr := ihright (hclosed hright ha) (hclosed hleft' hb)
      exact (h.standIn_eq_iff_fanins hnodup ha hb hkind hkind').2 (.inr ⟨⟨hl, hil⟩, hr, hir⟩)

/-- The victims are live no more, and no other gate has become live. -/
theorem shrunk (h : c.SharedBy [] order merges d) (hc : c.WellFormed)
    (horder : c.IsLiveOrder order) : c.Shrunk (merges.map (·.1)) d := by
  refine h.merged.contracted.shrunk (h.oneStep horder.nodup) hc h.wellFormed ?_ ?_
  · intro merge hmerge
    exact ⟨horder.mem_iff.1 (h.mem_iff.1 hmerge).1, h.isGate_victim hmerge⟩
  · intro merge hmerge
    obtain ⟨_, _, pair, _, hfind⟩ := h.mem_iff.1 hmerge
    exact .inr (horder.mem_iff.1 (pair?_of_firstWith hfind).1)

/-- No two live gates are left that read the same. -/
theorem eq_of_pair?_eq (h : c.SharedBy [] order merges d) (hc : c.WellFormed)
    (horder : c.IsLiveOrder order) (ha : d.LiveGate a) (hb : d.LiveGate b)
    (hsame : d.pair? a = d.pair? b) : a = b := by
  have hshrunk := h.shrunk hc horder
  have hself : ∀ {id}, d.LiveGate id → standIn merges id = id := by
    intro id hid
    apply standIn_eq_self
    rintro merge hmerge rfl
    exact (hshrunk.retired merge.1 (List.mem_map_of_mem hmerge)).2 hid.1
  obtain ⟨hliveA, hgateA⟩ := hshrunk.liveGate ha
  obtain ⟨hliveB, hgateB⟩ := hshrunk.liveGate hb
  have heq := (h.standIn_eq_iff_pair? horder.nodup (horder.mem_iff.2 hliveA)
    (horder.mem_iff.2 hliveB) hgateA hgateB).2 hsame
  rwa [hself ha, hself hb] at heq

end SharedBy

theorem edge_eq {e e' : Edge} (hnode : e.node = e'.node) (hinverted : e.inverted = e'.inverted) :
    e = e' := by
  cases e
  cases e'
  simp_all

/-- If live gates that read the same are one, so are live nodes that are congruent. -/
theorem Congruent.eq (hdistinct : ∀ {a b}, c.LiveGate a → c.LiveGate b → c.pair? a = c.pair? b → a = b)
    (h : c.Congruent a b) (ha : c.Live a) (hb : c.Live b) : a = b := by
  have hfanin : ∀ {id left right}, c.Live id → c.kind? id = some (.gate left right) →
      c.Live left.node ∧ c.Live right.node := fun hid hkind =>
    ⟨hid.of_feeds (feeds_of_gate hkind).1, hid.of_feeds (feeds_of_gate hkind).2⟩
  induction h with
  | leaf => rfl
  | straight hkind hkind' _ hil _ hir ihleft ihright =>
    obtain ⟨hleft, hright⟩ := hfanin ha hkind
    obtain ⟨hleft', hright'⟩ := hfanin hb hkind'
    refine hdistinct ⟨ha, _, hkind, rfl⟩ ⟨hb, _, hkind', rfl⟩ ?_
    rw [pair?_of_gate hkind, pair?_of_gate hkind', Option.some.injEq, FaninPair.ofFanins_eq_iff]
    exact .inl ⟨edge_eq (ihleft hleft hleft') hil, edge_eq (ihright hright hright') hir⟩
  | crossed hkind hkind' _ hil _ hir ihleft ihright =>
    obtain ⟨hleft, hright⟩ := hfanin ha hkind
    obtain ⟨hleft', hright'⟩ := hfanin hb hkind'
    refine hdistinct ⟨ha, _, hkind, rfl⟩ ⟨hb, _, hkind', rfl⟩ ?_
    rw [pair?_of_gate hkind, pair?_of_gate hkind', Option.some.injEq, FaninPair.ofFanins_eq_iff]
    exact .inr ⟨edge_eq (ihleft hleft hright') hil, edge_eq (ihright hright hleft') hir⟩

/-- In the order of the walk, the second node is the first gate that is congruent to the first
    node. -/
def IsFirstCongruent (c : Circuit) (order : List NodeId) (id first : NodeId) : Prop :=
  c.IsGate first ∧ c.Congruent id first ∧ ∃ earlier later, order = earlier ++ first :: later ∧
    ∀ other ∈ earlier, ¬ c.Congruent id other

/-- The gate that another one is merged into is the first one that is congruent to it. -/
theorem SharedBy.isFirstCongruent (h : c.SharedBy [] order merges d) (hnodup : order.Nodup)
    (hrank : c.Ranked rank)
    (hclosed : ∀ {source consumer}, c.Feeds source consumer → consumer ∈ order → source ∈ order)
    {victim survivor : NodeId} (hmerge : (victim, survivor) ∈ merges) :
    c.IsFirstCongruent order victim survivor := by
  obtain ⟨hvictim, _, pair, hpair, hfind⟩ := h.mem_iff.1 hmerge
  obtain ⟨hsurvivor, hsurvivorPair⟩ := pair?_of_firstWith hfind
  have hgate : ∀ {id}, d.pair? id = some pair → c.IsGate id := fun hid =>
    h.merged.contracted.isGate_iff.1 (isGate_of_pair? hid)
  have hcongruent : ∀ {id}, id ∈ order → c.IsGate id →
      (d.pair? id = some pair ↔ c.Congruent victim id) := by
    intro id hid hidGate
    rw [← h.standIn_eq_iff_congruent hnodup hrank hclosed hvictim hid,
      h.standIn_eq_iff_pair? hnodup hvictim hid (hgate hpair) hidGate, hpair, eq_comm]
  obtain ⟨_, earlier, later, hsplit, hnone⟩ := List.find?_eq_some_iff_append.1 hfind
  rw [List.nil_append] at hsplit
  refine ⟨hgate hsurvivorPair, (hcongruent hsurvivor (hgate hsurvivorPair)).1 hsurvivorPair,
    earlier, later, hsplit, fun other hother hcongruentOther => ?_⟩
  have hmem : other ∈ order := hsplit ▸ List.mem_append_left _ hother
  have hsame := (h.standIn_eq_iff_congruent hnodup hrank hclosed hvictim hmem).2 hcongruentOther
  have hotherGate := h.isGate_of_standIn_eq hnodup hvictim (hgate hpair) hsame
  simpa [(hcongruent hmem hotherGate).2 hcongruentOther] using hnone other hother

/-- Grouping the gates again gives the same groups. -/
theorem classify_of_classify (h : c.classify = .ok d) : d.classify = .ok d := by
  obtain ⟨classes, hclasses, hd⟩ := except_bind_eq_ok_iff.1 h
  obtain rfl := Except.ok.inj hd
  refine except_bind_eq_ok_iff.2 ⟨classes, ?_, rfl⟩
  rw [← hclasses, liveClasses, liveClasses, liveOrder_classes]
  rfl

/-- Structural hashing succeeds as long as there is no cycle, and leaves the groups up to date. -/
theorem WellFormed.exists_share (hc : c.WellFormed) (hacyclic : c.Acyclic) :
    ∃ merges d order, Circuit.share c = .ok merges d ∧ c.liveOrder = .ok order ∧
      c.IsLiveOrder order ∧ c.SharedBy [] order merges d ∧ d.Acyclic ∧ d.classify = .ok d := by
  obtain ⟨merges, d, hshare, hsound, _⟩ := hc.share hacyclic
  obtain ⟨order, e, horder, hmerges, hclassify⟩ := share_eq_ok_iff.1 hshare
  have hlive := hc.isLiveOrder horder
  obtain ⟨rank, hrank, _, hsorted⟩ := hc.exists_rank_of_liveOrder hacyclic hlive
  have hshared : c.SharedBy [] order merges e :=
    hc.sharedBy hrank hlive.nodup hsorted (by simp [firstWith]) hmerges
  obtain ⟨hshape, _⟩ := hshared.wellFormed.of_classify hclassify
  exact ⟨merges, d, order, hshare, horder, hlive, hshared.sameShape hshape,
    hsound.acyclic, classify_of_classify hclassify⟩

/-- Where live gates that read the same are one, structural hashing changes nothing. -/
theorem WellFormed.share_eq_nil (hc : c.WellFormed) (hacyclic : c.Acyclic)
    (hdistinct : ∀ {a b}, c.LiveGate a → c.LiveGate b → c.pair? a = c.pair? b → a = b)
    (hclassify : c.classify = .ok c) : Circuit.share c = .ok [] c := by
  obtain ⟨merges, d, order, hshare, horder, hlive, hshared, _⟩ := hc.exists_share hacyclic
  obtain ⟨rank, hrank, _⟩ := hc.exists_ranked hacyclic
  have hnone : merges = [] := by
    refine List.eq_nil_iff_forall_not_mem.2 fun ⟨victim, survivor⟩ hmerge => ?_
    obtain ⟨hvictim, hne, pair, _, hfind⟩ := hshared.mem_iff.1 hmerge
    obtain ⟨_, hcongruent, _⟩ := hshared.isFirstCongruent hlive.nodup hrank hlive.mem_of_feeds hmerge
    exact hne (hcongruent.eq hdistinct (hlive.mem_iff.1 hvictim)
      (hlive.mem_iff.1 (pair?_of_firstWith hfind).1))
  subst hnone
  obtain ⟨_, e, _, hmerges, hgrouped⟩ := share_eq_ok_iff.1 hshare
  obtain rfl := eq_of_mergeShared_nil hmerges
  obtain rfl := Except.ok.inj (hclassify.symm.trans hgrouped)
  exact hshare

/-- Structural hashing of a circuit without cycles computes congruence: it succeeds, two live gates
    come out as one if and only if they are congruent, and the first gate of each class stays. No
    victim is read afterwards, no two live gates have the same fanins in whatever order, and doing
    it again does nothing. -/
theorem share_exact (ops : List Operation) (hacyclic : (empty.after ops).Acyclic) :
    ∃ merges d order, share (empty.after ops) = .ok merges d ∧
      (empty.after ops).liveOrder = .ok order ∧
      (∀ a b, (empty.after ops).LiveGate a → (empty.after ops).LiveGate b →
        (standIn merges a = standIn merges b ↔ (empty.after ops).Congruent a b)) ∧
      (∀ victim survivor, (victim, survivor) ∈ merges →
        (empty.after ops).IsFirstCongruent order victim survivor ∧
        (∀ other ∈ merges, other.1 ≠ survivor) ∧ ∀ consumer, ¬ d.Lists victim consumer) ∧
      (∀ a b left right left' right', d.Live a → d.Live b →
        d.kind? a = some (.gate left right) → d.kind? b = some (.gate left' right') →
        left = left' ∧ right = right' ∨ left = right' ∧ right = left' → a = b) ∧
      share d = .ok [] d := by
  have hc := wellFormed_empty.after ops
  obtain ⟨merges, d, order, hshare, horder, hlive, hshared, hdacyclic, hclassify⟩ :=
    hc.exists_share hacyclic
  obtain ⟨rank, hrank, _⟩ := hc.exists_ranked hacyclic
  have hdistinct : ∀ {a b}, d.LiveGate a → d.LiveGate b → d.pair? a = d.pair? b → a = b :=
    hshared.eq_of_pair?_eq hc hlive
  refine ⟨merges, d, order, hshare, horder, ?_, ?_, ?_,
    hshared.wellFormed.share_eq_nil hdacyclic hdistinct hclassify⟩
  · intro a b ha hb
    exact hshared.standIn_eq_iff_congruent hlive.nodup hrank hlive.mem_of_feeds
      (hlive.mem_iff.2 ha.1) (hlive.mem_iff.2 hb.1)
  · intro victim survivor hmerge
    have honeStep := hshared.oneStep hlive.nodup
    refine ⟨hshared.isFirstCongruent hlive.nodup hrank hlive.mem_of_feeds hmerge,
      fun other hother heq => honeStep.final _ hmerge other hother heq.symm, fun consumer => ?_⟩
    rw [← hshared.wellFormed.mirror]
    exact hshared.merged.contracted.unread honeStep.final hmerge consumer
  · intro a b left right left' right' ha hb hkind hkind' hsame
    refine hdistinct ⟨ha, _, hkind, rfl⟩ ⟨hb, _, hkind', rfl⟩ ?_
    rw [pair?_of_gate hkind, pair?_of_gate hkind', FaninPair.ofFanins_eq_iff.2 hsame]

/-- Two gates with the same fanins, which two more gates read. -/
def cascade : List Operation :=
  [.addInput 1, .addInput 2, .addGate 3 ⟨1, false⟩ ⟨2, true⟩, .addGate 4 ⟨2, true⟩ ⟨1, false⟩,
    .addGate 5 ⟨3, true⟩ ⟨1, false⟩, .addGate 6 ⟨1, false⟩ ⟨4, true⟩, .addOutput ⟨5, false⟩,
    .addOutput ⟨6, false⟩]

/-- The second merge is owed to the first one. -/
theorem share_exact_cascade :
    (empty.after cascade).Acyclic ∧
      ∃ d, share (empty.after cascade) = .ok [(4, 3), (6, 5)] d ∧
        (empty.after cascade).Congruent 6 5 ∧ (∀ consumer, ¬ d.Lists 6 consumer) ∧
        share d = .ok [] d := by
  have hlist : (match share (empty.after cascade) with
      | .ok merges _ => merges
      | .error _ _ => []) = [(4, 3), (6, 5)] := by decide +kernel
  have haudit : (empty.after cascade).audit = .ok () := by decide +kernel
  have hacyclic := (wellFormed_empty.after cascade).audit_eq_ok_iff.1 haudit
  obtain ⟨merges, d, _, hshare, _, _, hmerges, _, hagain⟩ := share_exact cascade hacyclic
  rw [hshare] at hlist
  dsimp only at hlist
  subst hlist
  obtain ⟨⟨_, hcongruent, _⟩, _, hunread⟩ := hmerges 6 5 (by decide)
  exact ⟨hacyclic, d, hshare, hcongruent, hunread, hagain⟩

end AndInverter.Circuit
