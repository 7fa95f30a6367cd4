import AndInverter.Proofs.Audit
import AndInverter.Proofs.LiveGates
import AndInverter.Proofs.Preservation.Reduction
import AndInverter.Proofs.Session
import AndInverter.Proofs.Simulation

open AndInverter.Sat

namespace AndInverter.Circuit

variable {c d : Circuit} {order : List NodeId} {id victim survivor : NodeId}

theorem LiveGate.encoded (h : c.LiveGate id) : c.Encoded id := by
  obtain ⟨hlive, kind, hkind, hgate⟩ := h
  exact ⟨hlive, kind, hkind, Kind.isOutput_eq_false (by simp [hgate])⟩

open Classical in
/-- Whether a node is a gate that computes the same as a given node. -/
noncomputable def isEqualGate (c : Circuit) (id other : NodeId) : Bool :=
  decide (c.IsGate other ∧ c.SameFunction id other)

theorem isEqualGate_eq_true_iff {other : NodeId} :
    c.isEqualGate id other = true ↔ c.IsGate other ∧ c.SameFunction id other := by
  simp [isEqualGate]

/-- Among the candidates for a live gate are all live gates that compute the same, in order. -/
theorem Grouped.filter_group (hgrouped : c.Grouped order) (haligned : c.Aligned)
    (hid : c.LiveGate id) {signature : Signature} (hsignature : c.signature? id = some signature) :
    ((c.classes.group signature).filter c.isEncoded).filter (c.same id) =
      order.filter (c.isEqualGate id) := by
  rw [hgrouped.group, List.filter_filter, List.filter_filter]
  apply List.filter_congr
  intro other hother
  have hlive := hgrouped.isLiveOrder.mem_iff.1 hother
  rw [Bool.eq_iff_iff, Bool.and_eq_true, Bool.and_eq_true, same_eq_true_iff, isEncoded_eq_true_iff,
    isGateWith_eq_true_iff, isEqualGate_eq_true_iff]
  constructor
  · rintro ⟨⟨hsame, _⟩, hgate, _⟩
    exact ⟨hgate, hsame⟩
  · rintro ⟨hgate, hsame⟩
    have halike := haligned id other hid ⟨hlive, hgate⟩ hsame
    exact ⟨⟨hsame, LiveGate.encoded ⟨hlive, hgate⟩⟩, hgate, halike.symm.trans hsignature⟩

theorem isEqualGate_congr {other : NodeId} (h : c.SameFunction id other) :
    c.isEqualGate id = c.isEqualGate other := by
  funext gate
  rw [Bool.eq_iff_iff, isEqualGate_eq_true_iff, isEqualGate_eq_true_iff, SameFunction, SameFunction]
  simp only [h _]

/-- The encoded candidates for a signature are the live gates that have it. -/
theorem Grouped.mem_filter_group_iff (hgrouped : c.Grouped order) {signature : Signature} :
    id ∈ (c.classes.group signature).filter c.isEncoded ↔
      c.LiveGate id ∧ c.signature? id = some signature := by
  rw [List.mem_filter, hgrouped.group, List.mem_filter, isGateWith_eq_true_iff,
    isEncoded_eq_true_iff, hgrouped.isLiveOrder.mem_iff]
  constructor
  · rintro ⟨⟨hlive, hgate, hsignature⟩, _⟩
    exact ⟨⟨hlive, hgate⟩, hsignature⟩
  · rintro ⟨hgate, hsignature⟩
    exact ⟨⟨hgate.1, hgate.2, hsignature⟩, hgate.encoded⟩

theorem Grouped.nodup_filter_group (hgrouped : c.Grouped order) (signature : Signature) :
    ((c.classes.group signature).filter c.isEncoded).Nodup := by
  rw [hgrouped.group]
  exact (hgrouped.isLiveOrder.nodup.filter _).filter _

/-- A gate that has another one to go to shares its group with it, so the group is a candidate. -/
theorem group_mem_candidates_of_find? {signature : Signature}
    (hvictim : victim ∈ (c.classes.group signature).filter c.isEncoded) (hne : victim ≠ survivor)
    (hsurvivor : ((c.classes.group signature).filter c.isEncoded).find? (c.same victim) =
      some survivor) : c.classes.group signature ∈ c.classes.candidates := by
  have hpair : [victim, survivor].length ≤ (c.classes.group signature).length := by
    refine (List.subperm_of_subset (by simp [hne]) ?_).length_le
    intro id hid
    rcases List.mem_cons.1 hid with rfl | hid
    · exact (List.mem_filter.1 hvictim).1
    · rw [List.mem_singleton.1 hid]
      exact (List.mem_filter.1 (List.mem_of_find?_eq_some hsurvivor)).1
  exact Classes.group_mem_candidates hpair

/-- A reduction right after a simulation merges just the live gates that come after an equal one in
    the order of the walk, each into the first of its equals. -/
theorem Grouped.mem_plannedMerges_iff (hgrouped : c.Grouped order) (haligned : c.Aligned) :
    (victim, survivor) ∈ c.plannedMerges ↔
      c.LiveGate victim ∧ victim ≠ survivor ∧
        order.find? (c.isEqualGate victim) = some survivor := by
  have hfind : ∀ {signature id}, c.LiveGate id → c.signature? id = some signature →
      ((c.classes.group signature).filter c.isEncoded).find? (c.same id) =
        order.find? (c.isEqualGate id) := by
    intro signature id hid hsignature
    rw [← List.head?_filter, hgrouped.filter_group haligned hid hsignature, List.head?_filter]
  constructor
  · intro hplanned
    obtain ⟨group, hgroup, hplanned⟩ := List.mem_flatMap.1 hplanned
    obtain ⟨listed, hlisted, rfl⟩ := List.mem_map.1 hgroup
    obtain ⟨signature, rfl⟩ := Classes.exists_eq_group hlisted
    obtain ⟨hvictim, hne, hsurvivor⟩ :=
      (mem_groupMerges_iff le_rfl (hgrouped.nodup_filter_group signature)).1 hplanned
    obtain ⟨hgate, hsignature⟩ := hgrouped.mem_filter_group_iff.1 hvictim
    exact ⟨hgate, hne, hfind hgate hsignature ▸ hsurvivor⟩
  · rintro ⟨hgate, hne, hsurvivor⟩
    obtain ⟨kind, hkind, _⟩ := hgate.2
    obtain ⟨n, hn, _⟩ := kind?_eq_some_iff.1 hkind
    have hsignature : c.signature? victim = some n.signature := by simp [signature?, hn]
    rw [← hfind hgate hsignature] at hsurvivor
    have hvictim := hgrouped.mem_filter_group_iff.2 ⟨hgate, hsignature⟩
    have hcandidate := group_mem_candidates_of_find? hvictim hne hsurvivor
    exact List.mem_flatMap.2 ⟨_, List.mem_map.2 ⟨_, hcandidate, rfl⟩,
      (mem_groupMerges_iff le_rfl (hgrouped.nodup_filter_group n.signature)).2
        ⟨hvictim, hne, hsurvivor⟩⟩

theorem Contracted.liveGate {merges : List (NodeId × NodeId)} (h : c.Contracted merges d)
    (hsurvivors : ∀ merge ∈ merges, c.Live merge.2) (hid : d.LiveGate id) : c.LiveGate id :=
  ⟨h.live hsurvivors hid.1, h.isGate_iff.1 hid.2⟩

/-- Once the planned merges are made no victim is read, and the live gates all differ in what they
    compute. -/
theorem Grouped.reduced (hgrouped : c.Grouped order) (haligned : c.Aligned)
    (hd : d.WellFormed) (hpreserves : c.Preserves d) (hcontracted : c.Contracted c.plannedMerges d) :
    (∀ victim survivor, (victim, survivor) ∈ c.plannedMerges →
        ∀ consumer, ¬ d.Feeds victim consumer) ∧
      ∀ a b, d.LiveGate a → d.LiveGate b → d.SameFunction a b → a = b := by
  have hplanned : ∀ {victim survivor}, (victim, survivor) ∈ c.plannedMerges ↔ _ :=
    hgrouped.mem_plannedMerges_iff haligned
  have hsurvivor : ∀ merge ∈ c.plannedMerges, c.Live merge.2 := by
    intro merge hmerge
    obtain ⟨_, _, hfind⟩ := hplanned.1 hmerge
    exact hgrouped.isLiveOrder.mem_iff.1 (List.mem_of_find?_eq_some hfind)
  have hfinal : ∀ merge ∈ c.plannedMerges, ∀ other ∈ c.plannedMerges, merge.2 ≠ other.1 := by
    rintro merge hmerge ⟨_, next⟩ hother rfl
    obtain ⟨_, _, hfind⟩ := hplanned.1 hmerge
    obtain ⟨_, hne, hnext⟩ := hplanned.1 hother
    have hsame := (isEqualGate_eq_true_iff.1 (List.find?_some hfind)).2
    rw [← isEqualGate_congr hsame, hfind] at hnext
    exact hne (Option.some.inj hnext)
  have hunread : ∀ victim survivor, (victim, survivor) ∈ c.plannedMerges →
      ∀ consumer, ¬ d.Feeds victim consumer :=
    fun _ _ hmerge => hcontracted.unread hfinal hmerge
  refine ⟨hunread, fun a b ha hb hsame => ?_⟩
  have hfirst : ∀ id, d.LiveGate id → order.find? (c.isEqualGate id) = some id := by
    intro id hid
    have hgate := hcontracted.liveGate hsurvivor hid
    have hself : c.isEqualGate id id = true := isEqualGate_eq_true_iff.2 ⟨hgate.2, fun _ => rfl⟩
    have hsome : (order.find? (c.isEqualGate id)).isSome = true :=
      List.find?_isSome.2 ⟨id, hgrouped.isLiveOrder.mem_iff.2 hgate.1, hself⟩
    obtain ⟨first, hfind⟩ := Option.isSome_iff_exists.1 hsome
    by_cases heq : id = first
    · rw [hfind, ← heq]
    · obtain ⟨consumer, hfeeds⟩ := hid.exists_feeds hd
      exact absurd hfeeds (hunread id first (hplanned.2 ⟨hgate, heq, hfind⟩) consumer)
  have hvalue : ∀ {id}, d.LiveGate id → ∀ p, d.value p id = c.value p id :=
    fun hid => hpreserves.value (Live.isSome hd hid.1)
  have hsame : c.SameFunction a b := fun p => by rw [← hvalue ha, ← hvalue hb, hsame p]
  have hfind := hfirst a ha
  rw [isEqualGate_congr hsame, hfirst b hb] at hfind
  exact (Option.some.inj hfind).symm

variable {σ τ : Type}

end AndInverter.Circuit
