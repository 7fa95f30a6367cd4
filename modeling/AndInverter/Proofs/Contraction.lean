import AndInverter.Proofs.Reduction

namespace AndInverter

/-- The edge with another node at its source. -/
def Edge.relabel (label : NodeId → NodeId) (e : Edge) : Edge := ⟨label e.node, e.inverted⟩

namespace Kind

/-- The kind with other nodes at the sources of its edges. -/
def relabel (label : NodeId → NodeId) : Kind → Kind
  | output fanin => output (fanin.relabel label)
  | gate left right => gate (left.relabel label) (right.relabel label)
  | kind => kind

theorem relabel_id (kind : Kind) : kind.relabel (fun id => id) = kind := by
  cases kind <;> rfl

theorem relabel_relabel (first second : NodeId → NodeId) (kind : Kind) :
    (kind.relabel first).relabel second = kind.relabel fun id => second (first id) := by
  cases kind <;> rfl

theorem fanins_relabel (label : NodeId → NodeId) (kind : Kind) :
    (kind.relabel label).fanins = kind.fanins.map (·.relabel label) := by
  cases kind <;> rfl

theorem isGate_relabel (label : NodeId → NodeId) (kind : Kind) :
    (kind.relabel label).isGate = kind.isGate := by
  cases kind <;> rfl

/-- An uninverted replacement changes nothing but the node. -/
theorem retarget_eq_relabel (victim survivor : NodeId) (kind : Kind) :
    kind.retarget victim ⟨survivor, false⟩ =
      kind.relabel fun id => if id = victim then survivor else id := by
  have hmove : retarget.move victim ⟨survivor, false⟩ =
      Edge.relabel fun id => if id = victim then survivor else id := by
    funext e
    unfold retarget.move Edge.relabel
    split
    · next heq => simp [heq, Edge.invertIf]
    · next hne => simp [hne]
  cases kind <;> simp [retarget, relabel, hmove]

end Kind

namespace Circuit

variable {c d e : Circuit} {merges : List (NodeId × NodeId)}

theorem same_self (c : Circuit) (a : NodeId) : c.same a a = true :=
  same_eq_true_iff.2 fun _ => rfl

theorem same_comm (c : Circuit) (a b : NodeId) : c.same a b = c.same b a := by
  rw [Bool.eq_iff_iff, same_eq_true_iff, same_eq_true_iff]
  exact ⟨fun h p => (h p).symm, fun h p => (h p).symm⟩

theorem same_congr {a b : NodeId} (h : c.same a b = true) : c.same a = c.same b := by
  rw [same_eq_true_iff] at h
  funext other
  rw [Bool.eq_iff_iff, same_eq_true_iff, same_eq_true_iff, SameFunction, SameFunction]
  simp only [h _]

theorem mem_map_filter_same {first victim survivor : NodeId} {rest : List NodeId} :
    (victim, survivor) ∈ (rest.filter (c.same first)).map (·, first) ↔
      (victim ∈ rest ∧ c.same first victim = true) ∧ first = survivor := by
  simp [List.mem_map, List.mem_filter]

/-- Among the nodes that differ from one of them, another one finds its equals as before. -/
theorem find?_filter_not_same {first victim : NodeId} (h : c.same first victim = false)
    (rest : List NodeId) :
    (rest.filter (!c.same first ·)).find? (c.same victim) = rest.find? (c.same victim) := by
  rw [List.find?_filter]
  congr 1
  funext other
  cases hother : c.same victim other with
  | false => simp
  | true =>
    have hdifferent : c.same first other = false := by
      rw [c.same_comm, ← same_congr hother, c.same_comm, h]
    simp [hdifferent]

/-- Within a group of distinct nodes, whatever has an earlier equal is merged, and into the first
    of its equals. -/
theorem mem_groupMerges_iff {rounds : Nat} {group : List NodeId} (hrounds : group.length ≤ rounds)
    (hnodup : group.Nodup) {victim survivor : NodeId} :
    (victim, survivor) ∈ groupMerges c.same rounds group ↔
      victim ∈ group ∧ victim ≠ survivor ∧ group.find? (c.same victim) = some survivor := by
  induction rounds generalizing group with
  | zero =>
    obtain rfl := List.length_eq_zero_iff.1 (Nat.le_zero.1 hrounds)
    simp [groupMerges]
  | succ rounds ih =>
    cases group with
    | nil => simp [groupMerges]
    | cons first rest =>
      obtain ⟨hfresh, hnodup⟩ := List.nodup_cons.1 hnodup
      have hshort : (rest.filter (!c.same first ·)).length ≤ rounds :=
        (List.length_filter_le _ _).trans (Nat.le_of_succ_le_succ hrounds)
      rw [groupMerges, List.mem_append, ih hshort (hnodup.filter _), mem_map_filter_same,
        List.mem_filter, List.find?_cons, c.same_comm victim first, List.mem_cons]
      cases hsame : c.same first victim with
      | true =>
        -- The head is the first of the equals, and the later rounds do not see the victim.
        have hne : victim ∈ rest → victim ≠ first := fun hmem heq => hfresh (heq ▸ hmem)
        simp only [Bool.not_true, Bool.false_eq_true, and_false, false_and, or_false, and_true,
          Option.some.injEq]
        constructor
        · intro h
          obtain ⟨hmem, rfl⟩ := h
          exact ⟨.inr hmem, hne hmem, rfl⟩
        · intro h
          obtain ⟨hmem, hdifferent, rfl⟩ := h
          exact ⟨hmem.resolve_left hdifferent, rfl⟩
      | false =>
        have hne : victim ≠ first := by
          rintro rfl
          rw [c.same_self] at hsame
          cases hsame
        simp [find?_filter_not_same hsame, hne]

/-- What is read in place of a node once the merges are made one after the other. -/
def standIn (merges : List (NodeId × NodeId)) (id : NodeId) : NodeId :=
  merges.foldl (fun id (victim, survivor) => if id = victim then survivor else id) id

/-- The merges of a list that are made before one is refused. -/
def performedMerges : List (NodeId × NodeId) → Circuit → List (NodeId × NodeId)
  | [], _ => []
  | (victim, survivor) :: rest, c =>
    match c.merge victim survivor false with
    | .ok d => (victim, survivor) :: performedMerges rest d
    | .error _ => []

/-- The second circuit is what the merges make of the first one. -/
structure Contracted (c : Circuit) (merges : List (NodeId × NodeId)) (d : Circuit) : Prop where
  outputs : d.outputs = c.outputs
  isGate : ∀ id, (d.kind? id).map (·.isGate) = (c.kind? id).map (·.isGate)
  feeds : ∀ {source consumer}, d.Feeds source consumer ↔
    ∃ old, c.Feeds old consumer ∧ standIn merges old = source

theorem standIn_cons (merge : NodeId × NodeId) (merges : List (NodeId × NodeId)) (id : NodeId) :
    standIn (merge :: merges) id = standIn merges (if id = merge.1 then merge.2 else id) := rfl

/-- A node stands for itself, or a merge has given it to another one. -/
theorem standIn_cases (merges : List (NodeId × NodeId)) (id : NodeId) :
    standIn merges id = id ∨ ∃ victim, (victim, standIn merges id) ∈ merges := by
  induction merges generalizing id with
  | nil => exact .inl rfl
  | cons merge merges ih =>
    rw [standIn_cons]
    split
    · rcases ih merge.2 with hself | ⟨other, hother⟩
      · rw [hself]
        exact .inr ⟨merge.1, List.mem_cons_self⟩
      · exact .inr ⟨other, List.mem_cons_of_mem _ hother⟩
    · exact (ih id).imp_right fun ⟨other, hother⟩ => ⟨other, List.mem_cons_of_mem _ hother⟩

theorem standIn_ne {victim id : NodeId} (hid : id ≠ victim)
    (hsurvivors : ∀ merge ∈ merges, merge.2 ≠ victim) : standIn merges id ≠ victim := by
  rcases standIn_cases merges id with hself | ⟨other, hother⟩
  · rwa [hself]
  · exact hsurvivors _ hother

theorem standIn_eq_self {id : NodeId} (h : ∀ merge ∈ merges, merge.1 ≠ id) :
    standIn merges id = id := by
  induction merges with
  | nil => rfl
  | cons merge merges ih =>
    have hne : id ≠ merge.1 := (h merge List.mem_cons_self).symm
    rw [standIn_cons, if_neg hne]
    exact ih fun other hother => h other (List.mem_cons_of_mem _ hother)

/-- No victim is read any more when none of them survives another merge. -/
theorem standIn_ne_victim
    (hsurvivors : ∀ merge ∈ merges, ∀ other ∈ merges, merge.2 ≠ other.1) {merge : NodeId × NodeId}
    (hmerge : merge ∈ merges) (id : NodeId) : standIn merges id ≠ merge.1 := by
  induction merges generalizing id with
  | nil => cases hmerge
  | cons first merges ih =>
    have hfirst : ∀ other ∈ merges, other.2 ≠ first.1 := fun other hother =>
      hsurvivors other (List.mem_cons_of_mem _ hother) first List.mem_cons_self
    rw [standIn_cons]
    rcases List.mem_cons.1 hmerge with rfl | hrest
    · refine standIn_ne ?_ hfirst
      split
      · exact hsurvivors _ List.mem_cons_self _ List.mem_cons_self
      · assumption
    · exact ih (fun one hone other hother => hsurvivors one (List.mem_cons_of_mem _ hone) other
        (List.mem_cons_of_mem _ hother)) hrest _

/-- No node is merged twice, and none into a node that is merged as well. -/
structure OneStep (merges : List (NodeId × NodeId)) : Prop where
  nodup : (merges.map (·.1)).Nodup
  final : ∀ merge ∈ merges, ∀ other ∈ merges, merge.2 ≠ other.1

/-- Merges may follow others if they do not have a victim of these, nor these one of theirs. -/
theorem OneStep.append {more : List (NodeId × NodeId)} (h : OneStep merges) (hmore : OneStep more)
    (hapart : ∀ one ∈ merges, ∀ other ∈ more,
      other.1 ≠ one.1 ∧ other.2 ≠ one.1 ∧ one.2 ≠ other.1) : OneStep (merges ++ more) where
  nodup := by
    rw [List.map_append, List.nodup_append]
    refine ⟨h.nodup, hmore.nodup, fun id hid id' hid' => ?_⟩
    obtain ⟨one, hone, rfl⟩ := List.mem_map.1 hid
    obtain ⟨other, hother, rfl⟩ := List.mem_map.1 hid'
    exact (hapart one hone other hother).1.symm
  final := by
    intro one hone other hother
    rcases List.mem_append.1 hone with hone | hone <;> rcases List.mem_append.1 hother with hother | hother
    · exact h.final one hone other hother
    · exact (hapart one hone other hother).2.2
    · exact (hapart other hother one hone).2.1
    · exact hmore.final one hone other hother

theorem OneStep.singleton {merge : NodeId × NodeId} (hne : merge.2 ≠ merge.1) : OneStep [merge] where
  nodup := List.nodup_singleton merge.1
  final := by simpa using hne

/-- The head of such a list goes into a node that stays. -/
theorem OneStep.of_cons {merge : NodeId × NodeId} (h : OneStep (merge :: merges)) :
    OneStep merges ∧ merge.1 ∉ merges.map (·.1) ∧ ∀ other ∈ merges, other.1 ≠ merge.2 := by
  obtain ⟨hfresh, hnodup⟩ := List.nodup_cons.1 h.nodup
  refine ⟨⟨hnodup, fun one hone other hother => ?_⟩, hfresh, fun other hother => ?_⟩
  · exact h.final one (List.mem_cons_of_mem _ hone) other (List.mem_cons_of_mem _ hother)
  · exact (h.final merge List.mem_cons_self other (List.mem_cons_of_mem _ hother)).symm

/-- Then what is read in place of a victim is the node that it was merged into. -/
theorem OneStep.standIn_eq (h : OneStep merges) {victim survivor : NodeId}
    (hmerge : (victim, survivor) ∈ merges) : standIn merges victim = survivor := by
  induction merges with
  | nil => cases hmerge
  | cons merge merges ih =>
    obtain ⟨hrest, hfresh, hstays⟩ := h.of_cons
    rw [standIn_cons]
    rcases List.mem_cons.1 hmerge with rfl | hmerge
    · rw [if_pos rfl]
      exact standIn_eq_self hstays
    · have hne : victim ≠ merge.1 := by
        rintro rfl
        exact hfresh (List.mem_map.2 ⟨_, hmerge, rfl⟩)
      rw [if_neg hne]
      exact ih hrest hmerge

section Redirection

variable {victim id : NodeId} {replacement : Edge}

theorem Redirected.isGate_iff (h : c.Redirected victim replacement d) :
    d.IsGate id ↔ c.IsGate id := by
  simp [IsGate, h.kind?]

theorem Redirected.unread (h : c.Redirected victim replacement d) (hne : replacement.node ≠ victim)
    (consumer : NodeId) : ¬ d.Feeds victim consumer := by
  intro hfeeds
  obtain ⟨old, _, heq⟩ := h.feeds_iff.1 hfeeds
  split at heq
  · exact hne heq
  · contradiction

end Redirection

namespace Contracted

theorem refl (c : Circuit) : c.Contracted [] c :=
  ⟨rfl, fun _ => rfl, fun {source _} => ⟨fun h => ⟨source, h, rfl⟩, fun ⟨_, h, heq⟩ => heq ▸ h⟩⟩

/-- One more merge, made first. Only the nodes matter here, not the inverters. -/
theorem cons {victim : NodeId} {replacement : Edge} (hd : c.Redirected victim replacement d)
    (he : d.Contracted merges e) : c.Contracted ((victim, replacement.node) :: merges) e where
  outputs := he.outputs.trans hd.outputs
  isGate id := by
    rw [he.isGate, hd.kind?, Option.map_map]
    congr 1
    funext kind
    exact Kind.isGate_retarget ..
  feeds {source consumer} := by
    simp only [he.feeds, hd.feeds_iff]
    constructor
    · rintro ⟨_, ⟨old, hfeeds, rfl⟩, rfl⟩
      exact ⟨old, hfeeds, rfl⟩
    · rintro ⟨old, hfeeds, rfl⟩
      exact ⟨_, ⟨old, hfeeds, rfl⟩, rfl⟩

theorem isGate_iff (h : c.Contracted merges d) {id : NodeId} : d.IsGate id ↔ c.IsGate id := by
  have hmap := h.isGate id
  unfold IsGate
  cases hc : c.kind? id <;> cases hd : d.kind? id <;> simp_all

/-- Merges into a set of nodes that holds the outputs, and with a node all that the node reads, make
    no node live outside this set. -/
theorem mem_of_live (h : c.Contracted merges d) {S : NodeId → Prop}
    (houtputs : ∀ output ∈ c.outputs, S output)
    (hfeeds : ∀ {source consumer}, c.Feeds source consumer → S consumer → S source)
    (hsurvivors : ∀ merge ∈ merges, S merge.2) {id : NodeId} (hid : d.Live id) : S id := by
  obtain ⟨output, houtput, hreach⟩ := hid
  rw [h.outputs] at houtput
  induction hreach using Relation.ReflTransGen.head_induction_on with
  | refl => exact houtputs output houtput
  | head hread _ ih =>
    obtain ⟨old, hold, rfl⟩ := h.feeds.1 hread
    rcases standIn_cases merges old with hself | ⟨victim, hmerge⟩
    · rw [hself]
      exact hfeeds hold ih
    · exact hsurvivors _ hmerge

/-- Merges into live nodes make no node live. -/
theorem live (h : c.Contracted merges d) (hsurvivors : ∀ merge ∈ merges, c.Live merge.2)
    {id : NodeId} (hid : d.Live id) : c.Live id :=
  h.mem_of_live (fun output houtput => ⟨output, houtput, .refl⟩)
    (fun hfeeds hlive => Live.of_feeds hlive hfeeds) hsurvivors hid

end Contracted

/-- Merging makes of the circuit what the performed merges say, and these are all merges unless one
    fails. -/
theorem WellFormed.mergeAll_contracted (hc : c.WellFormed) (merges : List (NodeId × NodeId)) :
    match mergeAll merges c with
    | .ok _ d => c.Contracted merges d ∧ performedMerges merges c = merges
    | .error _ d => c.Contracted (performedMerges merges c) d := by
  induction merges generalizing c with
  | nil => exact ⟨Contracted.refl c, rfl⟩
  | cons merge merges ih =>
    obtain ⟨victim, survivor⟩ := merge
    rw [mergeAll, List.forM, performedMerges]
    cases hmerge : c.merge victim survivor false with
    | error failure =>
      have hstep : Pass.step (·.merge victim survivor false) c = .error failure c := by
        rw [Pass.step, hmerge]
      rw [estateM_bind_of_error hstep]
      exact Contracted.refl c
    | ok d =>
      obtain ⟨hredirected, hd⟩ := hc.of_redirect hmerge
      have hstep : Pass.step (·.merge victim survivor false) c = .ok () d := Pass.step_of_ok hmerge
      have hrest := ih hd
      rw [estateM_bind_of_ok hstep]
      change match mergeAll merges d with
        | .ok _ e => c.Contracted ((victim, survivor) :: merges) e ∧
          (victim, survivor) :: performedMerges merges d = (victim, survivor) :: merges
        | .error _ e => c.Contracted ((victim, survivor) :: performedMerges merges d) e
      cases hmerges : mergeAll merges d with
      | ok _ e =>
        rw [hmerges] at hrest
        exact ⟨hrest.1.cons hredirected, by rw [hrest.2]⟩
      | error failure e =>
        rw [hmerges] at hrest
        exact hrest.cons hredirected

/-- The circuits differ in the nodes that are read, in the way that the merges say, and not in the
    inverters. -/
structure Merged (c : Circuit) (merges : List (NodeId × NodeId)) (d : Circuit) : Prop where
  inputs : d.inputs = c.inputs
  outputs : d.outputs = c.outputs
  maxVar : d.maxVar = c.maxVar
  kind? : ∀ id, d.kind? id = (c.kind? id).map (·.relabel (standIn merges))

namespace Merged

theorem refl (c : Circuit) : c.Merged [] c := by
  refine ⟨rfl, rfl, rfl, fun id => ?_⟩
  cases c.kind? id with
  | none => rfl
  | some kind => exact congrArg some kind.relabel_id.symm

theorem sameShape (h : c.Merged merges d) (he : d.SameShape e) : c.Merged merges e :=
  ⟨he.inputs.trans h.inputs, he.outputs.trans h.outputs, he.maxVar.trans h.maxVar,
    fun id => (he.kind? id).trans (h.kind? id)⟩

theorem cons {victim survivor : NodeId} (hd : c.Redirected victim ⟨survivor, false⟩ d)
    (he : d.Merged merges e) : c.Merged ((victim, survivor) :: merges) e where
  inputs := he.inputs.trans hd.inputs
  outputs := he.outputs.trans hd.outputs
  maxVar := he.maxVar.trans hd.maxVar
  kind? id := by
    rw [he.kind?, hd.kind?, Option.map_map]
    congr 1
    funext kind
    rw [Function.comp_apply, Kind.retarget_eq_relabel, Kind.relabel_relabel]
    rfl

/-- Several merges, made one by one, amount to reading for each node what it went to in the end. -/
theorem contracted (h : c.Merged merges d) : c.Contracted merges d where
  outputs := h.outputs
  isGate id := by
    rw [h.kind?, Option.map_map]
    congr 1
    funext kind
    exact kind.isGate_relabel _
  feeds {source consumer} := by
    unfold Feeds
    rw [h.kind?]
    constructor
    · rintro ⟨_, hkind, e, he, rfl⟩
      obtain ⟨kind, hold, rfl⟩ := Option.map_eq_some_iff.1 hkind
      rw [Kind.fanins_relabel] at he
      obtain ⟨old, hmem, rfl⟩ := List.mem_map.1 he
      exact ⟨old.node, ⟨kind, hold, old, hmem, rfl⟩, rfl⟩
    · rintro ⟨_, ⟨kind, hkind, e, he, rfl⟩, rfl⟩
      refine ⟨_, by rw [hkind]; rfl, e.relabel (standIn merges), ?_, rfl⟩
      rw [Kind.fanins_relabel]
      exact List.mem_map_of_mem he

end Merged

/-- And they differ in nothing else: all that a node has besides its edges stays, and so do the
    groups. -/
structure OnlyMerged (c : Circuit) (merges : List (NodeId × NodeId)) (d : Circuit) : Prop
    extends c.Merged merges d where
  classes : d.classes = c.classes
  unlinked : ∀ id, (d.node? id).map Node.unlinked = (c.node? id).map Node.unlinked

/-- Merges that succeed, one after the other, do what they say and nothing else. -/
theorem WellFormed.onlyMerged_of_mergeAll (hc : c.WellFormed)
    (h : mergeAll merges c = .ok () d) : c.OnlyMerged merges d := by
  induction merges generalizing c with
  | nil =>
    cases h
    exact ⟨Merged.refl _, rfl, fun _ => rfl⟩
  | cons merge merges ih =>
    obtain ⟨_, e, hstep, hrest⟩ := estateM_bind_eq_ok_iff.1 h
    have hmerge : c.redirect merge.1 ⟨merge.2, false⟩ = .ok e := Pass.step_eq_ok_iff.1 hstep
    obtain ⟨hredirected, he⟩ := hc.of_redirect hmerge
    have hlater := ih he hrest
    exact ⟨hlater.toMerged.cons hredirected, hlater.classes.trans hredirected.classes, fun id =>
      (hlater.unlinked id).trans (unlinked_of_redirect hmerge id)⟩

end Circuit

end AndInverter
