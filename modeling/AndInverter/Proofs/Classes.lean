import AndInverter.Circuit.Classes
import AndInverter.Proofs.LiveOrder
import AndInverter.Proofs.Sequencing

namespace AndInverter

theorem values_eq_map_toList {α β : Type} [Ord α] [Std.TransOrd α] (t : Std.TreeMap α β) :
    t.values = t.toList.map (·.2) := by
  change t.foldr (fun _ v l => v :: l) [] = _
  rw [Std.TreeMap.foldr_eq_foldr_toList, List.map_eq_foldr]

theorem mem_values_iff {α β : Type} [Ord α] [Std.TransOrd α] [Std.LawfulEqOrd α]
    {t : Std.TreeMap α β} {v : β} : v ∈ t.values ↔ ∃ k : α, t[k]? = some v := by
  rw [values_eq_map_toList, List.mem_map]
  constructor
  · rintro ⟨⟨k, _⟩, hmem, rfl⟩
    exact ⟨k, Std.TreeMap.mem_toList_iff_getElem?_eq_some.1 hmem⟩
  · rintro ⟨k, hk⟩
    exact ⟨(k, v), Std.TreeMap.mem_toList_iff_getElem?_eq_some.2 hk, rfl⟩

namespace Classes

theorem group_empty (signature : Signature) : empty.group signature = [] := by
  simp [group, empty, Std.TreeMap.getD_eq_getD_getElem?]

theorem group_insert (classes : Classes) (signature other : Signature) (id : NodeId) :
    (classes.insert signature id).group other =
      if signature = other then classes.group other ++ [id] else classes.group other := by
  unfold group insert
  rw [Std.TreeMap.getD_eq_getD_getElem?, Std.TreeMap.getD_eq_getD_getElem?,
    Std.TreeMap.getElem?_alter]
  simp only [Std.compare_eq_iff_eq]
  split
  · next heq => simp [heq]
  · rfl

theorem mem_candidates_iff {classes : Classes} {group : List NodeId} :
    group ∈ classes.candidates ↔
      (∃ signature : Signature, classes.groups[signature]? = some group) ∧ 1 < group.length := by
  simp [candidates, mem_values_iff]

theorem eq_group {classes : Classes} {signature : Signature} {group : List NodeId}
    (h : classes.groups[signature]? = some group) : group = classes.group signature := by
  simp [Classes.group, Std.TreeMap.getD_eq_getD_getElem?, h]

theorem exists_eq_group_of_mem_values {classes : Classes} {group : List NodeId}
    (h : group ∈ classes.groups.values) : ∃ signature, group = classes.group signature := by
  obtain ⟨signature, hsignature⟩ := mem_values_iff.1 h
  exact ⟨signature, eq_group hsignature⟩

theorem exists_eq_group {classes : Classes} {group : List NodeId}
    (h : group ∈ classes.candidates) : ∃ signature, group = classes.group signature :=
  exists_eq_group_of_mem_values (List.mem_filter.1 h).1

theorem group_mem_values {classes : Classes} {signature : Signature}
    (h : classes.group signature ≠ []) : classes.group signature ∈ classes.groups.values := by
  refine mem_values_iff.2 ⟨signature, ?_⟩
  unfold group at h ⊢
  rw [Std.TreeMap.getD_eq_getD_getElem?] at h ⊢
  cases hsignature : classes.groups[signature]? with
  | none => simp [hsignature] at h
  | some group => simp

theorem group_mem_candidates {classes : Classes} {signature : Signature}
    (h : 1 < (classes.group signature).length) :
    classes.group signature ∈ classes.candidates := by
  have hne : classes.group signature ≠ [] := List.ne_nil_of_length_pos (by omega)
  exact List.mem_filter.2 ⟨group_mem_values hne, by simpa using h⟩

theorem mem_flatten_values_iff {classes : Classes} {id : NodeId} :
    id ∈ classes.groups.values.flatten ↔ ∃ signature, id ∈ classes.group signature := by
  rw [List.mem_flatten]
  constructor
  · rintro ⟨group, hgroup, hid⟩
    obtain ⟨signature, rfl⟩ := exists_eq_group_of_mem_values hgroup
    exact ⟨signature, hid⟩
  · rintro ⟨signature, hid⟩
    exact ⟨_, group_mem_values (List.ne_nil_of_mem hid), hid⟩

end Classes

namespace Circuit

def IsGate (c : Circuit) (id : NodeId) : Prop := ∃ kind, c.kind? id = some kind ∧ kind.isGate = true

def signature? (c : Circuit) (id : NodeId) : Option Signature := (c.node? id).map (·.signature)

/-- The node is a gate with this signature. -/
def isGateWith (c : Circuit) (signature : Signature) (id : NodeId) : Bool :=
  (c.node? id).any fun n => n.kind.isGate && n.signature == signature

/-- The candidate groups are up to date: they hold the live gates, in the order of the walk, by the
    signatures that the gates have. -/
structure Grouped (c : Circuit) (order : List NodeId) : Prop where
  liveOrder : c.liveOrder = .ok order
  isLiveOrder : c.IsLiveOrder order
  group : ∀ signature, c.classes.group signature = order.filter (c.isGateWith signature)

variable {c : Circuit}

theorem IsGate.ne_zero {id : NodeId} (h : c.IsGate id) (hc : c.Indexed) : id ≠ 0 := by
  obtain ⟨kind, hkind, hgate⟩ := h
  refine Indexed.ne_zero hc hkind ?_
  rintro rfl
  cases hgate

theorem isGateWith_eq_true_iff {id : NodeId} {signature : Signature} :
    c.isGateWith signature id = true ↔ c.IsGate id ∧ c.signature? id = some signature := by
  unfold isGateWith IsGate signature? kind?
  cases c.node? id <;> simp

/-- Grouping the nodes of a list appends to each group the gates that have its signature, in the
    order of the list. -/
theorem foldlM_insert_eq {order : List NodeId} (hpresent : ∀ id ∈ order, (c.kind? id).isSome = true)
    (classes : Classes) :
    ∃ grouped, order.foldlM (fun classes id => do
        let n ← c.node id
        return if n.kind.isGate then classes.insert n.signature id else classes) classes =
          .ok grouped ∧
      ∀ signature, grouped.group signature =
        classes.group signature ++ order.filter (c.isGateWith signature) := by
  induction order generalizing classes with
  | nil => exact ⟨classes, rfl, by simp⟩
  | cons id order ih =>
    obtain ⟨kind, hkind⟩ := Option.isSome_iff_exists.1 (hpresent id List.mem_cons_self)
    obtain ⟨n, hn, _⟩ := kind?_eq_some_iff.1 hkind
    obtain ⟨grouped, hfold, hgroups⟩ := ih (fun other hother =>
      hpresent other (List.mem_cons_of_mem id hother))
      (if n.kind.isGate then classes.insert n.signature id else classes)
    refine ⟨grouped, ?_, fun signature => ?_⟩
    · rw [List.foldlM_cons, except_bind_eq_ok_iff]
      refine ⟨_, ?_, hfold⟩
      rw [except_bind_eq_ok_iff]
      exact ⟨n, node_eq_ok_iff.2 hn, rfl⟩
    · have hid : c.isGateWith signature id = (n.kind.isGate && n.signature == signature) := by
        simp [isGateWith, hn]
      rw [hgroups, List.filter_cons, hid]
      by_cases hgate : n.kind.isGate = true
      · by_cases hsignature : n.signature = signature
        · simp [hgate, hsignature, Classes.group_insert]
        · simp [hgate, hsignature, Classes.group_insert]
      · simp [hgate]

/-- What the groups list is a gate, or has been removed since. -/
def ListsGates (c : Circuit) : Prop :=
  ∀ group ∈ c.classes.candidates, ∀ id ∈ group, ∀ kind, c.kind? id = some kind → kind.isGate = true

theorem Grouped.listsGates {order : List NodeId} (h : c.Grouped order) : c.ListsGates := by
  intro group hgroup id hid kind hkind
  obtain ⟨signature, rfl⟩ := Classes.exists_eq_group hgroup
  rw [h.group] at hid
  obtain ⟨⟨_, hgateKind, hgate⟩, _⟩ := isGateWith_eq_true_iff.1 (List.mem_filter.1 hid).2
  obtain rfl := Option.some.inj (hkind.symm.trans hgateKind)
  exact hgate

/-- No gate is listed twice, in one group or in two. -/
theorem Grouped.nodup_values {order : List NodeId} (h : c.Grouped order) :
    c.classes.groups.values.flatten.Nodup := by
  have hgroup : ∀ entry ∈ c.classes.groups.toList, entry.2 = order.filter (c.isGateWith entry.1) := by
    intro entry hentry
    rw [← h.group]
    exact Classes.eq_group (Std.TreeMap.mem_toList_iff_getElem?_eq_some.1 hentry)
  rw [values_eq_map_toList, List.nodup_flatten]
  constructor
  · intro group hmem
    obtain ⟨entry, hentry, rfl⟩ := List.mem_map.1 hmem
    rw [hgroup entry hentry]
    exact h.isLiveOrder.nodup.filter _
  · rw [List.pairwise_map]
    apply Std.TreeMap.distinct_keys_toList.imp_of_mem
    intro one other hone hother hne id hid hid'
    rw [hgroup one hone, List.mem_filter, isGateWith_eq_true_iff] at hid
    rw [hgroup other hother, List.mem_filter, isGateWith_eq_true_iff] at hid'
    apply hne
    rw [Std.compare_eq_iff_eq]
    exact Option.some.inj (hid.2.2.symm.trans hid'.2.2)

/-- No gate is a candidate twice. -/
theorem Grouped.nodup_candidates {order : List NodeId} (h : c.Grouped order) :
    c.classes.candidates.flatten.Nodup := by
  obtain ⟨hgroups, hdisjoint⟩ := List.nodup_flatten.1 h.nodup_values
  exact List.nodup_flatten.2
    ⟨fun group hgroup => hgroups group (List.mem_filter.1 hgroup).1, hdisjoint.filter _⟩

/-- Grouping the gates anew cannot fail. -/
theorem WellFormed.exists_classify (hc : c.WellFormed) :
    ∃ classes order, c.classify = .ok { c with classes } ∧ { c with classes }.Grouped order := by
  obtain ⟨order, horder, hlive⟩ := hc.exists_liveOrder
  obtain ⟨classes, hfold, hgroups⟩ := foldlM_insert_eq
    (hlive.isSome hc) Classes.empty
  have hclasses : c.liveClasses = .ok classes := by
    unfold liveClasses
    rw [except_bind_eq_ok_iff]
    exact ⟨order, horder, hfold⟩
  refine ⟨classes, order, except_bind_eq_ok_iff.2 ⟨classes, hclasses, rfl⟩,
    (liveOrder_classes c classes).trans horder, hlive.sameShape (sameShape_classes c classes),
    fun signature => ?_⟩
  rw [hgroups, Classes.group_empty, List.nil_append]
  rfl

theorem WellFormed.of_classify (hc : c.WellFormed) {d : Circuit} (h : c.classify = .ok d) :
    c.SameShape d ∧ (∀ id, d.signature? id = c.signature? id) ∧ ∃ order, d.Grouped order := by
  obtain ⟨classes, order, hclassify, hgrouped⟩ := hc.exists_classify
  obtain rfl := Except.ok.inj (h.symm.trans hclassify)
  exact ⟨sameShape_classes c classes, fun _ => rfl, order, hgrouped⟩

end Circuit

end AndInverter
