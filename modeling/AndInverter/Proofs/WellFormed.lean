import AndInverter.Circuit.Build
import Mathlib.Logic.Basic

namespace AndInverter

namespace Kind

@[simp]
theorem isOutput_retarget (victim : NodeId) (replacement : Edge) (kind : Kind) :
    (kind.retarget victim replacement).isOutput = kind.isOutput := by
  cases kind <;> rfl

@[simp]
theorem isGate_retarget (victim : NodeId) (replacement : Edge) (kind : Kind) :
    (kind.retarget victim replacement).isGate = kind.isGate := by
  cases kind <;> rfl

theorem isOutput_iff {kind : Kind} : kind.isOutput = true ↔ ∃ fanin, kind = output fanin := by
  cases kind <;> simp [isOutput]

theorem isOutput_eq_false {kind : Kind} (h : (kind.isInput || kind.isGate) = true) :
    kind.isOutput = false := by
  cases kind <;> first | rfl | cases h

end Kind

/-- The node without the record of its consumers. -/
def Node.unread (n : Node) : Node := { n with fanouts := ∅ }

/-- An ascending list is known by what is in it. -/
theorem eq_of_sorted {ids others : List NodeId} (hids : ids.Pairwise (· < ·))
    (hothers : others.Pairwise (· < ·)) (h : ∀ id, id ∈ ids ↔ id ∈ others) : ids = others := by
  have hnodup : ∀ {ids : List NodeId}, ids.Pairwise (· < ·) → ids.Nodup :=
    fun hsorted => hsorted.imp fun hlt => UInt64.ne_of_lt hlt
  refine ((List.perm_ext_iff_of_nodup (hnodup hids) (hnodup hothers)).2 h).eq_of_pairwise ?_ hids
    hothers
  exact fun a b _ _ hab hba => absurd hba (UInt64.lt_asymm hab)

namespace Circuit

/-- The kind of a node, which holds all its edges. -/
def kind? (c : Circuit) (id : NodeId) : Option Kind := (c.node? id).map (·.kind)

/-- The first node is a fanin of the second. -/
def Feeds (c : Circuit) (source consumer : NodeId) : Prop :=
  ∃ kind, c.kind? consumer = some kind ∧ ∃ e ∈ kind.fanins, e.node = source

/-- The first node names the second one among its fanouts. -/
def Lists (c : Circuit) (source consumer : NodeId) : Prop :=
  ∃ n, c.node? source = some n ∧ consumer ∈ n.fanouts

/-- Nodes stand under their own ids, and the lists and the bound on ids tell what is there. The
    bound leaves the outputs aside, which lie above it. -/
structure Indexed (c : Circuit) : Prop where
  own_id : ∀ {id n}, c.node? id = some n → n.id = id
  constant_iff : ∀ {id}, c.kind? id = some .constant ↔ id = 0
  inputs_sorted : c.inputs.Pairwise (· < ·)
  mem_inputs : ∀ {id}, id ∈ c.inputs ↔ ∃ inverted, c.kind? id = some (.input inverted)
  outputs_sorted : c.outputs.Pairwise (· < ·)
  mem_outputs : ∀ {id}, id ∈ c.outputs ↔ ∃ fanin, c.kind? id = some (.output fanin)
  id_le : ∀ {id kind}, c.kind? id = some kind → kind.isOutput = false → id ≤ c.maxVar

theorem Indexed.nodup_inputs {c : Circuit} (hc : c.Indexed) : c.inputs.Nodup :=
  hc.inputs_sorted.imp UInt64.ne_of_lt

theorem Indexed.nodup_outputs {c : Circuit} (hc : c.Indexed) : c.outputs.Nodup :=
  hc.outputs_sorted.imp UInt64.ne_of_lt

/-- The constant alone stands under zero. -/
theorem Indexed.ne_zero {c : Circuit} (hc : c.Indexed) {id : NodeId} {kind : Kind}
    (hkind : c.kind? id = some kind) (hne : kind ≠ .constant) : id ≠ 0 := by
  intro hzero
  rw [hc.constant_iff.2 hzero] at hkind
  exact hne (Option.some.inj hkind).symm

/-- What every operation keeps, whether it succeeds or fails and whether or not the circuit has
    cycles. -/
structure WellFormed (c : Circuit) : Prop extends c.Indexed where
  fanin : ∀ {id kind}, c.kind? id = some kind → ∀ e ∈ kind.fanins,
    ∃ source, c.kind? e.node = some source ∧ source.isOutput = false
  mirror : ∀ {source consumer}, c.Feeds source consumer ↔ c.Lists source consumer

theorem kind?_eq_some_iff {c : Circuit} {id : NodeId} {kind : Kind} :
    c.kind? id = some kind ↔ ∃ n, c.node? id = some n ∧ n.kind = kind := by
  simp [kind?]

theorem kind?_of_node? {c : Circuit} {id : NodeId} {n : Node} (h : c.node? id = some n) :
    c.kind? id = some n.kind := by
  simp [kind?, h]

theorem kind?_eq_none_iff {c : Circuit} {id : NodeId} :
    c.kind? id = none ↔ c.node? id = none := by
  simp [kind?]

theorem isSome_kind? (c : Circuit) (id : NodeId) : (c.kind? id).isSome = (c.node? id).isSome := by
  simp [kind?]

theorem feeds_iff_reads {c : Circuit} {consumer : NodeId} {n : Node}
    (hn : c.node? consumer = some n) (source : NodeId) :
    c.Feeds source consumer ↔ n.reads source = true := by
  simp [Feeds, kind?_of_node? hn, Node.reads, Node.fanins]

/-- Only outputs and gates read other nodes. -/
theorem feeds_iff_output_or_gate {c : Circuit} {source consumer : NodeId} :
    c.Feeds source consumer ↔
      (∃ driver, c.kind? consumer = some (.output driver) ∧ driver.node = source) ∨
        ∃ left right, c.kind? consumer = some (.gate left right) ∧
          (left.node = source ∨ right.node = source) := by
  constructor
  · intro h
    obtain ⟨kind, hkind, e, he, hnode⟩ := h
    cases kind with
    | output driver => exact .inl ⟨driver, hkind, List.mem_singleton.1 he ▸ hnode⟩
    | gate left right =>
      refine .inr ⟨left, right, hkind, ?_⟩
      obtain rfl | he := List.mem_cons.1 he
      · exact .inl hnode
      · exact .inr (List.mem_singleton.1 he ▸ hnode)
    | _ => cases he
  · intro h
    obtain ⟨driver, hkind, hnode⟩ | ⟨left, right, hkind, hleft | hright⟩ := h
    · exact ⟨_, hkind, driver, List.mem_cons_self, hnode⟩
    · exact ⟨_, hkind, left, List.mem_cons_self, hleft⟩
    · exact ⟨_, hkind, right, List.mem_cons_of_mem _ List.mem_cons_self, hright⟩

theorem feeds_of_gate {c : Circuit} {id : NodeId} {left right : Edge}
    (hkind : c.kind? id = some (.gate left right)) : c.Feeds left.node id ∧ c.Feeds right.node id :=
  ⟨feeds_iff_output_or_gate.2 (.inr ⟨left, right, hkind, .inl rfl⟩),
    feeds_iff_output_or_gate.2 (.inr ⟨left, right, hkind, .inr rfl⟩)⟩

theorem lists_iff_mem {c : Circuit} {source : NodeId} {n : Node} (hn : c.node? source = some n)
    (consumer : NodeId) : c.Lists source consumer ↔ consumer ∈ n.fanouts := by
  simp [Lists, hn]

namespace WellFormed

variable {c : Circuit} {id : NodeId}

theorem isSome_of_feeds (hc : c.WellFormed) {source consumer : NodeId}
    (h : c.Feeds source consumer) : (c.kind? source).isSome = true := by
  obtain ⟨kind, hkind, e, he, rfl⟩ := h
  obtain ⟨target, htarget, _⟩ := hc.fanin hkind e he
  simp [htarget]

theorem present_fanins (hc : c.WellFormed) {n : Node} (hn : c.node? id = some n) :
    ∀ e ∈ n.fanins, (c.kind? e.node).isSome = true := by
  intro e he
  exact hc.isSome_of_feeds ⟨n.kind, kind?_of_node? hn, e, he, rfl⟩

theorem isSome_of_mem_inputs (hc : c.WellFormed) (hid : id ∈ c.inputs) :
    (c.kind? id).isSome = true := by
  obtain ⟨inverted, hkind⟩ := hc.mem_inputs.1 hid
  simp [hkind]

theorem isSome_of_mem_outputs (hc : c.WellFormed) (hid : id ∈ c.outputs) :
    (c.kind? id).isSome = true := by
  obtain ⟨fanin, hkind⟩ := hc.mem_outputs.1 hid
  simp [hkind]

end WellFormed

/-- The circuits differ in nothing but names, lines, simulated values and candidate groups. -/
structure SameShape (c d : Circuit) : Prop where
  inputs : d.inputs = c.inputs
  outputs : d.outputs = c.outputs
  maxVar : d.maxVar = c.maxVar
  node : ∀ id, (d.node? id).map (fun n => (n.id, n.kind, n.fanouts)) =
    (c.node? id).map (fun n => (n.id, n.kind, n.fanouts))

namespace SameShape

variable {c d e : Circuit}

theorem refl (c : Circuit) : c.SameShape c := ⟨rfl, rfl, rfl, fun _ => rfl⟩

theorem symm (h : c.SameShape d) : d.SameShape c :=
  ⟨h.inputs.symm, h.outputs.symm, h.maxVar.symm, fun id => (h.node id).symm⟩

theorem trans (hcd : c.SameShape d) (hde : d.SameShape e) : c.SameShape e :=
  ⟨hde.inputs.trans hcd.inputs, hde.outputs.trans hcd.outputs, hde.maxVar.trans hcd.maxVar,
    fun id => (hde.node id).trans (hcd.node id)⟩

theorem node?_eq_some (h : c.SameShape d) {id : NodeId} {m : Node} (hm : d.node? id = some m) :
    ∃ n, c.node? id = some n ∧ n.id = m.id ∧ n.kind = m.kind ∧ n.fanouts = m.fanouts := by
  have hshape := h.node id
  rw [hm] at hshape
  cases hn : c.node? id with
  | none => simp [hn] at hshape
  | some n =>
    simp only [hn, Option.map_some, Option.some.injEq, Prod.mk.injEq] at hshape
    exact ⟨n, rfl, hshape.1.symm, hshape.2.1.symm, hshape.2.2.symm⟩

theorem kind? (h : c.SameShape d) (id : NodeId) : d.kind? id = c.kind? id := by
  have hshape := congrArg (Option.map fun shape : NodeId × Kind × Std.TreeSet NodeId =>
    shape.2.1) (h.node id)
  simpa only [Option.map_map, Function.comp_def, Circuit.kind?] using hshape

theorem feeds (h : c.SameShape d) {source consumer : NodeId} :
    d.Feeds source consumer ↔ c.Feeds source consumer := by
  simp only [Feeds, h.kind?]

theorem lists_of_lists (h : c.SameShape d) {source consumer : NodeId}
    (hlists : d.Lists source consumer) : c.Lists source consumer := by
  obtain ⟨m, hm, hmem⟩ := hlists
  obtain ⟨n, hn, _, _, hfanouts⟩ := h.node?_eq_some hm
  exact ⟨n, hn, hfanouts ▸ hmem⟩

theorem lists (h : c.SameShape d) {source consumer : NodeId} :
    d.Lists source consumer ↔ c.Lists source consumer :=
  ⟨h.lists_of_lists, h.symm.lists_of_lists⟩

/-- Well-formedness depends on the shape alone. -/
theorem wellFormed (h : c.SameShape d) (hc : c.WellFormed) : d.WellFormed where
  own_id hm := by
    obtain ⟨n, hn, hid, _⟩ := h.node?_eq_some hm
    exact hid ▸ hc.own_id hn
  constant_iff {id} := by rw [h.kind?, hc.constant_iff]
  inputs_sorted := h.inputs ▸ hc.inputs_sorted
  mem_inputs {id} := by rw [h.inputs, h.kind?, hc.mem_inputs]
  outputs_sorted := h.outputs ▸ hc.outputs_sorted
  mem_outputs {id} := by rw [h.outputs, h.kind?, hc.mem_outputs]
  id_le hkind houtput := by
    rw [h.kind?] at hkind
    rw [h.maxVar]
    exact hc.id_le hkind houtput
  fanin hkind e he := by
    rw [h.kind?] at hkind ⊢
    exact hc.fanin hkind e he
  mirror {source consumer} := by rw [h.feeds, h.lists, hc.mirror]

end SameShape

/-- Nothing structural depends on the candidate groups. -/
theorem sameShape_classes (c : Circuit) (classes : Classes) :
    c.SameShape { c with classes } := ⟨rfl, rfl, rfl, fun _ => rfl⟩

/-- Nothing structural depends on what a simulation writes into a node. -/
theorem sameShape_update (c : Circuit) (id : NodeId) {f : Node → Node} (hid : ∀ n, (f n).id = n.id)
    (hkind : ∀ n, (f n).kind = n.kind) (hfanouts : ∀ n, (f n).fanouts = n.fanouts) :
    c.SameShape (c.update id f) := by
  refine ⟨rfl, rfl, rfl, fun other => ?_⟩
  rw [node?_update]
  split
  · next heq =>
    subst heq
    simp only [Option.map_map, Function.comp_def, hid, hkind, hfanouts]
  · rfl

theorem node?_empty (id : NodeId) :
    empty.node? id = if id = 0 then some (Node.fresh 0 .constant 0) else none := by
  simp only [node?, empty, Std.TreeMap.getElem?_insert, Std.compare_eq_iff_eq]
  split <;> split <;> simp_all

theorem kind?_empty (id : NodeId) : empty.kind? id = if id = 0 then some .constant else none := by
  rw [kind?, node?_empty]
  split <;> rfl

theorem not_feeds_empty (source consumer : NodeId) : ¬ empty.Feeds source consumer := by
  intro hfeeds
  obtain ⟨kind, h, e, he, _⟩ := hfeeds
  rw [kind?_empty] at h
  split at h
  · obtain rfl := Option.some.inj h
    cases he
  · cases h

theorem not_lists_empty (source consumer : NodeId) : ¬ empty.Lists source consumer := by
  intro hlists
  obtain ⟨n, h, hmem⟩ := hlists
  rw [node?_empty] at h
  split at h
  · obtain rfl := Option.some.inj h
    simp [Node.fresh] at hmem
  · cases h

/-- A circuit starts with the constant and nothing else. -/
theorem wellFormed_empty : empty.WellFormed := by
  refine ⟨⟨?_, ?_, List.Pairwise.nil, ?_, List.Pairwise.nil, ?_, ?_⟩, ?_, ?_⟩
  · intro id n h
    rw [node?_empty] at h
    split at h
    · next hzero =>
      obtain rfl := Option.some.inj h
      exact hzero.symm
    · cases h
  · intro id
    rw [kind?_empty]
    split <;> simp_all
  · intro id
    rw [kind?_empty]
    split <;> simp [empty]
  · intro id
    rw [kind?_empty]
    split <;> simp [empty]
  · intro id kind h _
    rw [kind?_empty] at h
    split at h
    · next hzero =>
      subst hzero
      exact UInt64.le_refl 0
    · cases h
  · intro id kind h e he
    exact absurd ⟨kind, h, e, he, rfl⟩ (not_feeds_empty e.node id)
  · intro source consumer
    exact iff_of_false (not_feeds_empty source consumer) (not_lists_empty source consumer)

end Circuit

end AndInverter
