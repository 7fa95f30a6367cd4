import AndInverter.Proofs.LiveOrder

open Relation

namespace AndInverter

/-- The frame is about the same node, which has another id in the other circuit. -/
def Frame.Relabeled (label : NodeId → NodeId) : Frame → Frame → Prop
  | .enter e depth, .enter e' depth' => e'.node = label e.node ∧ depth' = depth
  | .leave n _ _, .leave n' _ _ => n'.id = label n.id
  | _, _ => False

namespace Circuit

/-- The live nodes of the first circuit stand in the second one under other ids. A node that is
    read keeps its id, so that kinds are the same. -/
structure Relabeled (label : NodeId → NodeId) (c d : Circuit) : Prop where
  outputs : d.outputs = c.outputs.map label
  injective : ∀ {a b}, c.Live a → c.Live b → label a = label b → a = b
  label_of_feeds : ∀ {source consumer}, c.Feeds source consumer → label source = source
  kind? : ∀ {id}, c.Live id → d.kind? (label id) = c.kind? id

variable {c d : Circuit} {label : NodeId → NodeId}

theorem Frame.relabeled_map_enter {edges : List Edge} (depth : Nat)
    (hfixed : ∀ e ∈ edges, label e.node = e.node) :
    List.Forall₂ (Frame.Relabeled label) (edges.map (.enter · depth))
      (edges.map (.enter · depth)) := by
  induction edges with
  | nil => exact .nil
  | cons e edges ih =>
    refine .cons ⟨(hfixed e List.mem_cons_self).symm, rfl⟩ (ih fun other hother => ?_)
    exact hfixed other (List.mem_cons_of_mem e hother)

theorem Frame.relabeled_leave_iff {n : Node} {depth : Nat} {inverted : Bool} {frame : Frame} :
    Frame.Relabeled label (.leave n depth inverted) frame ↔
      ∃ n' depth' inverted', frame = .leave n' depth' inverted' ∧ n'.id = label n.id := by
  cases frame <;> simp [Frame.Relabeled]

theorem Frame.relabeled_enter_iff {e : Edge} {depth : Nat} {frame : Frame} :
    Frame.Relabeled label (.enter e depth) frame ↔
      ∃ e', frame = .enter e' depth ∧ e'.node = label e.node := by
  cases frame <;> simp [Frame.Relabeled, and_comm]

/-- The walk that collects nodes wants the fanins of each node. -/
theorem below_collector (n : Node) (depth : Nat) (ids : List NodeId) :
    below (c.next .fanin) (collector.descend n depth ids).1 n = .ok n.fanins := rfl

theorem explore_collector_again {e : Edge} {depth : Nat} {rest : List Frame}
    {w : Walk (List NodeId)} {n : Node} (hn : c.node? e.node = some n) (hmem : e.node ∈ w.reached) :
    c.explore (c.next .fanin) collector (.enter e depth :: rest) w =
      c.explore (c.next .fanin) collector rest w := explore_again hn hmem

theorem explore_collector_fresh {e : Edge} {depth : Nat} {rest : List Frame}
    {w : Walk (List NodeId)} {n : Node} (hn : c.node? e.node = some n) (hmem : e.node ∉ w.reached) :
    c.explore (c.next .fanin) collector (.enter e depth :: rest) w =
      c.explore (c.next .fanin) collector
        (n.fanins.map (.enter · (depth + 1)) ++ .leave n depth e.inverted :: rest)
        ⟨w.reached.insert e.node, w.state⟩ :=
  explore_fresh hn hmem (below_collector n depth w.state)

theorem Relabeled.exists_node? (h : c.Relabeled label d) {id : NodeId} {n : Node}
    (hlive : c.Live id) (hn : c.node? id = some n) :
    ∃ n', d.node? (label id) = some n' ∧ n'.kind = n.kind :=
  kind?_eq_some_iff.1 ((h.kind? hlive).trans (kind?_of_node? hn))

/-- What is below a live node is live. -/
theorem live_of_mem_below {id : NodeId} {n : Node} {depth depth' : Nat} {inverted : Bool}
    {rest : List Frame} (hn : c.node? id = some n) (hid : n.id = id) (hlive : c.Live id)
    (hrest : ∀ frame ∈ rest, c.Live frame.target) :
    ∀ frame ∈ n.fanins.map (.enter · depth') ++ .leave n depth inverted :: rest,
      c.Live frame.target := by
  intro frame hframe
  obtain hentered | hframe := List.mem_append.1 hframe
  · obtain ⟨child, hchild, rfl⟩ := List.mem_map.1 hentered
    exact hlive.of_feeds ⟨n.kind, kind?_of_node? hn, child, hchild, rfl⟩
  · obtain rfl | hframe := List.mem_cons.1 hframe
    · rw [Frame.target, hid]
      exact hlive
    · exact hrest frame hframe

/-- The walks have reached the same live nodes, and have left the same nodes. -/
structure Abreast (label : NodeId → NodeId) (c : Circuit) (w w' : Walk (List NodeId)) : Prop where
  reached : ∀ id, c.Live id → (label id ∈ w'.reached ↔ id ∈ w.reached)
  state : w'.state = w.state.map label

theorem Abreast.mem_iff_contains {w w' : Walk (List NodeId)} (h : Abreast label c w w')
    {id : NodeId} (hlive : c.Live id) : label id ∈ w'.reached ↔ w.reached.contains id = true := by
  rw [Std.TreeSet.contains_iff_mem]
  exact h.reached id hlive

theorem Relabeled.abreast_insert (h : c.Relabeled label d) {w w' : Walk (List NodeId)}
    (habreast : Abreast label c w w') {id : NodeId} (hlive : c.Live id) :
    Abreast label c ⟨w.reached.insert id, w.state⟩ ⟨w'.reached.insert (label id), w'.state⟩ := by
  refine ⟨fun other hother => ?_, habreast.state⟩
  simp only [Std.TreeSet.mem_insert, Std.compare_eq_iff_eq, habreast.reached other hother]
  exact or_congr_left ⟨h.injective hlive hother, congrArg label⟩

/-- Where one walk meets a live node again, the other one does too. -/
theorem Relabeled.explore_again (h : c.Relabeled label d) {w w' : Walk (List NodeId)}
    (habreast : Abreast label c w w') {e e' : Edge} {depth : Nat} {rest : List Frame} {n : Node}
    (hlive : c.Live e.node) (hnode : e'.node = label e.node) (hn : c.node? e.node = some n)
    (hmem : w.reached.contains e.node = true) :
    d.explore (d.next .fanin) collector (.enter e' depth :: rest) w' =
      d.explore (d.next .fanin) collector rest w' := by
  obtain ⟨n', hn', _⟩ := h.exists_node? hlive hn
  rw [← hnode] at hn'
  have hmem' : e'.node ∈ w'.reached := hnode ▸ (habreast.mem_iff_contains hlive).2 hmem
  exact explore_collector_again hn' hmem'

/-- Where one walk enters a live node, the other one does too, with the same fanins to follow. -/
theorem Relabeled.explore_fresh (h : c.Relabeled label d)
    (hd : ∀ {id n}, d.node? id = some n → n.id = id) {w w' : Walk (List NodeId)}
    (habreast : Abreast label c w w') {e e' : Edge} {n : Node} (hlive : c.Live e.node)
    (hnode : e'.node = label e.node) (hn : c.node? e.node = some n)
    (hmem : ¬ w.reached.contains e.node = true) (depth : Nat) (rest : List Frame) :
    ∃ n', n'.id = label e.node ∧ d.explore (d.next .fanin) collector (.enter e' depth :: rest) w' =
      d.explore (d.next .fanin) collector
        (n.fanins.map (.enter · (depth + 1)) ++ .leave n' depth e'.inverted :: rest)
        ⟨w'.reached.insert (label e.node), w'.state⟩ := by
  obtain ⟨n', hn', hkind⟩ := h.exists_node? hlive hn
  have hfanins : n'.fanins = n.fanins := by rw [Node.fanins, Node.fanins, hkind]
  have hid : n'.id = label e.node := hd hn'
  rw [← hnode] at hn'
  have hmem' : e'.node ∉ w'.reached := hnode ▸ mt (habreast.mem_iff_contains hlive).1 hmem
  have hrun : d.explore (d.next .fanin) collector (.enter e' depth :: rest) w' = _ :=
    explore_collector_fresh hn' hmem'
  rw [hfanins, hnode] at hrun
  exact ⟨n', hid, hrun⟩

/-- Walks through the two circuits go the same way, and leave the nodes in the same order. -/
theorem Relabeled.explore (h : c.Relabeled label d)
    (hc : ∀ {id n}, c.node? id = some n → n.id = id)
    (hd : ∀ {id n}, d.node? id = some n → n.id = id) {frames : List Frame}
    {w v : Walk (List NodeId)} (hlive : ∀ frame ∈ frames, c.Live frame.target)
    (hrun : c.explore (c.next .fanin) collector frames w = .ok () v) :
    ∀ (frames' : List Frame) (w' : Walk (List NodeId)),
      List.Forall₂ (Frame.Relabeled label) frames frames' → Abreast label c w w' →
      ∃ v', d.explore (d.next .fanin) collector frames' w' = .ok () v' ∧
        v'.state = v.state.map label := by
  fun_induction c.explore (c.next .fanin) collector frames w with
  | case1 w =>
    intro frames' w' hframes habreast
    cases hframes
    cases hrun
    exact ⟨w', by rw [Circuit.explore], habreast.state⟩
  | case2 n depth inverted rest w ih =>
    intro frames' w' hframes habreast
    obtain ⟨frame', rest', hframe, hrest, rfl⟩ := List.forall₂_cons_left_iff.1 hframes
    obtain ⟨n', depth', inverted', rfl, hlabel⟩ := Frame.relabeled_leave_iff.1 hframe
    rw [Circuit.explore]
    refine ih (fun frame hmem => hlive frame (List.mem_cons_of_mem _ hmem)) hrun rest' _ hrest
      ⟨habreast.reached, ?_⟩
    simp [collector, Visitor.ordered, habreast.state, hlabel]
  | case3 e depth rest w hnode => cases hrun
  | case4 e depth rest w n hn hmem ih =>
    intro frames' w' hframes habreast
    obtain ⟨frame', rest', hframe, hrest, rfl⟩ := List.forall₂_cons_left_iff.1 hframes
    obtain ⟨e', rfl, hnode⟩ := Frame.relabeled_enter_iff.1 hframe
    have hlives : c.Live e.node := hlive _ List.mem_cons_self
    rw [h.explore_again habreast hlives hnode hn hmem]
    exact ih (fun frame hframe => hlive frame (List.mem_cons_of_mem _ hframe)) hrun rest' _ hrest
      habreast
  | case5 e depth rest w n hn hmem asked failure hfailure => cases hrun
  | case6 e depth rest w n hn hmem asked children hchildren ih =>
    intro frames' w' hframes habreast
    obtain ⟨frame', rest', hframe, hrest, rfl⟩ := List.forall₂_cons_left_iff.1 hframes
    obtain ⟨e', rfl, hnode⟩ := Frame.relabeled_enter_iff.1 hframe
    have hlives : c.Live e.node := hlive _ List.mem_cons_self
    obtain rfl : n.fanins = children :=
      Except.ok.inj ((below_collector n depth w.state).symm.trans hchildren)
    obtain ⟨n', hid, hrun'⟩ := h.explore_fresh hd habreast hlives hnode hn hmem depth rest'
    have hfixed : ∀ child ∈ n.fanins, label child.node = child.node := fun child hchild =>
      h.label_of_feeds ⟨n.kind, kind?_of_node? hn, child, hchild, rfl⟩
    rw [hrun']
    refine ih (live_of_mem_below hn (hc hn) hlives fun frame hframe => ?_) hrun _ _ ?_
      (h.abreast_insert habreast hlives)
    · exact hlive frame (List.mem_cons_of_mem _ hframe)
    · rw [← hc hn] at hid
      exact List.rel_append (Frame.relabeled_map_enter _ hfixed) (.cons hid hrest)

/-- The live nodes of the two circuits are listed in the same order. -/
theorem Relabeled.liveOrder (h : c.Relabeled label d) (hc : c.WellFormed)
    (hd : ∀ {id n}, d.node? id = some n → n.id = id) {order : List NodeId}
    (horder : c.liveOrder = .ok order) : d.liveOrder = .ok (order.map label) := by
  unfold Circuit.liveOrder at horder ⊢
  cases hrun : c.walk .fanin collector (c.outputs.map (⟨·, false⟩)) [] with
  | error failure w =>
    rw [hrun] at horder
    cases horder
  | ok _ w =>
    rw [hrun] at horder
    obtain rfl := Except.ok.inj horder
    have hlive : ∀ frame ∈ (c.outputs.map (⟨·, false⟩ : NodeId → Edge)).map (Frame.enter · 0),
        c.Live frame.target := by
      intro frame hframe
      simp only [List.map_map, List.mem_map, Function.comp_apply] at hframe
      obtain ⟨output, houtput, rfl⟩ := hframe
      exact ⟨output, houtput, ReflTransGen.refl⟩
    obtain ⟨v, hwalk, hstate⟩ := h.explore hc.own_id hd hlive hrun
      ((d.outputs.map (⟨·, false⟩ : NodeId → Edge)).map (Frame.enter · 0)) ⟨∅, []⟩ (by
        rw [h.outputs]
        simp only [List.map_map, List.forall₂_map_left_iff, List.forall₂_map_right_iff]
        exact List.forall₂_same.2 fun output _ => ⟨rfl, rfl⟩) ⟨by simp [Walk.unmarked], rfl⟩
    have hwalk : d.walk .fanin collector (d.outputs.map (⟨·, false⟩)) [] = .ok () v := hwalk
    rw [hwalk]
    simp [hstate]

end Circuit

end AndInverter
