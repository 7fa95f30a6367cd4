import AndInverter.Circuit.Audit
import AndInverter.Proofs.DepthFirst
import AndInverter.Proofs.Sequencing

open Relation

namespace AndInverter.Circuit

variable {c : Circuit}

/-- Each node stands under its own id, the constant alone has id zero, both records of every edge
    are there, outputs are not read, and the lists name inputs and outputs. -/
structure Consistent (c : Circuit) : Prop where
  own_id : ∀ {id n}, c.node? id = some n → n.id = id
  constant_iff : ∀ {id n}, c.node? id = some n → (n.kind = .constant ↔ id = 0)
  fanin : ∀ {id n}, c.node? id = some n → ∀ e ∈ n.fanins, ∃ source,
    c.node? e.node = some source ∧ source.kind.isOutput = false ∧ id ∈ source.fanouts
  unread : ∀ {id n}, c.node? id = some n → n.kind.isOutput = true → n.fanouts.isEmpty = true
  fanout : ∀ {id n}, c.node? id = some n → ∀ consumer ∈ n.fanouts, ∃ reader,
    c.node? consumer = some reader ∧ ∃ e ∈ reader.fanins, e.node = id
  inputs : ∀ id ∈ c.inputs, ∃ inverted, c.kind? id = some (.input inverted)
  outputs : ∀ id ∈ c.outputs, ∃ fanin, c.kind? id = some (.output fanin)

theorem Consistent.isSome_fanins (hc : c.Consistent) {id : NodeId} {n : Node}
    (hn : c.node? id = some n) : ∀ e ∈ n.fanins, (c.kind? e.node).isSome = true := by
  intro e he
  obtain ⟨source, hsource, _⟩ := hc.fanin hn e he
  simp [kind?_of_node? hsource]

/-- Beyond consistency, the operations keep the lists sorted and complete, and the bound on ids. -/
theorem WellFormed.consistent (hc : c.WellFormed) : c.Consistent where
  own_id hn := hc.own_id hn
  constant_iff {id n} hn := by
    rw [← hc.constant_iff, kind?_of_node? hn, Option.some.injEq]
  fanin {id n} hn e he := by
    have hkind := kind?_of_node? hn
    obtain ⟨kind, hsource, houtput⟩ := hc.fanin hkind e he
    obtain ⟨source, hfound, rfl⟩ := kind?_eq_some_iff.1 hsource
    have hlists := hc.mirror.1 ⟨n.kind, hkind, e, he, rfl⟩
    exact ⟨source, hfound, houtput, (lists_iff_mem hfound id).1 hlists⟩
  unread {id n} hn houtput := by
    rw [Std.TreeSet.isEmpty_iff_forall_not_mem]
    intro consumer hmem
    obtain ⟨kind, hconsumer, e, he, rfl⟩ := hc.mirror.2 ⟨n, hn, hmem⟩
    obtain ⟨source, hsource, hnot⟩ := hc.fanin hconsumer e he
    obtain rfl := Option.some.inj ((kind?_of_node? hn).symm.trans hsource)
    rw [houtput] at hnot
    cases hnot
  fanout {id n} hn consumer hmem := by
    obtain ⟨kind, hconsumer, hreads⟩ := hc.mirror.2 ⟨n, hn, hmem⟩
    obtain ⟨reader, hreader, rfl⟩ := kind?_eq_some_iff.1 hconsumer
    exact ⟨reader, hreader, hreads⟩
  inputs _ hid := hc.mem_inputs.1 hid
  outputs _ hid := hc.mem_outputs.1 hid

/-- What the search for cycles knows at any time. -/
structure SearchingCycles (c : Circuit) (frames : List Frame) (w : Walk CycleSearch) : Prop where
  exploring : ∃ finished, c.Exploring c.ids frames w.reached finished (w.state.cycle = none)
  entered : ∀ id, id ∈ w.state.entered ↔ id ∈ Frame.path frames
  found : ∀ id, w.state.cycle = some id → TransGen c.Feeds id id

namespace SearchingCycles

variable {rest : List Frame} {w : Walk CycleSearch}

/-- A node that is left is no longer among those entered. -/
theorem leave {n : Node} {depth : Nat} {inverted : Bool}
    (h : c.SearchingCycles (.leave n depth inverted :: rest) w) :
    c.SearchingCycles rest
      { w with state := cycleFinder.leave ⟨n, depth, inverted, false⟩ w.state } := by
  obtain ⟨finished, hexploring⟩ := h.exploring
  refine ⟨⟨_, hexploring.leave⟩, fun id => ?_, h.found⟩
  have hpath := List.nodup_cons.1 hexploring.path_nodup
  change id ∈ w.state.entered.erase n.id ↔ _
  rw [Std.TreeSet.mem_erase, h.entered, Frame.path, List.mem_cons, ne_eq, Std.compare_eq_iff_eq]
  constructor
  · rintro ⟨hne, rfl | hmem⟩
    · exact absurd rfl hne
    · exact hmem
  · refine fun hmem => ⟨?_, .inr hmem⟩
    rintro rfl
    exact hpath.1 hmem

/-- A node that is met again lies on a cycle exactly if it is on the path. The first such one is
    kept. -/
theorem again (hc : c.Consistent) {e : Edge} {depth : Nat} {n : Node}
    (h : c.SearchingCycles (.enter e depth :: rest) w) (hn : c.node? e.node = some n)
    (hmem : e.node ∈ w.reached) :
    c.SearchingCycles rest
      { w with state := cycleFinder.again ⟨n, depth, e.inverted, true⟩ w.state } := by
  obtain ⟨finished, hexploring⟩ := h.exploring
  have hid : n.id = e.node := hc.own_id hn
  have hentered : w.state.entered.contains n.id = true ↔ e.node ∈ Frame.path rest := by
    rw [Std.TreeSet.contains_iff_mem, hid, h.entered, Frame.path]
  unfold cycleFinder
  dsimp only
  by_cases hfound : (w.state.cycle.isNone && w.state.entered.contains n.id) = true
  · rw [if_pos hfound]
    rw [Bool.and_eq_true, hentered] at hfound
    refine ⟨⟨finished, hexploring.again hmem fun hnone => absurd hnone (Option.some_ne_none _)⟩,
      h.entered, fun id hcycle => ?_⟩
    obtain rfl := Option.some.inj hcycle
    rw [hid]
    exact hexploring.hangs.transGen hfound.2
  · rw [if_neg hfound]
    refine ⟨⟨finished, hexploring.again hmem fun hnone => ⟨hnone, fun hpath => hfound ?_⟩⟩,
      h.entered, h.found⟩
    rw [Bool.and_eq_true, hentered]
    exact ⟨Option.isNone_iff_eq_none.2 hnone, hpath⟩

/-- A node that is met for the first time comes onto the path. -/
theorem fresh (hc : c.Consistent) {e : Edge} {depth : Nat} {n : Node}
    (h : c.SearchingCycles (.enter e depth :: rest) w) (hn : c.node? e.node = some n)
    (hmem : e.node ∉ w.reached) :
    c.SearchingCycles
      (n.fanins.reverse.map (.enter · (depth + 1)) ++ .leave n depth e.inverted :: rest)
      ⟨w.reached.insert e.node, cycleFinder.enter ⟨n, depth, e.inverted, false⟩ w.state⟩ := by
  obtain ⟨finished, hexploring⟩ := h.exploring
  have hid : n.id = e.node := hc.own_id hn
  refine ⟨⟨finished, hexploring.fresh hmem (kind?_of_node? hn) hid (fun _ => List.mem_reverse)
    (hc.isSome_fanins hn)⟩, fun id => ?_, h.found⟩
  change id ∈ w.state.entered.insert n.id ↔ _
  rw [Std.TreeSet.mem_insert, Std.compare_eq_iff_eq, h.entered, Frame.path_entered, Frame.path,
    List.mem_cons, eq_comm]

/-- The search starts at all nodes, with nothing entered. -/
theorem start : c.SearchingCycles (c.ids.map fun id => .enter ⟨id, false⟩ 0) ⟨∅, ∅, none⟩ := by
  have hpresent : ∀ e ∈ c.ids.map (⟨·, false⟩ : NodeId → Edge),
      (c.kind? e.node).isSome = true := by
    intro e he
    obtain ⟨id, hid, rfl⟩ := List.mem_map.1 he
    exact mem_ids.1 hid
  have hexploring := fun quiet : Prop => (Exploring.start hpresent : c.Exploring _ _ _ _ quiet)
  have hpath := Frame.path_map_enter_append (c.ids.map (⟨·, false⟩)) 0 []
  simp only [List.map_map, Function.comp_def, List.map_id', List.append_nil] at hexploring hpath
  refine ⟨⟨[], hexploring _⟩, fun id => ?_, nofun⟩
  rw [hpath]
  simp [Frame.path]

/-- The search comes to an end in any consistent circuit. -/
theorem exists_explore (hc : c.Consistent) {frames : List Frame}
    (h : c.SearchingCycles frames w) :
    ∃ w', c.explore (fun n => .ok n.fanins.reverse) cycleFinder frames w = .ok () w' ∧
      c.SearchingCycles [] w' := by
  refine explore_induction (P := fun frames w => c.SearchingCycles frames w) rfl ?_ ?_ ?_ ?_ h
  · exact fun n depth inverted rest w h => h.leave
  · intro e depth rest w h
    obtain ⟨finished, hexploring⟩ := h.exploring
    obtain ⟨kind, hkind⟩ := Option.isSome_iff_exists.1
      (hexploring.present e.node List.mem_cons_self)
    obtain ⟨n, hn, _⟩ := kind?_eq_some_iff.1 hkind
    exact ⟨n, hn⟩
  · exact fun e depth rest w n h hn hmem => h.again hc hn hmem
  · exact fun e depth rest w n h hn hmem => ⟨n.fanins.reverse, rfl, h.fresh hc hn hmem⟩

end SearchingCycles

/-- A list of all nodes that is topological shows that there is no cycle. -/
theorem Topological.acyclic {ids : List NodeId} (h : c.Topological ids) (hnodup : ids.Nodup)
    (hall : ∀ id, (c.kind? id).isSome = true → id ∈ ids) : c.Acyclic := by
  intro id hcycle
  obtain ⟨_, _, hfeeds⟩ := TransGen.tail'_iff.1 hcycle
  exact h.not_cyclic hnodup (hall id hfeeds.isSome) hcycle

/-- The search for cycles finds one if there is one, and names a node on it. A node that is read
    along several paths is met again only after it has been left. -/
theorem Consistent.auditCycles_cases (hc : c.Consistent) :
    c.auditCycles = .ok () ∧ c.Acyclic ∨
      ∃ id, c.auditCycles = .error (.invalid (.cyclic id)) ∧ TransGen c.Feeds id id := by
  obtain ⟨w, hexplore, hdone⟩ := SearchingCycles.start.exists_explore hc
  obtain ⟨finished, hexploring⟩ := hdone.exploring
  unfold auditCycles
  simp only [hexplore]
  cases hcycle : w.state.cycle with
  | some id => exact .inr ⟨id, rfl, hdone.found id hcycle⟩
  | none =>
    refine .inl ⟨rfl, (hexploring.topological hcycle).acyclic hexploring.nodup fun id hid => ?_⟩
    exact hexploring.mem_finished_iff.2 ⟨id, mem_ids.2 hid, ReflTransGen.refl⟩

/-- All checks but the search for cycles. -/
def auditLocally (c : Circuit) : Except Error Unit := do
  c.nodes.toList.forM fun (key, n) => do
    unless n.id = key do throw (.invalid (.misplaced key n.id))
    c.auditNode n
  c.inputs.forM fun id =>
    if (c.node? id).any (·.kind.isInput) then .ok () else .error (.invalid (.notAnInput id))
  c.outputs.forM fun id =>
    if (c.node? id).any (·.kind.isOutput) then .ok () else .error (.invalid (.notAnOutput id))

theorem audit_eq (c : Circuit) : c.audit = (do c.auditLocally; c.auditCycles) := by
  unfold audit auditLocally
  simp only [bind_assoc]

theorem auditEdge_eq_ok_iff {consumer : NodeId} {e : Edge} :
    c.auditEdge consumer e = .ok () ↔ ∃ source, c.node? e.node = some source ∧
      source.kind.isOutput = false ∧ consumer ∈ source.fanouts := by
  unfold auditEdge
  cases c.node? e.node with
  | none => simp
  | some source => cases hkind : source.kind.isOutput <;> simp [hkind]

theorem auditFanout_eq_ok_iff {id consumer : NodeId} :
    c.auditFanout id consumer = .ok () ↔
      ∃ reader, c.node? consumer = some reader ∧ ∃ e ∈ reader.fanins, e.node = id := by
  unfold auditFanout
  cases c.node? consumer <;> simp [Node.reads]

/-- The checks for one node, each for itself. -/
theorem auditNode_eq_ok_iff {n : Node} :
    c.auditNode n = .ok () ↔ (n.kind = .constant ↔ n.id = 0) ∧
      (∀ e ∈ n.fanins, c.auditEdge n.id e = .ok ()) ∧
      (n.kind.isOutput = true → n.fanouts.isEmpty = true) ∧
      ∀ consumer ∈ n.fanouts, c.auditFanout n.id consumer = .ok () := by
  have hconstant : n.kind = .constant ↔ n.kind.isConstant = true := by
    cases n.kind <;> simp [Kind.isConstant]
  have hfanouts : n.fanouts.toList.forM (c.auditFanout n.id) = .ok () ↔
      ∀ consumer ∈ n.fanouts, c.auditFanout n.id consumer = .ok () := by
    simp only [except_forM_eq_ok_iff, Std.TreeSet.mem_toList]
  have hunread : (n.kind.isOutput && !n.fanouts.isEmpty) = false ↔
      (n.kind.isOutput = true → n.fanouts.isEmpty = true) := by
    rw [Bool.and_eq_false_imp, Bool.not_eq_false']
  rw [hconstant, ← hfanouts, ← except_forM_eq_ok_iff, ← hunread]
  unfold auditNode
  cases hkind : n.kind.isConstant <;> by_cases hid : n.id = 0 <;>
    cases hread : n.kind.isOutput && !n.fanouts.isEmpty <;>
      simp [hid, except_throw_bind, except_seq_eq_ok_iff]

/-- The checks node by node and list by list together say that the circuit is consistent. -/
theorem auditLocally_eq_ok_iff : c.auditLocally = .ok () ↔ c.Consistent := by
  have hinput : ∀ id, (c.node? id).any (·.kind.isInput) = true ↔
      ∃ inverted, c.kind? id = some (.input inverted) := by
    intro id
    unfold kind?
    cases c.node? id with
    | none => simp
    | some n => cases hkind : n.kind <;> simp [hkind, Kind.isInput]
  have houtput : ∀ id, (c.node? id).any (·.kind.isOutput) = true ↔
      ∃ fanin, c.kind? id = some (.output fanin) := by
    intro id
    unfold kind?
    cases c.node? id with
    | none => simp
    | some n => simp [Kind.isOutput_iff]
  have hnode : ∀ key n, (do
      unless n.id = key do throw (Error.invalid (.misplaced key n.id))
      c.auditNode n) = .ok () ↔ n.id = key ∧ c.auditNode n = .ok () := by
    intro key n
    by_cases hid : n.id = key <;> simp [hid, except_throw_bind]
  unfold auditLocally
  simp only [except_seq_eq_ok_iff, except_forM_eq_ok_iff, hnode, Prod.forall,
    Std.TreeMap.mem_toList_iff_getElem?_eq_some, ite_eq_left_iff, reduceCtorEq, imp_false,
    not_not, hinput, houtput, auditNode_eq_ok_iff, auditEdge_eq_ok_iff, auditFanout_eq_ok_iff]
  constructor
  · rintro ⟨hnodes, hinputs, houtputs⟩
    have hown : ∀ {id n}, c.node? id = some n → n.id = id := fun hn => (hnodes _ _ hn).1
    refine ⟨hown, ?_, ?_, fun hn => (hnodes _ _ hn).2.2.2.1, ?_, hinputs, houtputs⟩
    · exact fun hn => hown hn ▸ (hnodes _ _ hn).2.1
    · exact fun hn => hown hn ▸ (hnodes _ _ hn).2.2.1
    · exact fun hn => hown hn ▸ (hnodes _ _ hn).2.2.2.2
  · intro h
    refine ⟨fun id n hn => ?_, h.inputs, h.outputs⟩
    rw [h.own_id hn]
    exact ⟨rfl, h.constant_iff hn, h.fanin hn, h.unread hn, h.fanout hn⟩

section Blame

variable {n : Node} {id : NodeId}

theorem auditEdge_ne_cyclic (consumer : NodeId) (e : Edge) :
    c.auditEdge consumer e ≠ .error (.invalid (.cyclic id)) := by
  unfold auditEdge
  split
  · simp
  · split
    · simp
    · split <;> simp

theorem auditFanout_ne_cyclic (source consumer : NodeId) :
    c.auditFanout source consumer ≠ .error (.invalid (.cyclic id)) := by
  unfold auditFanout
  split
  · simp
  · split <;> simp

theorem auditNode_ne_cyclic : c.auditNode n ≠ .error (.invalid (.cyclic id)) := by
  have hedges : n.fanins.forM (c.auditEdge n.id) ≠ .error (.invalid (.cyclic id)) :=
    except_forM_ne_error fun e _ => auditEdge_ne_cyclic n.id e
  have hfanouts : n.fanouts.toList.forM (c.auditFanout n.id) ≠ .error (.invalid (.cyclic id)) :=
    except_forM_ne_error fun consumer _ => auditFanout_ne_cyclic n.id consumer
  intro h
  unfold auditNode at h
  cases hkind : n.kind.isConstant <;> by_cases hid : n.id = 0 <;>
    cases hread : n.kind.isOutput && !n.fanouts.isEmpty <;>
      simp_all [except_throw_bind, except_bind_eq_error_iff]

/-- A cycle is blamed by the search for cycles alone. -/
theorem auditLocally_ne_cyclic : c.auditLocally ≠ .error (.invalid (.cyclic id)) := by
  intro h
  unfold auditLocally at h
  simp only [except_bind_eq_error_iff] at h
  obtain hfails | ⟨_, _, hfails | ⟨_, _, hfails⟩⟩ := h
  · refine except_forM_ne_error (fun (key, n) _ => ?_) hfails
    by_cases hid : n.id = key
    · simpa [hid] using auditNode_ne_cyclic
    · simp [hid, except_throw_bind]
  · refine except_forM_ne_error (fun id _ => ?_) hfails
    split <;> simp
  · refine except_forM_ne_error (fun id _ => ?_) hfails
    split <;> simp

end Blame

/-- The audit accepts the consistent circuits without cycles. -/
theorem audit_eq_ok_iff : c.audit = .ok () ↔ c.Consistent ∧ c.Acyclic := by
  rw [audit_eq, except_seq_eq_ok_iff, auditLocally_eq_ok_iff]
  refine and_congr_right fun hc => ?_
  obtain ⟨hok, hacyclic⟩ | ⟨id, hcycle, hid⟩ := hc.auditCycles_cases
  · exact iff_of_true hok hacyclic
  · refine iff_of_false (fun hok => ?_) fun hacyclic => hacyclic id hid
    cases hok.symm.trans hcycle

/-- In a well-formed circuit the audit has nothing to find but a cycle. -/
theorem WellFormed.audit_eq_ok_iff (hc : c.WellFormed) : c.audit = .ok () ↔ c.Acyclic := by
  rw [Circuit.audit_eq_ok_iff]
  exact and_iff_right hc.consistent

/-- Whatever a circuit holds, the audit accepts it exactly if it is consistent and no node, dead or
    live, depends on itself. It blames a node for a cycle only if the node is on one and all else is
    in order. -/
theorem audit_exact (c : Circuit) :
    (c.audit = .ok () ↔ c.Consistent ∧ c.Acyclic) ∧
      ∀ id, c.audit = .error (.invalid (.cyclic id)) →
        c.Consistent ∧ TransGen c.Feeds id id := by
  refine ⟨audit_eq_ok_iff, fun id h => ?_⟩
  rw [audit_eq, except_bind_eq_error_iff, or_iff_right auditLocally_ne_cyclic] at h
  obtain ⟨_, hlocally, hcycles⟩ := h
  have hc := auditLocally_eq_ok_iff.1 hlocally
  obtain ⟨hok, _⟩ | ⟨other, hother, hcycle⟩ := hc.auditCycles_cases
  · cases hok.symm.trans hcycles
  · cases hother.symm.trans hcycles
    exact ⟨hc, hcycle⟩

/-- Two gates that read each other. Their ids are above the bound, where no session puts them. -/
def knot : Circuit :=
  let node (id other : NodeId) : Node :=
    { Node.fresh id (.gate ⟨other, false⟩ ⟨other, true⟩) 0 with fanouts := {other} }
  { empty with nodes := (empty.nodes.insert 1 (node 1 2)).insert 2 (node 2 1) }

theorem audit_exact_knot :
    knot.audit = .error (.invalid (.cyclic 1)) ∧ knot.Consistent ∧ TransGen knot.Feeds 1 1 := by
  have hblames : knot.audit = .error (.invalid (.cyclic 1)) := by decide +kernel
  exact ⟨hblames, (audit_exact knot).2 1 hblames⟩

end AndInverter.Circuit
