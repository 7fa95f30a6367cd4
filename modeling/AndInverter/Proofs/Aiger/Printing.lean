import AndInverter.Proofs.Aiger.Rendering

namespace AndInverter

theorem except_ok_bind {ε α β : Type} (a : α) (f : α → Except ε β) :
    (Except.ok a >>= f) = f a := rfl

namespace Kind

/-- The line of a node, if it is a gate. -/
def gateLine? (id : NodeId) : Kind → Option Aiger.GateLine
  | gate left right => some ⟨id, left, right⟩
  | _ => none

theorem gateLine?_eq_some_iff {id : NodeId} {kind : Kind} {gate : Aiger.GateLine} :
    kind.gateLine? id = some gate ↔ gate.id = id ∧ kind = .gate gate.left gate.right := by
  cases kind with
  | gate left right =>
    cases gate
    simp [gateLine?]
    grind
  | _ => simp [gateLine?]

end Kind

namespace Circuit

variable (c : Circuit)

/-- The symbols for the names of some inputs or outputs, whose positions count from `position`. -/
def symbolsOf (isInput : Bool) : Nat → List NodeId → List Aiger.Symbol
  | _, [] => []
  | position, id :: ids =>
    ((c.name? id).map (⟨isInput, position, ·⟩)).toList ++ symbolsOf isInput (position + 1) ids

/-- The edge that drives an output. -/
def driver (id : NodeId) : Edge :=
  match c.kind? id with
  | some (.output fanin) => fanin
  | _ => .low

/-- What the printer says of a circuit in which the given nodes are live. -/
def describe (order : List NodeId) : Aiger.Description where
  bound := c.maxVar
  inputs := c.inputs.map fun id => ⟨id, c.kind? id == some (.input true)⟩
  outputs := c.outputs.map c.driver
  gates := order.filterMap fun id => (c.kind? id).bind (Kind.gateLine? id)
  symbols := c.symbolsOf true 0 c.inputs ++ c.symbolsOf false 0 c.outputs

variable {c} {order ids : List NodeId}

/-- The symbol lines of a list of nodes are those of the symbols that it has, numbered from a
    position. -/
theorem symbolTexts_eq {isInput : Bool} {tag : String} (htag : tag = if isInput then "i" else "o")
    (position : Nat) (hids : ∀ id ∈ ids, (c.node? id).isSome = true) :
    Aiger.symbolTexts c tag position ids =
      .ok ((c.symbolsOf isInput position ids).map Aiger.symbolText) := by
  induction ids generalizing position with
  | nil => rfl
  | cons id ids ih =>
    obtain ⟨hid, hids⟩ := List.forall_mem_cons.1 hids
    obtain ⟨n, hn⟩ := Option.isSome_iff_exists.1 hid
    rw [Aiger.symbolTexts, node_eq_ok_iff.2 hn, ih (position + 1) hids, symbolsOf,
      name?_of_node? hn, htag]
    cases hname : n.name <;> simp [Bind.bind, Except.bind, pure, Except.pure, hname, Aiger.symbolText]

theorem inputText_eq {id : NodeId} {inverted : Bool} (hkind : c.kind? id = some (.input inverted)) :
    Aiger.inputText c id =
      .ok (Aiger.literalText ⟨id, c.kind? id == some (.input true)⟩) := by
  obtain ⟨n, hn, hkinds⟩ := kind?_eq_some_iff.1 hkind
  have hinverted : (some (Kind.input inverted) == some (.input true)) = inverted := by
    cases inverted <;> decide
  rw [Aiger.inputText, node_eq_ok_iff.2 hn, hkind, hinverted]
  simp [Bind.bind, Except.bind, hkinds, pure, Except.pure]

theorem driver_eq {id : NodeId} {fanin : Edge} (hkind : c.kind? id = some (.output fanin)) :
    c.driver id = fanin := by
  rw [driver, hkind]

theorem outputFanin_eq {id : NodeId} {fanin : Edge} (hkind : c.kind? id = some (.output fanin)) :
    c.outputFanin id = .ok fanin := by
  obtain ⟨n, hn, hkinds⟩ := kind?_eq_some_iff.1 hkind
  rw [outputFanin, node_eq_ok_iff.2 hn]
  simp [Bind.bind, Except.bind, hkinds, pure, Except.pure]

theorem gateText?_eq (n : Node) :
    Aiger.gateText? n = (n.kind.gateLine? n.id).map Aiger.gateText := by
  unfold Aiger.gateText? Kind.gateLine?
  cases n.kind <;> rfl

theorem IsLiveOrder.mapM_node (hlive : c.IsLiveOrder order) (hc : c.WellFormed) :
    order.mapM c.node = .ok (order.filterMap c.node?) := by
  refine mapM_eq_ok_filterMap fun id hid => ?_
  obtain ⟨kind, hkind⟩ := Option.isSome_iff_exists.1 ((hlive.mem_iff.1 hid).isSome hc)
  obtain ⟨n, hn, _⟩ := kind?_eq_some_iff.1 hkind
  exact ⟨n, node_eq_ok_iff.2 hn, hn⟩

theorem WellFormed.gateTexts_eq (hc : c.WellFormed) : (order.filterMap c.node?).filterMap
    Aiger.gateText? = (c.describe order).gates.map Aiger.gateText := by
  rw [List.filterMap_filterMap, describe, List.map_filterMap]
  refine List.filterMap_congr fun id _ => ?_
  cases hn : c.node? id with
  | none => simp [kind?, hn]
  | some n => simp [kind?, hn, gateText?_eq, hc.own_id hn]

theorem WellFormed.inputTexts_eq (hc : c.WellFormed) (order : List NodeId) :
    c.inputs.mapM (Aiger.inputText c) =
      .ok ((c.describe order).inputs.map Aiger.literalText) := by
  rw [describe, List.map_map, ← List.filterMap_eq_map]
  refine mapM_eq_ok_filterMap fun id hid => ?_
  obtain ⟨inverted, hkind⟩ := hc.mem_inputs.1 hid
  exact ⟨_, inputText_eq hkind, rfl⟩

theorem WellFormed.outputTexts_eq (hc : c.WellFormed) (order : List NodeId) :
    (c.outputs.mapM fun id => do return Aiger.literalText (← c.outputFanin id)) =
      .ok ((c.describe order).outputs.map Aiger.literalText) := by
  rw [describe, List.map_map, ← List.filterMap_eq_map]
  refine mapM_eq_ok_filterMap fun id hid => ?_
  obtain ⟨fanin, hkind⟩ := hc.mem_outputs.1 hid
  refine ⟨Aiger.literalText fanin, ?_, ?_⟩
  · rw [outputFanin_eq hkind]
    rfl
  · simp [driver_eq hkind]

/-- Printing writes the lines of the description. -/
theorem WellFormed.lines_eq (hc : c.WellFormed) (horder : c.liveOrder = .ok order) :
    Aiger.lines c = .ok (c.describe order).texts := by
  have hnodes := (hc.isLiveOrder horder).mapM_node hc
  have hinputs := hc.inputTexts_eq order
  have houtputs := hc.outputTexts_eq order
  have hinputNames : Aiger.symbolTexts c "i" 0 c.inputs =
      .ok ((c.symbolsOf true 0 c.inputs).map Aiger.symbolText) := by
    refine symbolTexts_eq (by rfl) 0 fun id hid => ?_
    obtain ⟨inverted, hkind⟩ := hc.mem_inputs.1 hid
    rw [← isSome_kind?, hkind, Option.isSome_some]
  have houtputNames : Aiger.symbolTexts c "o" 0 c.outputs =
      .ok ((c.symbolsOf false 0 c.outputs).map Aiger.symbolText) := by
    refine symbolTexts_eq (by rfl) 0 fun id hid => ?_
    obtain ⟨fanin, hkind⟩ := hc.mem_outputs.1 hid
    rw [← isSome_kind?, hkind, Option.isSome_some]
  have hcounts : (c.describe order).inputs.length = c.inputs.length ∧
      (c.describe order).outputs.length = c.outputs.length :=
    ⟨List.length_map .., List.length_map ..⟩
  unfold Aiger.lines
  rw [horder]
  simp only [except_ok_bind, hnodes, hinputs, houtputs, hinputNames, houtputNames, hc.gateTexts_eq]
  rw [Aiger.Description.texts, Aiger.Description.headerText, hcounts.1, hcounts.2]
  simp [pure, Except.pure, describe]

/-- What is printed is the description of the circuit, line by line. -/
theorem WellFormed.print_eq (hc : c.WellFormed) (horder : c.liveOrder = .ok order) :
    Aiger.print c = .ok (String.join ((c.describe order).texts.map (· ++ "\n"))) := by
  rw [Aiger.print, hc.lines_eq horder]
  rfl

/-- A node has a symbol if it has a name, under its position in the list. -/
theorem mem_symbolsOf {isInput : Bool} {position : Nat} {symbol : Aiger.Symbol} :
    symbol ∈ c.symbolsOf isInput position ids ↔ ∃ k id name,
      ids[k]? = some id ∧ c.name? id = some name ∧ symbol = ⟨isInput, position + k, name⟩ := by
  induction ids generalizing position with
  | nil => simp [symbolsOf]
  | cons id ids ih =>
    rw [symbolsOf, List.mem_append, ih, Option.mem_toList, Option.map_eq_some_iff]
    constructor
    · intro h
      obtain ⟨name, hname, rfl⟩ | ⟨k, other, name, hother, hname, rfl⟩ := h
      · exact ⟨0, id, name, rfl, hname, rfl⟩
      · exact ⟨k + 1, other, name, hother, hname, by rw [Nat.add_assoc, Nat.add_comm 1 k]⟩
    · intro h
      obtain ⟨k, other, name, hother, hname, rfl⟩ := h
      cases k with
      | zero =>
        obtain rfl := Option.some.inj hother
        exact .inl ⟨name, hname, rfl⟩
      | succ k =>
        exact .inr ⟨k, other, name, hother, hname, by rw [Nat.add_assoc, Nat.add_comm 1 k]⟩

/-- Symbols come in the order of their positions, so no position has two. -/
theorem pairwise_symbolsOf (isInput : Bool) (position : Nat) :
    (c.symbolsOf isInput position ids).Pairwise (·.position < ·.position) := by
  induction ids generalizing position with
  | nil => exact .nil
  | cons id ids ih =>
    rw [symbolsOf, List.pairwise_append]
    refine ⟨by cases c.name? id <;> simp, ih (position + 1), fun first hfirst second hsecond => ?_⟩
    obtain ⟨k, _, _, _, _, rfl⟩ := mem_symbolsOf.1 hsecond
    rw [Option.mem_toList, Option.map_eq_some_iff] at hfirst
    obtain ⟨_, _, rfl⟩ := hfirst
    dsimp only
    omega

/-- Symbols at different positions name different nodes. -/
theorem nodup_targets {isInput : Bool} {labels : List NodeId} (hlabels : labels.Nodup)
    (hlength : ids.length ≤ labels.length) :
    ((c.symbolsOf isInput 0 ids).map fun symbol => labels[symbol.position]?).Nodup := by
  rw [List.Nodup, List.pairwise_map]
  refine (pairwise_symbolsOf isInput 0).imp_of_mem fun {first second} hfirst _ hlt heq => ?_
  obtain ⟨k, _, _, hk, _, rfl⟩ := mem_symbolsOf.1 hfirst
  have hk := (List.getElem?_eq_some_iff.1 hk).1
  dsimp only at hlt heq
  rw [Nat.zero_add] at hlt heq
  have hsame := (List.getElem?_inj (by omega) hlabels).1 heq
  omega

theorem inputIds_describe : (c.describe order).inputIds = c.inputs := by
  simp [Aiger.Description.inputIds, describe, Function.comp_def]

theorem outputIds_describe : (c.describe order).outputIds =
    (List.range c.outputs.length).map (Aiger.outputId c.maxVar) := by
  simp [Aiger.Description.outputIds, describe]

/-- The input lines are those of all inputs, whether or not anything reads them. -/
theorem WellFormed.mem_inputs_describe (hc : c.WellFormed) {e : Edge} :
    e ∈ (c.describe order).inputs ↔ c.kind? e.node = some (.input e.inverted) := by
  have hpolarity : ∀ {id inverted}, c.kind? id = some (.input inverted) →
      (c.kind? id == some (.input true)) = inverted := by
    intro id inverted hkind
    rw [hkind]
    cases inverted <;> decide
  rw [describe, List.mem_map]
  constructor
  · intro h
    obtain ⟨id, hid, rfl⟩ := h
    obtain ⟨inverted, hkind⟩ := hc.mem_inputs.1 hid
    rw [hpolarity hkind]
    exact hkind
  · intro h
    refine ⟨e.node, hc.mem_inputs.2 ⟨_, h⟩, ?_⟩
    rw [hpolarity h]

/-- The output line at a position is that of the output at this position. -/
theorem WellFormed.getElem?_outputs_describe (hc : c.WellFormed) {position : Nat} {e : Edge} :
    (c.describe order).outputs[position]? = some e ↔
      ∃ id, c.outputs[position]? = some id ∧ c.kind? id = some (.output e) := by
  rw [describe, List.getElem?_map, Option.map_eq_some_iff]
  constructor
  · intro h
    obtain ⟨id, hid, rfl⟩ := h
    obtain ⟨fanin, hkind⟩ := hc.mem_outputs.1 (List.mem_of_getElem? hid)
    exact ⟨id, hid, (driver_eq hkind).symm ▸ hkind⟩
  · intro h
    obtain ⟨id, hid, hkind⟩ := h
    exact ⟨id, hid, driver_eq hkind⟩

theorem mem_gates_describe (hlive : c.IsLiveOrder order) {gate : Aiger.GateLine} :
    gate ∈ (c.describe order).gates ↔
      c.Live gate.id ∧ c.kind? gate.id = some (.gate gate.left gate.right) := by
  rw [describe, List.mem_filterMap]
  simp only [Option.bind_eq_some_iff, Kind.gateLine?_eq_some_iff, hlive.mem_iff]
  constructor
  · intro h
    obtain ⟨id, hid, kind, hkind, rfl, rfl⟩ := h
    exact ⟨hid, hkind⟩
  · exact fun h => ⟨gate.id, h.1, _, h.2, rfl, rfl⟩

theorem nodup_gates_describe (hlive : c.IsLiveOrder order) :
    ((c.describe order).gates.map (·.id)).Nodup := by
  rw [describe, List.map_filterMap]
  refine hlive.nodup.filterMap fun a b id ha hb => ?_
  have hid : ∀ {a}, id ∈ ((c.kind? a).bind (Kind.gateLine? a)).map (·.id) → id = a := by
    intro a ha
    obtain ⟨gate, hgate, rfl⟩ := Option.map_eq_some_iff.1 ha
    obtain ⟨kind, _, hkind⟩ := Option.bind_eq_some_iff.1 hgate
    exact (Kind.gateLine?_eq_some_iff.1 hkind).1
  exact (hid ha).symm.trans (hid hb)

end Circuit

end AndInverter
