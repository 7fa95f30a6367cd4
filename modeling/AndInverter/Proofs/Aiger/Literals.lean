import AndInverter.Proofs.Aiger.Described

namespace AndInverter

/-- The call makes no input or gate whose id has the top bit, which has no place in a literal. -/
def Operation.NamesLiterals : Operation → Prop
  | addInput id | addGate id _ _ => 2 * id.toNat < UInt64.size
  | _ => True

namespace Aiger

/-- The edges that the words of a line denote as literals. -/
def edgesOn (line : Text.Line) : List (Option Edge) :=
  (Text.words (line.getD [])).map fun word => (Text.numeral? word).map .ofLiteral

/-- The edges that stand in the lines after the first one, of which `count` are read. -/
def edgesIn (count : Nat) (text : String) : List (Option Edge) :=
  ((Text.lines text.toUTF8).tail.take count).flatMap edgesOn

theorem numeral?_literalText (e : Edge) :
    (Text.numeral? (literalText e).toList).map .ofLiteral = some e.withoutTopBit := by
  have hnumeral : Text.numeral? (literalText e).toList = some e.literal :=
    Text.numeral?_eq_some_iff.2 (Text.isNumeral_toString e.literal.toNat_lt)
  rw [hnumeral, Option.map_some, e.ofLiteral_literal]

namespace Description

/-- The number of lines between the header and the symbols. -/
def itemCount (d : Description) : Nat := d.inputs.length + d.outputs.length + d.gates.length

/-- The edges that are written as literals, in their order: inputs, drivers of outputs, and for each
    gate itself and its fanins. -/
def edges (d : Description) : List Edge :=
  d.inputs ++ d.outputs ++ d.gates.flatMap fun gate => [⟨gate.id, false⟩, gate.left, gate.right]

variable {d : Description}

theorem edgesOn_literalText (e : Edge) :
    edgesOn (some (literalText e).toList) = [some e.withoutTopBit] := by
  rw [edgesOn, Option.getD_some, (line_of_literal e).1, List.map_singleton, numeral?_literalText]

theorem edgesOn_gateText (gate : GateLine) :
    edgesOn (some (gateText gate).toList) =
      [⟨gate.id, false⟩, gate.left, gate.right].map fun e => some e.withoutTopBit := by
  rw [edgesOn, Option.getD_some, (line_of_gate gate).1]
  simp only [List.map_cons, List.map_nil, numeral?_literalText]

/-- What stands in the printed lines are the edges that were written, without their top bits. -/
theorem edgesIn_join (h : ∀ symbol ∈ d.symbols, Text.IsName symbol.name) :
    edgesIn d.itemCount (String.join (d.texts.map (· ++ "\n"))) =
      d.edges.map fun e => some e.withoutTopBit := by
  have hlines : (d.texts.map fun text => some text.toList).tail.take d.itemCount =
      (d.inputs.map literalText ++ d.outputs.map literalText ++ d.gates.map gateText).map
        fun text => some text.toList := by
    rw [texts, List.map_cons, List.tail_cons, List.map_append]
    apply List.take_left'
    simp [itemCount, Nat.add_assoc]
  have hliterals : ∀ edges : List Edge,
      ((edges.map literalText).map fun text => some text.toList).flatMap edgesOn =
        edges.map fun e => some e.withoutTopBit := by
    intro edges
    rw [List.map_map, List.flatMap_map, List.map_eq_flatMap]
    exact List.flatMap_congr fun e _ => edgesOn_literalText e
  have hgates : ((d.gates.map gateText).map fun text => some text.toList).flatMap edgesOn =
      (d.gates.flatMap fun gate => [⟨gate.id, false⟩, gate.left, gate.right]).map
        fun e => some e.withoutTopBit := by
    rw [List.map_map, List.flatMap_map, List.map_flatMap]
    exact List.flatMap_congr fun gate _ => edgesOn_gateText gate
  rw [edgesIn, lines_join_texts h, hlines, List.map_append, List.map_append, List.flatMap_append,
    List.flatMap_append, hliterals, hliterals, hgates, edges, List.map_append, List.map_append]

end Description

end Aiger

namespace Circuit

variable {c d : Circuit} {order : List NodeId}

theorem Expressible.of_attach (h : c.Expressible) {n : Node} (hattach : c.attach n = .ok d)
    (hid : n.kind.isOutput = false → 2 * n.id.toNat < UInt64.size) : d.Expressible := by
  intro id kind hkind houtput
  rw [kind?_of_attach hattach] at hkind
  split at hkind
  · next heq =>
    obtain rfl := Option.some.inj hkind
    exact heq ▸ hid houtput
  · exact h id kind hkind houtput

/-- A call keeps ids expressible if those that it names are. -/
theorem Expressible.perform (h : c.Expressible) (hc : c.WellFormed) {op : Operation}
    (hop : op.NamesLiterals) : (op.perform c).2.Expressible := by
  cases op with
  | load contents =>
    exact Operation.attempt_induction h fun d hd => (writable_of_readIfPresent hd).expressible
  | addInput id => exact Operation.attempt_induction h fun d hd => h.of_attach hd fun _ => hop
  | addGate id left right =>
    exact Operation.attempt_induction h fun d hd => h.of_attach (of_addGate hd).1 fun _ => hop
  | addOutput driver =>
    refine Operation.attempt_induction h (Operation.attempt_of_addOutput fun id d hd => ?_)
    exact h.of_attach (of_addOutput hd).2.1 nofun
  | merge victim survivor inverted =>
    exact Operation.attempt_induction h fun d hd => (lasting_expressible.redirect ⟨hc, h⟩ hd).2
  | _ => exact (lasting_expressible.perform (by simp [Operation.IsConstruction]) (by simp) ⟨hc, h⟩).2

theorem expressible_after (ops : List Operation) (hops : ∀ op ∈ ops, op.NamesLiterals) :
    (empty.after ops).Expressible := by
  suffices h : ∀ c : Circuit, c.WellFormed → c.Expressible → (c.after ops).Expressible from
    h empty wellFormed_empty writable_empty.expressible
  induction ops with
  | nil => exact fun c _ h => h
  | cons op ops ih =>
    obtain ⟨hop, hops⟩ := List.forall_mem_cons.1 hops
    exact fun c hc h => ih hops _ (hc.perform op) (h.perform hc hop)

/-- The edges that are written lead to inputs, gates and the fanins of live nodes, never to an
    output. -/
theorem WellFormed.exists_of_mem_edges (hc : c.WellFormed) (hlive : c.IsLiveOrder order) {e : Edge}
    (he : e ∈ (c.describe order).edges) :
    ∃ kind, c.kind? e.node = some kind ∧ kind.isOutput = false := by
  simp only [Aiger.Description.edges, List.mem_append, List.mem_flatMap] at he
  obtain (hinput | houtput) | ⟨gate, hgate, he⟩ := he
  · exact ⟨_, hc.mem_inputs_describe.1 hinput, rfl⟩
  · obtain ⟨position, hposition⟩ := List.mem_iff_getElem?.1 houtput
    obtain ⟨id, _, hkind⟩ := hc.getElem?_outputs_describe.1 hposition
    exact hc.fanin hkind e List.mem_cons_self
  · have hkind := ((mem_gates_describe hlive).1 hgate).2
    obtain rfl | he := List.mem_cons.1 he
    · exact ⟨_, hkind, rfl⟩
    · exact hc.fanin hkind e he

theorem Named.isName_of_mem_symbols (hnamed : c.Named) (order : List NodeId) :
    ∀ symbol ∈ (c.describe order).symbols, Text.IsName symbol.name := by
  intro symbol hsymbol
  obtain hmem | hmem := List.mem_append.1 hsymbol
  · exact (hnamed.of_mem_symbolsOf hmem).1
  · exact (hnamed.of_mem_symbolsOf hmem).1

/-- In any session writing succeeds, and the literals in the text denote the edges that they are
    written for up to the top bits of the ids: the inputs, the drivers of the outputs, and the live
    gates with their fanins. So they are right if and only if no such id has the top bit. That is so
    in every session that gives no such id to an input or a gate. -/
theorem print_literals (ops : List Operation) :
    ∃ order text, (empty.after ops).liveOrder = .ok order ∧
      Aiger.print (empty.after ops) = .ok text ∧
      Aiger.edgesIn ((empty.after ops).describe order).itemCount text =
        ((empty.after ops).describe order).edges.map (fun e => some e.withoutTopBit) ∧
      (Aiger.edgesIn ((empty.after ops).describe order).itemCount text =
          ((empty.after ops).describe order).edges.map some ↔
        ∀ e ∈ ((empty.after ops).describe order).edges, 2 * e.node.toNat < UInt64.size) ∧
      ((∀ op ∈ ops, op.NamesLiterals) →
        Aiger.edgesIn ((empty.after ops).describe order).itemCount text =
          ((empty.after ops).describe order).edges.map some) := by
  have hc := wellFormed_after ops
  have hnamed := named_after ops
  have hexpressible := expressible_after ops
  generalize empty.after ops = c at hc hnamed hexpressible ⊢
  obtain ⟨order, horder, hlive⟩ := hc.exists_liveOrder
  have hedges := Aiger.Description.edgesIn_join (hnamed.isName_of_mem_symbols order)
  have hright : (c.describe order).edges.map (fun e => some e.withoutTopBit) =
      (c.describe order).edges.map some ↔
        ∀ e ∈ (c.describe order).edges, 2 * e.node.toNat < UInt64.size := by
    rw [List.map_inj_left]
    refine forall₂_congr fun e _ => ?_
    rw [Option.some_inj, Edge.withoutTopBit_eq_iff]
  refine ⟨order, _, horder, hc.print_eq horder, hedges, ?_, fun hops => ?_⟩
  · rw [hedges, hright]
  · rw [hedges, hright]
    intro e he
    obtain ⟨kind, hkind, houtput⟩ := hc.exists_of_mem_edges hlive he
    exact hexpressible hops e.node kind hkind houtput

/-- An input whose id is the top bit alone, inverted. -/
def topInput : List Operation :=
  [.addInput 0x8000000000000000, .addOutput ⟨0x8000000000000000, true⟩]

/-- The text tells of an inverted constant. -/
theorem print_literals_topInput :
    (empty.after topInput).audit.isOk = true ∧
      ∃ order text, (empty.after topInput).liveOrder = .ok order ∧
        Aiger.print (empty.after topInput) = .ok text ∧
        ((empty.after topInput).describe order).edges =
          [⟨0x8000000000000000, false⟩, ⟨0x8000000000000000, true⟩] ∧
        Aiger.edgesIn 2 text = [some .low, some .high] := by
  have haudit : (empty.after topInput).audit.isOk = true := by decide +kernel
  have hlisted : (empty.after topInput).liveOrder =
      .ok [0x8000000000000000, 0x8000000000000001] := by decide +kernel
  have hedges : ((empty.after topInput).describe [0x8000000000000000, 0x8000000000000001]).edges =
      [⟨0x8000000000000000, false⟩, ⟨0x8000000000000000, true⟩] := by decide +kernel
  have hcount : ((empty.after topInput).describe
      [0x8000000000000000, 0x8000000000000001]).itemCount = 2 := by decide +kernel
  obtain ⟨order, text, horder, hprint, hread, _⟩ := print_literals topInput
  obtain rfl := Except.ok.inj (horder.symm.trans hlisted)
  rw [hcount, hedges] at hread
  exact ⟨haudit, _, text, horder, hprint, hedges, hread⟩

end Circuit

end AndInverter
