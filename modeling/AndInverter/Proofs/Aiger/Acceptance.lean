import AndInverter.Proofs.Aiger.Sections

namespace AndInverter.Aiger

open Text (Holds)

namespace Found

/-- Of the nodes entered under an id the first one stays. -/
theorem node?_enter (f : Found) (n : Node) (id : NodeId) : (f.enter n).circuit.node? id =
    (f.circuit.node? id).or (if n.id = id then some n else none) := by
  unfold enter
  split
  · next previous hprevious =>
    split
    · next heq => simp [← heq, hprevious]
    · simp
  · next hfresh =>
    rw [Circuit.node?_insert]
    split
    · next heq => simp [← heq, hfresh]
    · simp

theorem node?_foldl_enter (f : Found) (nodes : List Node) (id : NodeId) :
    (nodes.foldl enter f).circuit.node? id =
      (f.circuit.node? id).or (nodes.find? (·.id == id)) := by
  induction nodes generalizing f with
  | nil => simp
  | cons n nodes ih =>
    rw [List.foldl_cons, ih, node?_enter, Option.or_assoc, List.find?_cons]
    by_cases heq : n.id = id
    · simp [heq]
    · simp [heq, beq_false_of_ne heq]

theorem isSome_node?_foldl_enter {f : Found} {nodes : List Node} {id : NodeId} :
    ((nodes.foldl enter f).circuit.node? id).isSome = true ↔
      (f.circuit.node? id).isSome = true ∨ id ∈ nodes.map (·.id) := by
  rw [node?_foldl_enter, Option.isSome_or, Bool.or_eq_true, List.find?_isSome, List.mem_map]
  simp only [beq_iff_eq]

end Found

namespace Reader

/-- The parts are read one after the other, each from where the one before it ended. -/
theorem declarations_eq_ok_iff {r t : Reading} {bound : NodeId} :
    declarations r = .ok bound t ↔ ∃ chars rest header ids u outs v w,
      r.rest = some chars :: rest ∧ Header.parse (Text.dropReturns chars) = .ok header ∧
      header.bound = bound ∧
      inputs bound header.inputs.toNat { r with
        rest, taken := r.taken + 1, circuit := { r.circuit with maxVar := bound } } = .ok ids u ∧
      outputs bound 0 header.outputs.toNat u = .ok outs v ∧
      gates bound header.gates.toNat v = .ok () w ∧
      symbols ids outs (w.rest.length + 1) w = .ok () t := by
  rw [declarations]
  refine line_bind_eq_ok_iff.trans ?_
  constructor
  · intro h
    obtain ⟨chars, rest, hrest, h⟩ := h
    obtain ⟨header, hheader, h⟩ := check_bind_eq_ok_iff.1 h
    obtain ⟨_, _, hmodify, h⟩ := estateM_bind_eq_ok_iff.1 h
    cases hmodify
    obtain ⟨ids, u, hinputs, h⟩ := estateM_bind_eq_ok_iff.1 h
    obtain ⟨outs, v, houtputs, h⟩ := estateM_bind_eq_ok_iff.1 h
    obtain ⟨_, w, hgates, h⟩ := estateM_bind_eq_ok_iff.1 h
    obtain ⟨_, _, hget, h⟩ := estateM_bind_eq_ok_iff.1 h
    cases hget
    obtain ⟨_, _, hsymbols, h⟩ := estateM_bind_eq_ok_iff.1 h
    cases h
    exact ⟨chars, rest, header, ids, u, outs, v, w, hrest, hheader, rfl, hinputs, houtputs, hgates,
      hsymbols⟩
  · intro h
    obtain ⟨chars, rest, header, ids, u, outs, v, w, hrest, hheader, rfl, hinputs, houtputs, hgates,
      hsymbols⟩ := h
    refine ⟨chars, rest, hrest, check_bind_eq_ok_iff.2 ⟨header, hheader, ?_⟩⟩
    refine estateM_bind_eq_ok_iff.2 ⟨(), _, rfl, ?_⟩
    refine estateM_bind_eq_ok_iff.2 ⟨ids, u, hinputs, ?_⟩
    refine estateM_bind_eq_ok_iff.2 ⟨outs, v, houtputs, ?_⟩
    refine estateM_bind_eq_ok_iff.2 ⟨(), w, hgates, ?_⟩
    refine estateM_bind_eq_ok_iff.2 ⟨w, w, rfl, ?_⟩
    exact estateM_bind_eq_ok_iff.2 ⟨(), t, hsymbols, rfl⟩

end Reader

theorem ids_inputNodes (line : Nat) (edges : List Edge) :
    (inputNodes line edges).map (·.id) = edges.map (·.node) := by
  rw [inputNodes, List.map_map, ← List.zipIdx_map_fst line edges, List.map_map]
  simp [Function.comp_def, Node.fresh]

theorem ids_gateNodes (line : Nat) (gates : List GateLine) :
    (gateNodes line gates).map (·.id) = gates.map (·.id) := by
  rw [gateNodes, List.map_map, ← List.zipIdx_map_fst line gates, List.map_map]
  simp [Function.comp_def, Node.fresh]

theorem ids_outputNodes (bound : NodeId) (start position : Nat) (drivers : List Edge) :
    (outputNodes bound start position drivers).map (·.id) =
      (List.range' position drivers.length).map (outputId bound) := by
  rw [outputNodes, List.map_map, ← List.zipIdx_map_snd position drivers, List.map_map]
  rfl

namespace Description

variable (d : Description)

/-- The nodes that a description declares, in the order of their lines. -/
def nodes : List Node :=
  inputNodes 2 d.inputs ++ (outputNodes d.bound (2 + d.inputs.length) 0 d.outputs ++
    gateNodes (2 + d.inputs.length + d.outputs.length) d.gates)

/-- What is found when the nodes are entered. -/
def declared : Found := d.nodes.foldl Found.enter ⟨{ Circuit.empty with maxVar := d.bound }, #[]⟩

/-- What is found when the nodes are entered and named. -/
def found : Found :=
  (d.symbols.zipIdx (2 + d.inputs.length + d.outputs.length + d.gates.length)).foldl
    (Found.name d.target?) d.declared

variable {d} {bound : NodeId} {lines : List Text.Line} {t : Reading}

theorem target?_isSome {symbol : Symbol} : (d.target? symbol).isSome = true ↔
    symbol.position < (if symbol.isInput then d.inputs else d.outputs).length := by
  rw [target?, Aiger.target?, Option.isSome_iff_ne_none, ne_eq, List.getElem?_eq_none_iff, not_le]
  cases symbol.isInput <;> simp [inputIds, outputIds]

theorem ids_nodes (d : Description) :
    d.nodes.map (·.id) = d.inputIds ++ (d.outputIds ++ d.gates.map (·.id)) := by
  rw [nodes, List.map_append, List.map_append, ids_inputNodes, ids_outputNodes, ids_gateNodes,
    outputIds, List.range_eq_range']
  rfl

/-- What a symbol can name is declared. -/
theorem isSome_of_target? {symbol : Symbol} {id : NodeId} (h : d.target? symbol = some id) :
    (d.declared.circuit.node? id).isSome = true := by
  have hid : id ∈ d.nodes.map (·.id) := by
    have hmem := List.mem_of_getElem? h
    rw [ids_nodes, List.mem_append, List.mem_append]
    split at hmem
    · exact .inl hmem
    · exact .inr (.inl hmem)
  exact Found.isSome_node?_foldl_enter.2 (.inr hid)

/-- Each item stands on one of the lines. -/
theorem exists_of_forall₂_holds {α : Type} {p : List Char → α → Prop} {items : List α}
    (h : List.Forall₂ (fun line a => Holds (p · a) line) lines items) :
    ∀ a ∈ items, ∃ chars, some chars ∈ lines ∧ p (Text.dropReturns chars) a := by
  induction h with
  | nil =>
    intro a ha
    cases ha
  | cons hline _ ih =>
    obtain ⟨chars, rfl, hchars⟩ := hline
    refine List.forall_mem_cons.2 ⟨⟨chars, List.mem_cons_self, hchars⟩, fun a ha => ?_⟩
    obtain ⟨other, hother, hholds⟩ := ih a ha
    exact ⟨other, List.mem_cons_of_mem _ hother, hholds⟩

/-- The inputs do not go beyond the bound, so the outputs come above all that is declared. -/
theorem toNat_lt_of_isSome {line : Nat} {edges : List Edge} {f : Found}
    (hlines : List.Forall₂ (fun line e => Holds (IsInput bound · e) line) lines edges)
    (hf : f = (inputNodes line edges).foldl Found.enter
      ⟨{ Circuit.empty with maxVar := bound }, #[]⟩) (id : NodeId)
    (hid : (f.circuit.node? id).isSome = true) : id.toNat < bound.toNat + 1 + 0 := by
  rw [hf, Found.isSome_node?_foldl_enter, ids_inputNodes] at hid
  obtain hzero | hid := hid
  · have hempty : (Circuit.empty.node? id).isSome = true := hzero
    rw [Circuit.node?_empty] at hempty
    split at hempty
    · next heq =>
      rw [heq]
      exact Nat.succ_pos _
    · cases hempty
  · obtain ⟨e, he, rfl⟩ := List.mem_map.1 hid
    obtain ⟨_, _, _, _, _, hle, _⟩ := exists_of_forall₂_holds hlines e he
    have hle := UInt64.le_iff_toNat_le.1 hle
    omega

/-- The header is read as the sizes of the parts. -/
theorem isHeader_iff {text : List Char} : d.IsHeader text ↔ ∃ header,
    Header.parse text = .ok header ∧ header.bound = d.bound ∧
      header.inputs.toNat = d.inputs.length ∧ header.outputs.toNat = d.outputs.length ∧
      header.gates.toNat = d.gates.length := by
  constructor
  · intro h
    obtain ⟨m, i, l, o, a, hwords, hm, hi, hl, ho, ha⟩ := h
    have hcount : ∀ {word : List Char} {n : Nat}, Text.IsNumeral word n →
        (UInt64.ofNat n).toNat = n := by
      intro word n hn
      obtain ⟨_, _, _, _, _, hlt⟩ := hn
      exact UInt64.toNat_ofNat_of_lt' hlt
    refine ⟨⟨d.bound, UInt64.ofNat d.inputs.length, UInt64.ofNat d.outputs.length,
      UInt64.ofNat d.gates.length⟩, ?_, rfl, hcount hi, hcount ho, hcount ha⟩
    refine headerParse_eq_ok_iff.2 ⟨m, i, l, o, a, hwords, hm, ?_, hl, ?_, ?_⟩
    · rwa [hcount hi]
    · rwa [hcount ho]
    · rwa [hcount ha]
  · intro h
    obtain ⟨header, hparse, hbound, hinputs, houtputs, hgates⟩ := h
    rw [IsHeader, ← hbound, ← hinputs, ← houtputs, ← hgates]
    exact headerParse_eq_ok_iff.1 hparse

theorem declared_eq (d : Description) : d.declared =
    (gateNodes (2 + d.inputs.length + d.outputs.length) d.gates).foldl Found.enter
      ((outputNodes d.bound (2 + d.inputs.length) 0 d.outputs).foldl Found.enter
        ((inputNodes 2 d.inputs).foldl Found.enter
          ⟨{ Circuit.empty with maxVar := d.bound }, #[]⟩)) := by
  rw [declared, nodes, List.foldl_append, List.foldl_append]

/-- The lines between the header and the symbol table declare the nodes of the description, and
    these have been found. -/
structure NodesFound (d : Description) (rest : List Text.Line) (w : Reading) : Prop where
  lines : ∃ inputs outputs gates, rest = inputs ++ (outputs ++ (gates ++ w.rest)) ∧
    List.Forall₂ (fun line e => Holds (IsInput d.bound · e) line) inputs d.inputs ∧
    List.Forall₂ (fun line e => Holds (IsOutput d.bound · e) line) outputs d.outputs ∧
    List.Forall₂ (fun line gate => Holds (IsGate d.bound · gate) line) gates d.gates
  room : d.outputs ≠ [] → d.bound.toNat + d.outputs.length < UInt64.size
  taken : w.taken + 1 = 2 + d.inputs.length + d.outputs.length + d.gates.length
  found : w.found = d.declared

namespace NodesFound

variable {rest : List Text.Line} {w : Reading}

theorem isSome_of_target? (h : d.NodesFound rest w) {symbol : Symbol} {id : NodeId}
    (htarget : Aiger.target? d.inputIds d.outputIds symbol = some id) :
    (w.circuit.node? id).isSome = true := by
  have hcircuit : w.circuit = d.declared.circuit := congrArg Found.circuit h.found
  rw [hcircuit]
  exact Description.isSome_of_target? htarget

/-- Where the nodes are written, they are read. -/
theorem exists_parts (h : d.NodesFound rest w) : ∃ u v,
    Reader.inputs d.bound d.inputs.length
      ⟨rest, 1, { Circuit.empty with maxVar := d.bound }, #[]⟩ = .ok d.inputIds u ∧
    Reader.outputs d.bound 0 d.outputs.length u = .ok d.outputIds v ∧
    Reader.gates d.bound d.gates.length v = .ok () w := by
  obtain ⟨inputs, outputs, gates, rfl, hinputs, houtputs, hgates⟩ := h.lines
  let f : Found := (inputNodes 2 d.inputs).foldl Found.enter
    ⟨{ Circuit.empty with maxVar := d.bound }, #[]⟩
  let g : Found := (outputNodes d.bound (2 + d.inputs.length) 0 d.outputs).foldl Found.enter f
  let u : Reading := ⟨outputs ++ (gates ++ w.rest), 1 + d.inputs.length, f.circuit, f.warnings⟩
  let v : Reading :=
    ⟨gates ++ w.rest, 1 + d.inputs.length + d.outputs.length, g.circuit, g.warnings⟩
  have hstart : u.taken + 1 = 2 + d.inputs.length + 0 := by
    dsimp only [u]
    omega
  have hnumber : v.taken + 1 = 2 + d.inputs.length + d.outputs.length := by
    dsimp only [v]
    omega
  have htaken : w.taken = v.taken + d.gates.length := by
    have htaken := h.taken
    omega
  refine ⟨u, v, ?_, ?_, ?_⟩
  · exact Reader.inputs_eq_ok_iff.2 ⟨d.inputs, rfl, rfl, ⟨inputs, rfl, rfl, hinputs⟩, rfl⟩
  · refine (Reader.outputs_eq_ok_iff hstart (toNat_lt_of_isSome hinputs rfl)).2
      ⟨d.outputs, rfl, ?_, h.room, ⟨outputs, rfl, rfl, houtputs⟩, rfl⟩
    rw [outputIds, List.range_eq_range']
  · refine Reader.gates_eq_ok_iff.2 ⟨d.gates, rfl, ⟨gates, rfl, htaken, hgates⟩, ?_⟩
    rw [hnumber, h.found]
    exact declared_eq d

end NodesFound

/-- Where nodes are read, some are written. -/
theorem exists_nodesFound {rest : List Text.Line} {i o a : Nat} {ids outs : List NodeId}
    {u v w : Reading}
    (hinputs : Reader.inputs bound i
      ⟨rest, 1, { Circuit.empty with maxVar := bound }, #[]⟩ = .ok ids u)
    (houtputs : Reader.outputs bound 0 o u = .ok outs v)
    (hgates : Reader.gates bound a v = .ok () w) :
    ∃ d : Description, d.bound = bound ∧ d.inputs.length = i ∧ d.outputs.length = o ∧
      d.gates.length = a ∧ d.inputIds = ids ∧ d.outputIds = outs ∧ d.NodesFound rest w := by
  obtain ⟨edges, rfl, rfl, ⟨inputs, hrestI, htakenI, hinputs⟩, hfoundI⟩ :=
    Reader.inputs_eq_ok_iff.1 hinputs
  have hstart : u.taken + 1 = 2 + edges.length + 0 := by
    dsimp only at htakenI
    omega
  obtain ⟨drivers, rfl, rfl, hroom, ⟨outputs, hrestO, htakenO, houtputs⟩, hfoundO⟩ :=
    (Reader.outputs_eq_ok_iff hstart (toNat_lt_of_isSome hinputs hfoundI)).1 houtputs
  obtain ⟨gates, rfl, ⟨gateLines, hrestA, htakenA, hgates⟩, hfoundA⟩ :=
    Reader.gates_eq_ok_iff.1 hgates
  have hnumber : v.taken + 1 = 2 + edges.length + drivers.length := by omega
  refine ⟨⟨bound, edges, drivers, gates, []⟩, rfl, rfl, rfl, rfl, rfl, ?_, ?_, hroom, ?_, ?_⟩
  · rw [outputIds, List.range_eq_range']
  · refine ⟨inputs, outputs, gateLines, ?_, hinputs, houtputs, hgates⟩
    have hrestI : rest = inputs ++ u.rest := hrestI
    rw [hrestI, hrestO, hrestA]
  · dsimp only
    omega
  · rw [hfoundA, hfoundO, hfoundI, hnumber, declared_eq]
    rfl

/-- A description that is read is written there. -/
theorem writtenIn_of_declarations
    (h : Reader.declarations ⟨lines, 0, .empty, #[]⟩ = .ok bound t) :
    ∃ d : Description, d.WrittenIn lines ∧ d.bound = bound ∧ t.found = d.found := by
  obtain ⟨chars, rest, header, ids, u, outs, v, w, hlines, hheader, hbound, hinputs, houtputs,
    hgates, hsymbols⟩ := Reader.declarations_eq_ok_iff.1 h
  obtain ⟨d, rfl, hI, hO, hA, rfl, rfl, hnodes⟩ := exists_nodesFound hinputs houtputs hgates
  obtain ⟨symbols, y, ⟨symbolLines, hrest, _, hsymbols⟩, hend, hpositions, hfound⟩ :=
    Reader.took_of_symbols (Nat.lt_succ_self _) (fun _ _ => hnodes.isSome_of_target?) hsymbols
  obtain ⟨inputs, outputs, gates, rfl, hinputs, houtputs, hgates⟩ := hnodes.lines
  have hlines : lines = some chars :: (inputs ++ (outputs ++ (gates ++ w.rest))) := hlines
  refine ⟨{ d with symbols }, ⟨some chars, inputs, outputs, gates, symbolLines, y.rest, ?_, ?_,
    hinputs, houtputs, hnodes.room, hgates, hsymbols, fun symbol hsymbol => ?_, hend⟩, rfl, ?_⟩
  · rw [hlines, hrest]
  · exact ⟨chars, rfl, isHeader_iff.2 ⟨header, hheader, hbound, hI.symm, hO.symm, hA.symm⟩⟩
  · exact target?_isSome.1 (hpositions symbol hsymbol)
  · rw [hfound, hnodes.taken, hnodes.found]
    rfl

/-- A description that is written somewhere is read there. -/
theorem declarations_of_writtenIn (h : d.WrittenIn lines) :
    ∃ t, Reader.declarations ⟨lines, 0, .empty, #[]⟩ = .ok d.bound t ∧ t.found = d.found := by
  obtain ⟨_, inputs, outputs, gates, symbols, rest, hlines, ⟨chars, rfl, hheader⟩, hinputs,
    houtputs, hroom, hgates, hsymbols, hpositions, hend⟩ := h
  obtain ⟨header, hparse, hbound, hI, hO, hA⟩ := isHeader_iff.1 hheader
  -- The reader as it stands before the symbol table, and behind the last symbol.
  let w : Reading := ⟨symbols ++ rest, 1 + d.inputs.length + d.outputs.length + d.gates.length,
    d.declared.circuit, d.declared.warnings⟩
  let y : Reading := ⟨rest, w.taken + d.symbols.length, .empty, #[]⟩
  have hnodes : d.NodesFound (inputs ++ (outputs ++ (gates ++ w.rest))) w := by
    refine ⟨⟨inputs, outputs, gates, rfl, hinputs, houtputs, hgates⟩, hroom, ?_, rfl⟩
    dsimp only [w]
    omega
  have htook : Reading.Took IsSymbol d.symbols w y := ⟨symbols, rfl, rfl, hsymbols⟩
  obtain ⟨u, v, hrunI, hrunO, hrunA⟩ := hnodes.exists_parts
  obtain ⟨t, hrunS, hfound⟩ := Reader.symbols_of_took (Nat.lt_succ_self _)
    (fun _ _ => hnodes.isSome_of_target?) htook hend
    fun symbol hsymbol => target?_isSome.2 (hpositions symbol hsymbol)
  rw [hnodes.taken] at hfound
  rw [← hI] at hrunI
  rw [← hO] at hrunO
  rw [← hA] at hrunA
  exact ⟨t, Reader.declarations_eq_ok_iff.2 ⟨chars, _, header, _, u, _, v, w, hlines, hparse, hbound,
    hrunI, hrunO, hrunA, hrunS⟩, hfound⟩

end Description

end AndInverter.Aiger
