import AndInverter.Proofs.Aiger.Acceptance
import AndInverter.Proofs.Audit

open Relation

namespace AndInverter.Aiger

open Text (Holds)

/-- Numbering the items of a list does not change what is found in it. -/
theorem find?_zipIdx {α β : Type} {p : α × Nat → Bool} {q : α → Bool} {f : α × Nat → β} {g : α → β}
    (hp : ∀ a number, p (a, number) = q a) (hf : ∀ a number, f (a, number) = g a) (items : List α)
    (number : Nat) : ((items.zipIdx number).find? p).map f = (items.find? q).map g := by
  induction items generalizing number with
  | nil => rfl
  | cons a items ih =>
    rw [List.zipIdx_cons, List.find?_cons, List.find?_cons, hp]
    cases q a with
    | true => exact congrArg some (hf a number)
    | false => exact ih (number + 1)

theorem find?_inputNodes (line : Nat) (edges : List Edge) (id : NodeId) :
    ((inputNodes line edges).find? (·.id == id)).map (·.kind) =
      (edges.find? (·.node == id)).map fun e => .input e.inverted := by
  rw [inputNodes, List.find?_map, Option.map_map]
  exact find?_zipIdx (fun _ _ => rfl) (fun _ _ => rfl) edges line

theorem find?_gateNodes (line : Nat) (gates : List GateLine) (id : NodeId) :
    ((gateNodes line gates).find? (·.id == id)).map (·.kind) =
      (gates.find? (·.id == id)).map fun gate => .gate gate.left gate.right := by
  rw [gateNodes, List.find?_map, Option.map_map]
  exact find?_zipIdx (fun _ _ => rfl) (fun _ _ => rfl) gates line

/-- Outputs have different ids, so each is found under its own. -/
theorem find?_outputNodes {bound : NodeId} {start position : Nat} {drivers : List Edge} {id : NodeId}
    {kind : Kind} (hroom : drivers ≠ [] → bound.toNat + position + drivers.length < UInt64.size) :
    ((outputNodes bound start position drivers).find? (·.id == id)).map (·.kind) = some kind ↔
      ∃ k driver, drivers[k]? = some driver ∧ id = outputId bound (position + k) ∧
        kind = .output driver := by
  induction drivers generalizing position with
  | nil => simp [outputNodes]
  | cons e drivers ih =>
    have hroom := hroom (List.cons_ne_nil e drivers)
    rw [List.length_cons] at hroom
    change ((Node.fresh (outputId bound position) (.output e) (start + position) ::
      outputNodes bound start (position + 1) drivers).find? _).map _ = _ ↔ _
    by_cases heq : outputId bound position = id
    · rw [List.find?_cons_of_pos (p := fun n : Node => n.id == id) (beq_iff_eq.2 heq)]
      constructor
      · intro h
        exact ⟨0, e, rfl, heq.symm, (Option.some.inj h).symm⟩
      · intro h
        obtain ⟨k, driver, hdriver, hid, rfl⟩ := h
        cases k with
        | zero =>
          obtain rfl := Option.some.inj hdriver
          rfl
        | succ k =>
          have hk := (List.getElem?_eq_some_iff.1 hdriver).1
          rw [List.length_cons] at hk
          have hsame := congrArg UInt64.toNat (heq.trans hid)
          rw [Reader.toNat_outputId (by omega), Reader.toNat_outputId (by omega)] at hsame
          omega
    · rw [List.find?_cons_of_neg (p := fun n : Node => n.id == id) (mt beq_iff_eq.1 heq)]
      refine (ih fun _ => by omega).trans ?_
      constructor
      · intro h
        obtain ⟨k, driver, hdriver, hid, hkind⟩ := h
        refine ⟨k + 1, driver, hdriver, ?_, hkind⟩
        rw [hid, Nat.add_assoc, Nat.add_comm 1 k]
      · intro h
        obtain ⟨k, driver, hdriver, hid, hkind⟩ := h
        cases k with
        | zero => exact absurd hid.symm heq
        | succ k =>
          refine ⟨k, driver, hdriver, ?_, hkind⟩
          rw [hid, Nat.add_assoc, Nat.add_comm 1 k]

/-- Giving a node a name changes nothing if the node has one. -/
theorem Found.node?_name (target? : Symbol → Option NodeId) (f : Found) (entry : Symbol × Nat)
    (id : NodeId) : (f.name target? entry).circuit.node? id = (f.circuit.node? id).map fun n =>
      { n with name := n.name.or (if target? entry.1 = some id then some entry.1.name else none) } := by
  unfold Found.name
  cases htarget : target? entry.1 with
  | none => simp
  | some other =>
    dsimp only
    split
    · next kept hkept =>
      obtain ⟨n, hn, hname⟩ := Option.bind_eq_some_iff.1 hkept
      by_cases heq : other = id
      · subst heq
        rw [hn, Option.map_some, hname]
        cases n
        simp_all
      · simp [heq]
    · next hnone =>
      rw [Circuit.node?_update]
      by_cases heq : other = id
      · subst heq
        cases hn : f.circuit.node? other with
        | none => simp
        | some n =>
          rw [hn, Option.bind_some] at hnone
          simp [hnone]
      · simp [heq]

/-- A named node keeps its name, and another one gets the first name that is given to it. -/
theorem Found.node?_foldl_name (target? : Symbol → Option NodeId) (f : Found)
    (symbols : List Symbol) (number : Nat) (id : NodeId) :
    ((symbols.zipIdx number).foldl (Found.name target?) f).circuit.node? id =
      (f.circuit.node? id).map fun n => { n with
        name := n.name.or ((symbols.find? fun symbol => target? symbol == some id).map (·.name)) } := by
  induction symbols generalizing f number with
  | nil => simp
  | cons symbol symbols ih =>
    rw [List.zipIdx_cons, List.foldl_cons, ih, Found.node?_name, Option.map_map, List.find?_cons]
    congr 1
    funext n
    by_cases htarget : target? symbol = some id
    · simp [htarget]
    · simp [htarget, beq_false_of_ne htarget]

namespace Description

variable {d : Description} {lines : List Text.Line} {c : Circuit} {id : NodeId}

/-- What is declared is neither constant nor beyond the bound, and there are ids for the outputs. -/
structure Fits (d : Description) : Prop where
  inputs : ∀ e ∈ d.inputs, e.node ≠ 0 ∧ e.node ≤ d.bound
  gates : ∀ gate ∈ d.gates, gate.id ≠ 0 ∧ gate.id ≤ d.bound
  room : d.outputs ≠ [] → d.bound.toNat + d.outputs.length < UInt64.size

theorem WrittenIn.fits (h : d.WrittenIn lines) : d.Fits := by
  obtain ⟨header, inputs, outputs, gates, symbols, rest, _, _, hinputs, _, hroom, hgates, _⟩ := h
  refine ⟨fun e he => ?_, fun gate hgate => ?_, hroom⟩
  · obtain ⟨_, _, hzero, _, _, hle, _⟩ := exists_of_forall₂_holds hinputs e he
    exact ⟨hzero, hle⟩
  · obtain ⟨_, _, hzero, _, _, _, _, ⟨hle, _⟩, _⟩ := exists_of_forall₂_holds hgates gate hgate
    exact ⟨hzero, hle⟩

theorem node_eq_of_input? {e : Edge} (h : d.input? id = some e) : e.node = id :=
  beq_iff_eq.1 (List.find?_some (p := fun e : Edge => e.node == id) h)

theorem gate?_eq_some_iff {gate : GateLine} : d.gate? id = some gate ↔
    d.input? id = none ∧ d.gates.find? (·.id == id) = some gate := by
  unfold gate?
  cases d.input? id <;> simp

theorem id_eq_of_gate? {gate : GateLine} (h : d.gate? id = some gate) : gate.id = id :=
  beq_iff_eq.1 (List.find?_some (p := fun gate : GateLine => gate.id == id) (gate?_eq_some_iff.1 h).2)

namespace Fits

theorem of_input? (hd : d.Fits) {e : Edge} (h : d.input? id = some e) : id ≠ 0 ∧ id ≤ d.bound :=
  node_eq_of_input? h ▸ hd.inputs e (List.mem_of_find?_eq_some h)

theorem of_gate? (hd : d.Fits) {gate : GateLine} (h : d.gate? id = some gate) :
    id ≠ 0 ∧ id ≤ d.bound :=
  id_eq_of_gate? h ▸ hd.gates gate (List.mem_of_find?_eq_some (gate?_eq_some_iff.1 h).2)

theorem bound_lt_outputId (hd : d.Fits) {position : Nat} {driver : Edge}
    (h : d.outputs[position]? = some driver) : d.bound < outputId d.bound position := by
  have hposition := (List.getElem?_eq_some_iff.1 h).1
  have hroom := hd.room (List.ne_nil_of_length_pos (by omega))
  rw [UInt64.lt_iff_toNat_lt, Reader.toNat_outputId (by omega)]
  omega

end Fits

/-- The lines of a description make the node what it is. -/
def Declares (d : Description) (id : NodeId) : Kind → Prop
  | .constant => id = 0
  | .input inverted => d.input? id = some ⟨id, inverted⟩
  | .output driver => ∃ position, d.outputs[position]? = some driver ∧ id = outputId d.bound position
  | .gate left right => d.gate? id = some ⟨id, left, right⟩
  | .undefined => False

theorem declares_of_input? {e : Edge} (h : d.input? id = some e) :
    d.Declares id (.input e.inverted) := by
  have hnode := node_eq_of_input? h
  subst hnode
  exact h

theorem declares_of_gate? {gate : GateLine} (h : d.gate? id = some gate) :
    d.Declares id (.gate gate.left gate.right) := by
  have hid := id_eq_of_gate? h
  subst hid
  exact h

/-- What is found under an id: the constant, else the first input, output or gate line that declares
    it, in this order. -/
theorem kind?_found (d : Description) (id : NodeId) : d.found.circuit.kind? id =
    (if id = 0 then some .constant else none).or
      (((d.input? id).map fun e => .input e.inverted).or
        ((((outputNodes d.bound (2 + d.inputs.length) 0 d.outputs).find? (·.id == id)).map
          (·.kind)).or ((d.gates.find? (·.id == id)).map fun gate => .gate gate.left gate.right))) := by
  have hempty : ({ Circuit.empty with maxVar := d.bound } : Circuit).kind? id =
      if id = 0 then some .constant else none := Circuit.kind?_empty id
  rw [Circuit.kind?, found, Found.node?_foldl_name, Option.map_map]
  change (d.declared.circuit.node? id).map (·.kind) = _
  rw [declared, Found.node?_foldl_enter, Option.map_or, nodes, List.find?_append, List.find?_append,
    Option.map_or, Option.map_or, find?_inputNodes, find?_gateNodes, ← hempty]
  rfl

theorem Fits.bound_lt_of_declares (hd : d.Fits) {driver : Edge}
    (h : d.Declares id (.output driver)) : d.bound < id := by
  obtain ⟨position, hdriver, rfl⟩ := h
  exact hd.bound_lt_outputId hdriver

/-- Outputs lie above the bound, so that no two lines declare the same one. -/
theorem Fits.find?_outputNodes_iff (hd : d.Fits) {kind : Kind} :
    ((outputNodes d.bound (2 + d.inputs.length) 0 d.outputs).find? (·.id == id)).map (·.kind) =
      some kind ↔ ∃ driver, kind = .output driver ∧ d.Declares id (.output driver) := by
  rw [find?_outputNodes fun h => hd.room h]
  simp only [Nat.zero_add]
  constructor
  · intro h
    obtain ⟨position, driver, hdriver, hid, rfl⟩ := h
    exact ⟨driver, rfl, position, hdriver, hid⟩
  · intro h
    obtain ⟨driver, rfl, position, hdriver, hid⟩ := h
    exact ⟨position, driver, hdriver, hid, rfl⟩

theorem Fits.declares_zero_iff (hd : d.Fits) {kind : Kind} :
    d.Declares 0 kind ↔ kind = .constant := by
  cases kind with
  | constant => exact iff_of_true rfl rfl
  | input inverted => exact iff_of_false (fun h => (hd.of_input? h).1 rfl) nofun
  | gate left right => exact iff_of_false (fun h => (hd.of_gate? h).1 rfl) nofun
  | undefined => exact iff_of_false (fun h => h) nofun
  | output driver =>
    exact iff_of_false (fun h => UInt64.not_lt_zero (hd.bound_lt_of_declares h)) nofun

/-- An input is nothing else, whatever other lines say about its id. -/
theorem Fits.declares_input_iff (hd : d.Fits) {e : Edge} {kind : Kind}
    (hinput : d.input? id = some e) : d.Declares id kind ↔ kind = .input e.inverted := by
  obtain ⟨hzero, hle⟩ := hd.of_input? hinput
  have hnode := node_eq_of_input? hinput
  subst hnode
  cases kind with
  | constant => exact iff_of_false hzero nofun
  | input inverted =>
    rw [Declares, hinput, Option.some.injEq, Kind.input.injEq, Edge.mk.injEq]
    exact ⟨fun h => h.2.symm, fun h => ⟨rfl, h.symm⟩⟩
  | gate left right =>
    refine iff_of_false (fun h => ?_) nofun
    rw [(gate?_eq_some_iff.1 h).1] at hinput
    cases hinput
  | undefined => exact iff_of_false (fun h => h) nofun
  | output driver =>
    exact iff_of_false (fun h => UInt64.not_lt.2 hle (hd.bound_lt_of_declares h)) nofun

/-- What the nodes are when all lines have been entered is what the lines declare. -/
theorem Fits.kind?_found_iff (hd : d.Fits) {kind : Kind} :
    d.found.circuit.kind? id = some kind ↔ d.Declares id kind := by
  rw [kind?_found]
  by_cases hzero : id = 0
  · subst hzero
    rw [if_pos rfl, Option.some_or, Option.some.injEq, hd.declares_zero_iff]
    exact eq_comm
  rw [if_neg hzero, Option.none_or]
  cases hinput : d.input? id with
  | some e =>
    rw [Option.map_some, Option.some_or, Option.some.injEq, hd.declares_input_iff hinput]
    exact eq_comm
  | none =>
    rw [Option.map_none, Option.none_or, Option.or_eq_some_iff, hd.find?_outputNodes_iff]
    constructor
    · intro h
      obtain ⟨driver, rfl, hdriver⟩ | ⟨_, hgate⟩ := h
      · exact hdriver
      · obtain ⟨gate, hfind, rfl⟩ := Option.map_eq_some_iff.1 hgate
        exact declares_of_gate? (gate?_eq_some_iff.2 ⟨hinput, hfind⟩)
    · intro h
      cases kind with
      | constant => exact absurd h hzero
      | input inverted =>
        rw [Declares, hinput] at h
        cases h
      | output driver => exact .inl ⟨driver, rfl, h⟩
      | undefined => exact h.elim
      | gate left right =>
        refine .inr ⟨?_, ?_⟩
        · rw [Option.eq_none_iff_forall_ne_some]
          intro kind hkind
          obtain ⟨driver, _, hdriver⟩ := hd.find?_outputNodes_iff.1 hkind
          exact UInt64.not_lt.2 (hd.of_gate? h).2 (hd.bound_lt_of_declares hdriver)
        · rw [(gate?_eq_some_iff.1 h).2]
          rfl

theorem feeds_iff {source consumer : NodeId} : d.Feeds source consumer ↔
    ∃ left right, d.gate? consumer = some ⟨consumer, left, right⟩ ∧
      (left.node = source ∨ right.node = source) := by
  constructor
  · intro h
    obtain ⟨gate, hgate, hnode⟩ := h
    exact ⟨gate.left, gate.right, declares_of_gate? hgate, hnode⟩
  · intro h
    obtain ⟨left, right, hgate, hnode⟩ := h
    exact ⟨_, hgate, hnode⟩

theorem Fits.feeds_found_iff (hd : d.Fits) {source consumer : NodeId} :
    d.found.circuit.Feeds source consumer ↔
      (∃ driver, d.Declares consumer (.output driver) ∧ driver.node = source) ∨
        d.Feeds source consumer := by
  rw [Circuit.feeds_iff_output_or_gate, feeds_iff]
  simp only [hd.kind?_found_iff]
  rfl

theorem exists_fresh_of_mem_nodes {n : Node} (hn : n ∈ d.nodes) :
    ∃ id kind line, n = .fresh id kind line := by
  rw [nodes, List.mem_append, List.mem_append] at hn
  obtain hn | hn | hn := hn
  · obtain ⟨_, _, rfl⟩ := List.mem_map.1 hn
    exact ⟨_, _, _, rfl⟩
  · obtain ⟨_, _, rfl⟩ := List.mem_map.1 hn
    exact ⟨_, _, _, rfl⟩
  · obtain ⟨_, _, rfl⟩ := List.mem_map.1 hn
    exact ⟨_, _, _, rfl⟩

theorem exists_fresh_of_node?_declared {n : Node} (hn : d.declared.circuit.node? id = some n) :
    ∃ id kind line, n = .fresh id kind line := by
  rw [declared, Found.node?_foldl_enter, Option.or_eq_some_iff] at hn
  obtain hempty | ⟨_, hn⟩ := hn
  · have hempty : Circuit.empty.node? id = some n := hempty
    rw [Circuit.node?_empty] at hempty
    split at hempty
    · exact ⟨0, .constant, 0, (Option.some.inj hempty).symm⟩
    · cases hempty
  · exact exists_fresh_of_mem_nodes (List.mem_of_find?_eq_some hn)

/-- A node that is found is new, and has the name that it is given. -/
theorem of_node?_found {n : Node} (hn : d.found.circuit.node? id = some n) :
    n.name = d.name? id ∧ n.value = false ∧ n.signature = #[] := by
  rw [found, Found.node?_foldl_name] at hn
  obtain ⟨m, hm, rfl⟩ := Option.map_eq_some_iff.1 hn
  obtain ⟨_, _, _, rfl⟩ := exists_fresh_of_node?_declared hm
  exact ⟨rfl, rfl, rfl⟩

/-- Only nodes that are declared have names. -/
theorem name?_of_missing (hnone : d.found.circuit.node? id = none) : d.name? id = none := by
  rw [found, Found.node?_foldl_name, Option.map_eq_none_iff] at hnone
  rw [name?, Option.map_eq_none_iff, List.find?_eq_none]
  intro symbol _ htarget
  have hsome := isSome_of_target? (beq_iff_eq.1 htarget)
  rw [hnone] at hsome
  cases hsome

theorem mem_outputIds : id ∈ d.outputIds ↔ ∃ driver, d.Declares id (.output driver) := by
  rw [outputIds, List.mem_map]
  constructor
  · intro h
    obtain ⟨position, hposition, rfl⟩ := h
    rw [List.mem_range] at hposition
    exact ⟨d.outputs[position], position, List.getElem?_eq_getElem hposition, rfl⟩
  · intro h
    obtain ⟨driver, position, hdriver, rfl⟩ := h
    exact ⟨position, List.mem_range.2 (List.getElem?_eq_some_iff.1 hdriver).1, rfl⟩

theorem Fits.bound_lt_of_mem_outputIds (hd : d.Fits) (h : id ∈ d.outputIds) : d.bound < id := by
  obtain ⟨driver, hdeclares⟩ := mem_outputIds.1 h
  exact hd.bound_lt_of_declares hdeclares

theorem Fits.outputIds_sorted (hd : d.Fits) : d.outputIds.Pairwise (· < ·) := by
  rw [outputIds, List.pairwise_map]
  refine (List.pairwise_lt_range (n := d.outputs.length)).imp_of_mem fun {a b} ha hb hlt => ?_
  rw [List.mem_range] at ha hb
  have hroom := hd.room (List.ne_nil_of_length_pos (by omega))
  rw [UInt64.lt_iff_toNat_lt, Reader.toNat_outputId (by omega), Reader.toNat_outputId (by omega)]
  omega

/-- A node is used by the driver of an output or by a gate. -/
theorem Fits.used_iff (hd : d.Fits) : (∃ consumer, d.found.circuit.Feeds id consumer) ↔
    (∃ driver ∈ d.outputs, driver.node = id) ∨ ∃ consumer, d.Feeds id consumer := by
  simp only [hd.feeds_found_iff, exists_or]
  refine or_congr_left ⟨fun h => ?_, fun h => ?_⟩
  · obtain ⟨consumer, driver, ⟨position, hdriver, _⟩, hnode⟩ := h
    exact ⟨driver, List.mem_of_getElem? hdriver, hnode⟩
  · obtain ⟨driver, hdriver, hnode⟩ := h
    obtain ⟨position, hposition⟩ := List.mem_iff_getElem?.1 hdriver
    exact ⟨outputId d.bound position, driver, ⟨position, hposition, rfl⟩, hnode⟩

/-- Below the bound the nodes that are missing are those that no input line and no gate line
    declares. -/
theorem Fits.kind?_found_eq_none_iff (hd : d.Fits) (hle : id ≤ d.bound) :
    d.found.circuit.kind? id = none ↔ id ≠ 0 ∧ d.input? id = none ∧ d.gate? id = none := by
  simp only [Option.eq_none_iff_forall_ne_some, ne_eq, hd.kind?_found_iff]
  constructor
  · intro h
    exact ⟨h .constant, fun e he => h _ (declares_of_input? he),
      fun gate hgate => h _ (declares_of_gate? hgate)⟩
  · intro h kind hkind
    obtain ⟨hzero, hinput, hgate⟩ := h
    cases kind with
    | constant => exact hzero hkind
    | input inverted => exact hinput _ hkind
    | gate left right => exact hgate _ hkind
    | undefined => exact hkind
    | output driver => exact UInt64.not_lt.2 hle (hd.bound_lt_of_declares hkind)

theorem WrittenIn.declared (h : d.WrittenIn lines) : d.found.circuit.Declared d.bound := by
  obtain ⟨t, hrun, hfound⟩ := declarations_of_writtenIn h
  have hdeclared := Reader.declared_of_declarations rfl hrun
  rwa [show t.circuit = d.found.circuit from congrArg Found.circuit hfound] at hdeclared

/-- What a description is read as, once its nodes are tied together, is what it says. -/
theorem WrittenIn.denotes (h : d.WrittenIn lines) : d.Denotes d.found.circuit.connect := by
  have hd := h.fits
  have hdeclared := h.declared
  have hwell := hdeclared.connect
  have hkind : ∀ {id kind}, kind ≠ .undefined →
      (d.found.circuit.connect.kind? id = some kind ↔ d.Declares id kind) := by
    intro id kind hdefined
    rw [hdeclared.kind?_connect, hd.kind?_found_iff]
    simp [hdefined]
  have hnode : ∀ {id n}, d.found.circuit.connect.node? id = some n →
      n.name = d.name? id ∧ n.value = false ∧ n.signature = #[] := by
    intro id n hn
    obtain ⟨m, hm, hunread⟩ | ⟨hnone, line, hunread⟩ := Circuit.node?_foldl_tie hn
    · have hm := of_node?_found hm
      cases n
      cases m
      simp_all [Node.unread]
    · have hname := name?_of_missing hnone
      cases n
      simp_all [Node.unread, Node.fresh]
  refine ⟨hwell, ?_, ?_, hkind (by simp), hkind (by simp), hkind (by simp), ?_, ?_, ?_, ?_⟩
  · exact (Circuit.unchanged_foldl_tie _ _).1.trans hdeclared.maxVar_eq
  · refine eq_of_sorted hwell.outputs_sorted hd.outputIds_sorted fun id => ?_
    rw [hwell.mem_outputs, mem_outputIds]
    exact exists_congr fun driver => hkind (by simp)
  · intro id
    rw [hdeclared.kind?_connect, hd.kind?_found_iff, ← hd.used_iff]
    constructor
    · intro h
      obtain hdeclares | ⟨hnone, _, consumer, hfeeds⟩ := h
      · exact hdeclares.elim
      · obtain ⟨kind, hkind, e, he, hnode⟩ := hfeeds
        have hle := hnode ▸ hdeclared.fanin_le hkind e he
        obtain ⟨hzero, hinput, hgate⟩ := (hd.kind?_found_eq_none_iff hle).1 hnone
        exact ⟨hzero, hinput, hgate, consumer, kind, hkind, e, he, hnode⟩
    · intro h
      obtain ⟨hzero, hinput, hgate, consumer, kind, hkind, e, he, hnode⟩ := h
      have hle := hnode ▸ hdeclared.fanin_le hkind e he
      refine .inr ⟨?_, rfl, consumer, kind, hkind, e, he, hnode⟩
      exact (hd.kind?_found_eq_none_iff hle).2 ⟨hzero, hinput, hgate⟩
  · exact fun hn => (hnode hn).1
  · exact fun hn => (hnode hn).2
  · exact (Circuit.unchanged_foldl_tie _ _).2.trans hdeclared.classes_eq

theorem Denotes.feeds_iff (h : d.Denotes c) {source consumer : NodeId} :
    c.Feeds source consumer ↔
      (∃ driver, c.kind? consumer = some (.output driver) ∧ driver.node = source) ∨
        d.Feeds source consumer := by
  rw [Circuit.feeds_iff_output_or_gate, Description.feeds_iff]
  simp only [h.gate_iff]

/-- The circuit has a cycle exactly when the gates of the description have one, since nothing
    reads an output. -/
theorem Denotes.acyclic_iff (h : d.Denotes c) : c.Acyclic ↔ d.Acyclic := by
  have hsource : ∀ {source consumer}, c.Feeds source consumer →
      ∀ driver, c.kind? source ≠ some (.output driver) := by
    intro source consumer hfeeds driver hkind
    obtain ⟨kind, hconsumer, e, he, rfl⟩ := hfeeds
    obtain ⟨other, hother, houtput⟩ := h.wellFormed.fanin hconsumer e he
    rw [hkind] at hother
    rw [← Option.some.inj hother] at houtput
    cases houtput
  have hgate : ∀ {a b}, c.Feeds a b → (∀ driver, c.kind? b ≠ some (.output driver)) →
      d.Feeds a b := by
    intro a b hfeeds hb
    refine (h.feeds_iff.1 hfeeds).resolve_left fun houtput => ?_
    obtain ⟨driver, hkind, _⟩ := houtput
    exact hb driver hkind
  have hpath : ∀ {a b}, TransGen c.Feeds a b → (∀ driver, c.kind? b ≠ some (.output driver)) →
      TransGen d.Feeds a b := by
    intro a b hpath
    induction hpath with
    | single hfeeds => exact fun hb => .single (hgate hfeeds hb)
    | tail _ hfeeds ih => exact fun hb => .tail (ih (hsource hfeeds)) (hgate hfeeds hb)
  constructor
  · intro hacyclic id hcycle
    exact hacyclic id (TransGen.mono (fun _ _ hfeeds => h.feeds_iff.2 (.inr hfeeds)) _ _ hcycle)
  · intro hacyclic id hcycle
    obtain ⟨next, hfirst, _⟩ := TransGen.head'_iff.1 hcycle
    exact hacyclic id (hpath hcycle (hsource hfirst))

end Description

/-- What reading a description comes to: its nodes are tied together, and the circuit is accepted
    if its gates have no cycle. -/
theorem Description.WrittenIn.read_eq {d : Description} {text : ByteArray}
    (h : d.WrittenIn (Text.lines text)) : read text =
      (d.found.circuit.connect.audit.map fun _ => d.found.circuit.connect, d.found.warnings) := by
  obtain ⟨t, hrun, hfound⟩ := declarations_of_writtenIn h
  rw [← hfound, read, Reader.circuit_eq, estateM_bind_of_ok hrun, Reader.completion_eq]
  dsimp only [Reading.found]
  cases t.circuit.connect.audit <;> rfl

theorem Description.WrittenIn.read_eq_ok_iff {d : Description} {text : ByteArray} {c : Circuit}
    (h : d.WrittenIn (Text.lines text)) :
    (read text).1 = .ok c ↔ c = d.found.circuit.connect ∧ d.Acyclic := by
  have hdenotes := h.denotes
  rw [h.read_eq, ← hdenotes.acyclic_iff, ← hdenotes.wellFormed.audit_eq_ok_iff]
  cases d.found.circuit.connect.audit with
  | ok _ => simp [Except.map, eq_comm]
  | error failure => simp [Except.map]

/-- A circuit that is read comes from a description. -/
theorem exists_writtenIn_of_read {text : ByteArray} {c : Circuit} (h : (read text).1 = .ok c) :
    ∃ d : Description, d.WrittenIn (Text.lines text) := by
  unfold read at h
  cases hrun : Reader.circuit ⟨Text.lines text, 0, .empty, #[]⟩ with
  | error failure t =>
    rw [hrun] at h
    cases h
  | ok other t =>
    obtain ⟨⟨bound, hdeclarations⟩, _⟩ := Reader.circuit_eq_ok_iff.1 hrun
    obtain ⟨d, hwritten, _⟩ := Description.writtenIn_of_declarations hdeclarations
    exact ⟨d, hwritten⟩

/-- A text is read exactly when it is a description whose gates have no cycle, and then as the
    circuit that the description denotes. -/
theorem read_denotes (text : ByteArray) :
    ((∃ c, (read text).1 = .ok c) ↔
      ∃ d : Description, d.WrittenIn (Text.lines text) ∧ d.Acyclic) ∧
    ∀ (c : Circuit) (d : Description), (read text).1 = .ok c → d.WrittenIn (Text.lines text) →
      d.Denotes c := by
  refine ⟨⟨fun h => ?_, fun h => ?_⟩, fun c d hc hwritten => ?_⟩
  · obtain ⟨c, hc⟩ := h
    obtain ⟨d, hwritten⟩ := exists_writtenIn_of_read hc
    exact ⟨d, hwritten, (hwritten.read_eq_ok_iff.1 hc).2⟩
  · obtain ⟨d, hwritten, hacyclic⟩ := h
    exact ⟨_, hwritten.read_eq_ok_iff.2 ⟨rfl, hacyclic⟩⟩
  · obtain ⟨rfl, _⟩ := hwritten.read_eq_ok_iff.1 hc
    exact hwritten.denotes

/-- An inverted input, a repeated one, an undefined node, a repeated gate and two names, of which
    one has a space in it. Nothing behind the comment counts. -/
def sample : ByteArray :=
  "aag 7 3 0 2 2\n3\n4\n2\n6\n15\n6 2 5\n6 3 3\ni0 a b\no1 z\nc\n???\n".toUTF8

theorem read_denotes_sample : ∃ (c : Circuit) (d : Description), (read sample).1 = .ok c ∧
    d.WrittenIn (Text.lines sample) ∧ d.Acyclic ∧ d.Denotes c ∧ d.input? 1 = some ⟨1, true⟩ ∧
    d.gate? 3 = some ⟨3, ⟨1, false⟩, ⟨2, true⟩⟩ ∧ c.kind? 7 = some .undefined ∧
    c.outputs = [8, 9] ∧ d.name? 1 = some "a b" := by
  have hrun : (read sample).1.toOption.any (fun c => c.kind? 1 = some (.input true) ∧
      c.kind? 3 = some (.gate ⟨1, false⟩ ⟨2, true⟩) ∧ c.kind? 7 = some .undefined ∧
      c.outputs = [8, 9] ∧ (c.node? 1).map (·.name) = some (some "a b")) = true := by decide +kernel
  cases hread : (read sample).1 with
  | error failure =>
    rw [hread] at hrun
    cases hrun
  | ok c =>
    rw [hread] at hrun
    obtain ⟨hinput, hgate, hundefined, houtputs, hname⟩ := of_decide_eq_true hrun
    obtain ⟨hiff, hdenotes⟩ := read_denotes sample
    obtain ⟨d, hwritten, hacyclic⟩ := hiff.1 ⟨c, hread⟩
    have hd := hdenotes c d hread hwritten
    obtain ⟨n, hn, hname⟩ := Option.map_eq_some_iff.1 hname
    exact ⟨c, d, rfl, hwritten, hacyclic, hd, hd.input_iff.1 hinput, hd.gate_iff.1 hgate,
      hundefined, houtputs, (hd.name hn).symm.trans hname⟩

end AndInverter.Aiger
