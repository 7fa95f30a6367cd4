import AndInverter.Proofs.WellFormed.Reader

namespace AndInverter.Aiger

open Text (Holds)

/-- What a reading has found so far. -/
structure Found where
  circuit : Circuit
  warnings : Array Warning

namespace Found

/-- Enters a node, unless its id was declared before. -/
def enter (f : Found) (n : Node) : Found :=
  match f.circuit.node? n.id with
  | some previous => ⟨f.circuit, f.warnings.push (.redefined n.line n.id previous.line)⟩
  | none => ⟨f.circuit.insert n, f.warnings⟩

/-- Names the node of a symbol that stands in some line, unless it has a name. -/
def name (target? : Symbol → Option NodeId) (f : Found) (entry : Symbol × Nat) : Found :=
  match target? entry.1 with
  | none => f
  | some id =>
    match (f.circuit.node? id).bind (·.name) with
    | some kept => ⟨f.circuit, f.warnings.push (.renamed entry.2 entry.1.name id kept)⟩
    | none => ⟨f.circuit.update id fun n => { n with name := some entry.1.name }, f.warnings⟩

/-- A name that is given makes no node and removes none. -/
theorem isSome_node?_name (target? : Symbol → Option NodeId) (f : Found) (entry : Symbol × Nat)
    (id : NodeId) :
    ((f.name target? entry).circuit.node? id).isSome = (f.circuit.node? id).isSome := by
  unfold name
  split
  · rfl
  · split
    · rfl
    · rw [Circuit.node?_update]
      split
      · next heq => rw [Option.isSome_map, heq]
      · rfl

end Found

/-- The nodes of input lines, of which the first has the number `line`. -/
def inputNodes (line : Nat) (edges : List Edge) : List Node :=
  (edges.zipIdx line).map fun (e, line) => .fresh e.node (.input e.inverted) line

/-- The nodes of output lines from a position on. The first output has the line `start`. -/
def outputNodes (bound : NodeId) (start position : Nat) (drivers : List Edge) : List Node :=
  (drivers.zipIdx position).map fun (e, position) =>
    .fresh (outputId bound position) (.output e) (start + position)

/-- The nodes of gate lines, of which the first has the number `line`. -/
def gateNodes (line : Nat) (gates : List GateLine) : List Node :=
  (gates.zipIdx line).map fun (gate, line) => .fresh gate.id (.gate gate.left gate.right) line

namespace Reading

variable {α : Type} {p : List Char → α → Prop} {a : α} {items : List α} {r s t : Reading}

def found (r : Reading) : Found := ⟨r.circuit, r.warnings⟩

/-- The reading has taken one line for each item. -/
def Took (p : List Char → α → Prop) (items : List α) (r t : Reading) : Prop :=
  ∃ lines, r.rest = lines ++ t.rest ∧ t.taken = r.taken + items.length ∧
    List.Forall₂ (fun line a => Holds (p · a) line) lines items

theorem took_nil : Took p [] r t ↔ r.rest = t.rest ∧ t.taken = r.taken := by
  constructor
  · intro h
    obtain ⟨lines, hrest, htaken, hlines⟩ := h
    cases hlines
    exact ⟨hrest, htaken⟩
  · intro h
    exact ⟨[], h.1, h.2, .nil⟩

/-- To take lines for a longer list is to take one line and then the others. -/
theorem took_cons : Took p (a :: items) r t ↔
    ∃ line rest, r.rest = line :: rest ∧ Holds (p · a) line ∧
      Took p items { r with rest, taken := r.taken + 1 } t := by
  have htaken : t.taken = r.taken + (items.length + 1) ↔
      t.taken = r.taken + 1 + items.length := by omega
  constructor
  · intro h
    obtain ⟨lines, hrest, hcount, hlines⟩ := h
    obtain _ | @⟨line, _, lines, _, hline, hlines⟩ := hlines
    exact ⟨line, lines ++ t.rest, hrest, hline, lines, rfl, htaken.1 hcount, hlines⟩
  · intro h
    obtain ⟨line, rest, hrest, hline, lines, hlater, hcount, hlines⟩ := h
    refine ⟨line :: lines, ?_, htaken.2 hcount, .cons hline hlines⟩
    rw [hrest, List.cons_append]
    exact congrArg (line :: ·) hlater

end Reading

namespace Reader

variable {α β : Type} {r t : Reading} {bound : NodeId}

/-- What follows the taking of a line is handed its number and what it holds. -/
theorem line_bind_eq_ok_iff {part : Part} {k : Nat × List Char → Reader β} {b : β} :
    (line part >>= k) r = .ok b t ↔ ∃ chars rest, r.rest = some chars :: rest ∧
      k (r.taken + 1, Text.dropReturns chars) { r with rest, taken := r.taken + 1 } = .ok b t := by
  rw [line, estateM_bind_eq_ok_iff]
  constructor
  · intro h
    obtain ⟨item, s, hline, h⟩ := h
    obtain ⟨found, u, hfound, hline⟩ := estateM_bind_eq_ok_iff.1 hline
    unfold line? at hfound
    split at hfound
    · cases hfound
      cases hline
    · cases hfound
    · next chars rest hrest =>
      cases hfound
      cases hline
      exact ⟨chars, rest, hrest, h⟩
  · intro h
    obtain ⟨chars, rest, hrest, h⟩ := h
    refine ⟨_, _, estateM_bind_eq_ok_iff.2 ⟨some (Text.dropReturns chars),
      { r with rest, taken := r.taken + 1 }, ?_, rfl⟩, h⟩
    rw [line?, hrest]

/-- What follows a check is handed what was accepted. A failure passes through with the state as it
    is. -/
theorem check_bind_eq_ok_iff {result : Except SourceError α} {k : α → Reader β} {b : β} :
    (check result >>= k) r = .ok b t ↔ ∃ a, result = .ok a ∧ k a r = .ok b t := by
  rw [estateM_bind_eq_ok_iff]
  cases result with
  | ok a =>
    constructor
    · intro h
      obtain ⟨_, _, hcheck, h⟩ := h
      cases hcheck
      exact ⟨a, rfl, h⟩
    · intro h
      obtain ⟨_, ha, h⟩ := h
      cases ha
      exact ⟨a, r, rfl, h⟩
  | error failure =>
    constructor
    · intro h
      obtain ⟨_, _, hcheck, _⟩ := h
      cases hcheck
    · intro h
      obtain ⟨_, ha, _⟩ := h
      cases ha

/-- A node is entered or else passed over with a warning; either way the reader goes on. -/
theorem declareFirst_eq {n : Node} (hid : n.id ≠ 0) :
    declareFirst n r = .ok () { r with
      circuit := (r.found.enter n).circuit, warnings := (r.found.enter n).warnings } := by
  have hget : (get : Reader Reading) r = .ok r r := rfl
  rw [declareFirst, estateM_bind_of_ok hget]
  unfold Found.enter
  cases hn : r.circuit.node? n.id with
  | some previous =>
    simp only [Reading.found, hn]
    rfl
  | none =>
    simp only [Reading.found, hn, Circuit.declare_eq_ok_iff.2 ⟨hid, hn, rfl⟩]
    rfl

/-- Nothing has changed when no line was taken and nothing new was found. -/
theorem eq_of_took_nil {p : List Char → α → Prop} (htook : Reading.Took p [] r t)
    (hfound : t.found = r.found) : t = r := by
  obtain ⟨hrest, htaken⟩ := Reading.took_nil.1 htook
  obtain ⟨rest, taken, circuit, warnings⟩ := r
  obtain ⟨rest', taken', circuit', warnings'⟩ := t
  obtain ⟨rfl, rfl⟩ := Found.mk.inj hfound
  obtain rfl : rest = rest' := hrest
  obtain rfl : taken' = taken := htaken
  rfl

/-- The input part is read if each of its lines is an input line, and then its nodes are entered in
    turn. -/
theorem inputs_eq_ok_iff {count : Nat} {ids : List NodeId} :
    inputs bound count r = .ok ids t ↔ ∃ edges, edges.length = count ∧ ids = edges.map (·.node) ∧
      Reading.Took (IsInput bound) edges r t ∧
      t.found = (inputNodes (r.taken + 1) edges).foldl Found.enter r.found := by
  induction count generalizing r ids with
  | zero =>
    rw [inputs]
    constructor
    · intro h
      cases h
      exact ⟨[], rfl, rfl, Reading.took_nil.2 ⟨rfl, rfl⟩, rfl⟩
    · intro h
      obtain ⟨edges, hlength, rfl, htook, hfound⟩ := h
      obtain rfl := List.eq_nil_of_length_eq_zero hlength
      rw [eq_of_took_nil htook hfound]
      rfl
  | succ count ih =>
    rw [inputs]
    refine line_bind_eq_ok_iff.trans ?_
    constructor
    · intro h
      obtain ⟨chars, rest, hrest, h⟩ := h
      obtain ⟨e, he, h⟩ := check_bind_eq_ok_iff.1 h
      have he := inputLine_eq_ok_iff.1 he
      rw [estateM_bind_of_ok (declareFirst_eq he.1)] at h
      obtain ⟨others, u, hothers, h⟩ := estateM_bind_eq_ok_iff.1 h
      cases h
      obtain ⟨edges, rfl, rfl, htook, hfound⟩ := ih.1 hothers
      refine ⟨e :: edges, rfl, rfl, ?_, hfound⟩
      exact Reading.took_cons.2 ⟨some chars, rest, hrest, ⟨chars, rfl, he⟩, htook⟩
    · intro h
      obtain ⟨edges, hlength, rfl, htook, hfound⟩ := h
      obtain ⟨e, edges, rfl⟩ := List.exists_cons_of_length_eq_add_one hlength
      obtain ⟨_, rest, hrest, ⟨chars, rfl, he⟩, hothers⟩ := Reading.took_cons.1 htook
      refine ⟨chars, rest, hrest, check_bind_eq_ok_iff.2 ⟨e, inputLine_eq_ok_iff.2 he, ?_⟩⟩
      rw [estateM_bind_of_ok (declareFirst_eq he.1)]
      refine estateM_bind_eq_ok_iff.2 ⟨edges.map (·.node), t, ih.2 ?_, rfl⟩
      exact ⟨edges, Nat.succ.inj hlength, rfl, hothers, hfound⟩

/-- The gate part is read if each of its lines is a gate line, and then its nodes are entered in
    turn. -/
theorem gates_eq_ok_iff {count : Nat} :
    gates bound count r = .ok () t ↔ ∃ lines, lines.length = count ∧
      Reading.Took (IsGate bound) lines r t ∧
      t.found = (gateNodes (r.taken + 1) lines).foldl Found.enter r.found := by
  induction count generalizing r with
  | zero =>
    rw [gates]
    constructor
    · intro h
      cases h
      exact ⟨[], rfl, Reading.took_nil.2 ⟨rfl, rfl⟩, rfl⟩
    · intro h
      obtain ⟨lines, hlength, htook, hfound⟩ := h
      obtain rfl := List.eq_nil_of_length_eq_zero hlength
      rw [eq_of_took_nil htook hfound]
      rfl
  | succ count ih =>
    rw [gates]
    refine line_bind_eq_ok_iff.trans ?_
    constructor
    · intro h
      obtain ⟨chars, rest, hrest, h⟩ := h
      obtain ⟨gate, hgate, h⟩ := check_bind_eq_ok_iff.1 h
      have hgate := gateLine_eq_ok_iff.1 hgate
      rw [estateM_bind_of_ok (declareFirst_eq hgate.1)] at h
      obtain ⟨lines, rfl, htook, hfound⟩ := ih.1 h
      refine ⟨gate :: lines, rfl, ?_, hfound⟩
      exact Reading.took_cons.2 ⟨some chars, rest, hrest, ⟨chars, rfl, hgate⟩, htook⟩
    · intro h
      obtain ⟨lines, hlength, htook, hfound⟩ := h
      obtain ⟨gate, lines, rfl⟩ := List.exists_cons_of_length_eq_add_one hlength
      obtain ⟨_, rest, hrest, ⟨chars, rfl, hgate⟩, hothers⟩ := Reading.took_cons.1 htook
      refine ⟨chars, rest, hrest, check_bind_eq_ok_iff.2 ⟨gate, gateLine_eq_ok_iff.2 hgate, ?_⟩⟩
      rw [estateM_bind_of_ok (declareFirst_eq hgate.1)]
      exact ih.2 ⟨lines, Nat.succ.inj hlength, hothers, hfound⟩

theorem toNat_outputId {position : Nat} (h : bound.toNat + 1 + position < UInt64.size) :
    (outputId bound position).toNat = bound.toNat + 1 + position :=
  UInt64.toNat_ofNat_of_lt' h

/-- The next output is fresh when all ids so far lie below it. -/
theorem declare_output_eq {position line : Nat} {driver : Edge} {n : Node}
    (hn : n = .fresh (outputId bound position) (.output driver) line)
    (hroom : bound.toNat + 1 + position < UInt64.size)
    (hbelow : ∀ id, (r.circuit.node? id).isSome = true → id.toNat < bound.toNat + 1 + position) :
    r.circuit.declare n = .ok (r.circuit.insert n) ∧
      r.found.enter n = ⟨r.circuit.insert n, r.warnings⟩ ∧
      ∀ id, ((r.circuit.insert n).node? id).isSome = true →
        id.toNat < bound.toNat + 1 + (position + 1) := by
  have hid : n.id.toNat = bound.toNat + 1 + position := by
    rw [hn]
    exact toNat_outputId hroom
  have hfresh : r.circuit.node? n.id = none := by
    rw [← Option.not_isSome_iff_eq_none]
    intro hsome
    have hlt := hbelow n.id hsome
    omega
  have hzero : n.id ≠ 0 := by
    intro hzero
    rw [hzero] at hid
    change 0 = _ at hid
    omega
  refine ⟨Circuit.declare_eq_ok_iff.2 ⟨hzero, hfresh, rfl⟩, ?_, fun id hsome => ?_⟩
  · rw [Found.enter, Reading.found]
    dsimp only
    rw [hfresh]
  · rw [Circuit.node?_insert] at hsome
    split at hsome
    · next heq =>
      rw [← heq]
      omega
    · have hlt := hbelow id hsome
      omega

theorem foldl_enter_outputNodes {position line start : Nat} {driver : Edge} {drivers : List Edge}
    {f g : Found} (hline : line = start + position)
    (henter : f.enter (.fresh (outputId bound position) (.output driver) line) = g) :
    (outputNodes bound start position (driver :: drivers)).foldl Found.enter f =
      (outputNodes bound start (position + 1) drivers).foldl Found.enter g := by
  rw [outputNodes, List.zipIdx_cons, List.map_cons, List.foldl_cons]
  dsimp only
  rw [← hline, henter, outputNodes]

/-- The next output is always new, so it is declared as soon as there is an id for it. -/
theorem outputs_succ_eq_ok_iff {count position : Nat} {ids : List NodeId}
    (hbelow : ∀ id, (r.circuit.node? id).isSome = true → id.toNat < bound.toNat + 1 + position) :
    outputs bound position (count + 1) r = .ok ids t ↔ ∃ chars rest e others,
      r.rest = some chars :: rest ∧ IsOutput bound (Text.dropReturns chars) e ∧
      bound.toNat + 1 + position < UInt64.size ∧ ids = outputId bound position :: others ∧
      outputs bound (position + 1) count { r with
        rest, taken := r.taken + 1
        circuit := r.circuit.insert
          (.fresh (outputId bound position) (.output e) (r.taken + 1)) } = .ok others t := by
  have hid : UInt64.ofNat (bound.toNat + 1 + position) = outputId bound position := rfl
  rw [outputs]
  refine line_bind_eq_ok_iff.trans ?_
  constructor
  · intro h
    obtain ⟨chars, rest, hrest, h⟩ := h
    obtain ⟨e, he, h⟩ := check_bind_eq_ok_iff.1 h
    dsimp only at h
    split at h
    · next hroom =>
      obtain ⟨_, _, hget, h⟩ := estateM_bind_eq_ok_iff.1 h
      cases hget
      dsimp only at h
      rw [hid, (declare_output_eq rfl hroom hbelow).1] at h
      obtain ⟨_, _, hmodify, h⟩ := estateM_bind_eq_ok_iff.1 h
      cases hmodify
      obtain ⟨others, _, hothers, h⟩ := estateM_bind_eq_ok_iff.1 h
      cases h
      exact ⟨chars, rest, e, others, hrest, outputLine_eq_ok_iff.1 he, hroom, rfl, hothers⟩
    · cases h
  · intro h
    obtain ⟨chars, rest, e, others, hrest, he, hroom, rfl, hothers⟩ := h
    refine ⟨chars, rest, hrest, check_bind_eq_ok_iff.2 ⟨e, outputLine_eq_ok_iff.2 he, ?_⟩⟩
    dsimp only
    rw [if_pos hroom]
    refine estateM_bind_eq_ok_iff.2 ⟨_, _, rfl, ?_⟩
    dsimp only
    rw [hid, (declare_output_eq rfl hroom hbelow).1]
    refine estateM_bind_eq_ok_iff.2 ⟨(), _, rfl, ?_⟩
    exact estateM_bind_eq_ok_iff.2 ⟨others, t, hothers, rfl⟩

/-- The outputs get the ids above the bound one after the other, as long as there are any. -/
theorem outputs_eq_ok_iff {count position start : Nat} {ids : List NodeId}
    (hstart : r.taken + 1 = start + position)
    (hbelow : ∀ id, (r.circuit.node? id).isSome = true → id.toNat < bound.toNat + 1 + position) :
    outputs bound position count r = .ok ids t ↔ ∃ drivers, drivers.length = count ∧
      ids = (List.range' position count).map (outputId bound) ∧
      (drivers ≠ [] → bound.toNat + position + count < UInt64.size) ∧
      Reading.Took (IsOutput bound) drivers r t ∧
      t.found = (outputNodes bound start position drivers).foldl Found.enter r.found := by
  induction count generalizing r ids position with
  | zero =>
    rw [outputs]
    constructor
    · intro h
      cases h
      exact ⟨[], rfl, rfl, fun h => (h rfl).elim, Reading.took_nil.2 ⟨rfl, rfl⟩, rfl⟩
    · intro h
      obtain ⟨drivers, hlength, rfl, _, htook, hfound⟩ := h
      obtain rfl := List.eq_nil_of_length_eq_zero hlength
      rw [eq_of_took_nil htook hfound]
      rfl
  | succ count ih =>
    rw [outputs_succ_eq_ok_iff hbelow, List.range'_succ, List.map_cons]
    constructor
    · intro h
      obtain ⟨chars, rest, e, others, hrest, he, hfirst, rfl, hothers⟩ := h
      obtain ⟨_, henter, hnext⟩ := declare_output_eq rfl hfirst hbelow
      obtain ⟨drivers, rfl, rfl, hmore, htook, hfound⟩ := (ih (by dsimp only; omega) hnext).1 hothers
      refine ⟨e :: drivers, rfl, rfl, fun _ => ?_, ?_, ?_⟩
      · cases drivers with
        | nil =>
          rw [List.length_nil]
          omega
        | cons second drivers =>
          have hmore := hmore (List.cons_ne_nil second drivers)
          omega
      · exact Reading.took_cons.2 ⟨some chars, rest, hrest, ⟨chars, rfl, he⟩, htook⟩
      · exact hfound.trans (foldl_enter_outputNodes hstart henter).symm
    · intro h
      obtain ⟨drivers, hlength, rfl, hroom, htook, hfound⟩ := h
      obtain ⟨e, drivers, rfl⟩ := List.exists_cons_of_length_eq_add_one hlength
      obtain ⟨_, rest, hrest, ⟨chars, rfl, he⟩, hothers⟩ := Reading.took_cons.1 htook
      have hroom := hroom (List.cons_ne_nil e drivers)
      have hfirst : bound.toNat + 1 + position < UInt64.size := by omega
      obtain ⟨_, henter, hnext⟩ := declare_output_eq rfl hfirst hbelow
      refine ⟨chars, rest, e, _, hrest, he, hfirst, rfl, (ih (by dsimp only; omega) hnext).2 ?_⟩
      refine ⟨drivers, Nat.succ.inj hlength, rfl, fun _ => by omega, hothers, ?_⟩
      exact hfound.trans (foldl_enter_outputNodes hstart henter)

/-- A line of the symbol table names a node and is followed by the rest of the table, or ends it. -/
theorem symbols_cons {inputs outputs : List NodeId} {budget : Nat} {chars : List Char}
    {rest : List Text.Line} (hrest : r.rest = some chars :: rest) :
    symbols inputs outputs (budget + 1) r =
      let s := { r with rest, taken := r.taken + 1 }
      match symbolLine (r.taken + 1) (Text.dropReturns chars) with
      | .error failure => .error (.source failure) s
      | .ok none => .ok () s
      | .ok (some symbol) =>
        match target? inputs outputs symbol with
        | none => .error (.source (.token (r.taken + 1) (.symbolRange symbol.position))) s
        | some id => (nameFirst (r.taken + 1) id symbol.name >>= fun _ =>
            symbols inputs outputs budget) s := by
  have hline : line? r =
      .ok (some (Text.dropReturns chars)) { r with rest, taken := r.taken + 1 } := by
    rw [line?, hrest]
  rw [symbols, estateM_bind_of_ok hline]
  dsimp only
  change (check (symbolLine (r.taken + 1) (Text.dropReturns chars)) >>= _)
    { r with rest, taken := r.taken + 1 } = _
  cases symbolLine (r.taken + 1) (Text.dropReturns chars) with
  | error failure => rfl
  | ok found =>
    cases found with
    | none => rfl
    | some symbol =>
      dsimp only
      change (match target? inputs outputs symbol with
        | none => do
          throw (.source (.token (r.taken + 1) (.symbolRange symbol.position)))
          symbols inputs outputs budget
        | some id => do
          nameFirst (r.taken + 1) id symbol.name
          symbols inputs outputs budget : Reader Unit) { r with rest, taken := r.taken + 1 } = _
      cases target? inputs outputs symbol <;> rfl

/-- A node that is there is named, or keeps its name with a warning. -/
theorem nameFirst_eq {line : Nat} {id : NodeId} {symbol : Symbol}
    {target : Symbol → Option NodeId} (htarget : target symbol = some id)
    (hid : (r.circuit.node? id).isSome = true) :
    nameFirst line id symbol.name r = .ok () { r with
      circuit := (r.found.name target (symbol, line)).circuit
      warnings := (r.found.name target (symbol, line)).warnings } := by
  obtain ⟨n, hn⟩ := Option.isSome_iff_exists.1 hid
  have hget : (get : Reader Reading) r = .ok r r := rfl
  rw [nameFirst, estateM_bind_of_ok hget, Circuit.node_eq_ok_iff.2 hn]
  dsimp only
  unfold Found.name
  rw [htarget]
  dsimp only [Reading.found]
  rw [hn, Option.bind_some]
  cases n.name <;> rfl

section Symbols

variable {inputs outputs : List NodeId} {budget : Nat}

theorem symbols_nil (hrest : r.rest = []) : symbols inputs outputs (budget + 1) r = .ok () r := by
  have hline : line? r = .ok none r := by rw [line?, hrest]
  rw [symbols, estateM_bind_of_ok hline]
  rfl

theorem symbols_unreadable {rest : List Text.Line} (hrest : r.rest = none :: rest) :
    symbols inputs outputs (budget + 1) r = .error (.source (.unreadable .notText)) r := by
  have hline : line? r = .error (.source (.unreadable .notText)) r := by rw [line?, hrest]
  rw [symbols, estateM_bind_of_error hline]

/-- A symbol table that is read has been taken line by line up to its end. -/
theorem took_of_symbols (hbudget : r.rest.length < budget)
    (hpresent : ∀ symbol id, target? inputs outputs symbol = some id →
      (r.circuit.node? id).isSome = true)
    (hrun : symbols inputs outputs budget r = .ok () t) :
    ∃ items s, Reading.Took IsSymbol items r s ∧ (∀ line ∈ s.rest.head?, Holds IsEnd line) ∧
      (∀ symbol ∈ items, (target? inputs outputs symbol).isSome = true) ∧
      t.found = (items.zipIdx (r.taken + 1)).foldl (Found.name (target? inputs outputs)) r.found := by
  induction budget generalizing r with
  | zero => omega
  | succ budget ih =>
    match hrest : r.rest with
    | [] =>
      rw [symbols_nil hrest] at hrun
      cases hrun
      exact ⟨[], t, Reading.took_nil.2 ⟨rfl, rfl⟩, by simp [hrest], by simp, rfl⟩
    | none :: rest =>
      rw [symbols_unreadable hrest] at hrun
      cases hrun
    | some chars :: rest =>
      rw [symbols_cons hrest] at hrun
      dsimp only at hrun
      split at hrun
      · cases hrun
      · next hend =>
        cases hrun
        refine ⟨[], r, Reading.took_nil.2 ⟨rfl, rfl⟩, fun line hline => ?_, by simp, rfl⟩
        rw [hrest] at hline
        obtain rfl := Option.some.inj hline
        exact ⟨chars, rfl, symbolLine_eq_none_iff.1 hend⟩
      · next symbol hsymbol =>
        split at hrun
        · cases hrun
        · next id htarget =>
          rw [estateM_bind_of_ok (nameFirst_eq (r := { r with rest, taken := r.taken + 1 }) htarget
            (hpresent symbol id htarget))] at hrun
          rw [hrest, List.length_cons] at hbudget
          obtain ⟨items, s, htook, hend, htargets, hfound⟩ := ih (by dsimp only; omega)
            (fun other target hother =>
              (Found.isSome_node?_name ..).trans (hpresent other target hother)) hrun
          refine ⟨symbol :: items, s, Reading.took_cons.2 ?_, hend, ?_, hfound⟩
          · exact ⟨some chars, rest, hrest, ⟨chars, rfl, symbolLine_eq_some_iff.1 hsymbol⟩, htook⟩
          · exact List.forall_mem_cons.2 ⟨by rw [htarget]; rfl, htargets⟩

/-- Symbols that have a node are read, and so is the end of their table. -/
theorem symbols_of_took {items : List Symbol} {s : Reading} (hbudget : r.rest.length < budget)
    (hpresent : ∀ symbol id, target? inputs outputs symbol = some id →
      (r.circuit.node? id).isSome = true)
    (htook : Reading.Took IsSymbol items r s) (hend : ∀ line ∈ s.rest.head?, Holds IsEnd line)
    (htargets : ∀ symbol ∈ items, (target? inputs outputs symbol).isSome = true) :
    ∃ t, symbols inputs outputs budget r = .ok () t ∧
      t.found = (items.zipIdx (r.taken + 1)).foldl (Found.name (target? inputs outputs)) r.found := by
  obtain ⟨budget, rfl⟩ : ∃ spare, budget = spare + 1 := ⟨budget - 1, by omega⟩
  induction items generalizing r budget with
  | nil =>
    obtain ⟨hsame, _⟩ := Reading.took_nil.1 htook
    match hrest : r.rest with
    | [] => exact ⟨r, symbols_nil hrest, rfl⟩
    | line :: rest =>
      rw [← hsame, hrest] at hend
      obtain ⟨chars, rfl, hlast⟩ := hend line rfl
      refine ⟨{ r with rest, taken := r.taken + 1 }, ?_, rfl⟩
      rw [symbols_cons hrest, symbolLine_eq_none_iff.2 hlast]
  | cons symbol items ih =>
    obtain ⟨_, rest, hrest, ⟨chars, rfl, hsymbol⟩, htook⟩ := Reading.took_cons.1 htook
    obtain ⟨hsome, htargets⟩ := List.forall_mem_cons.1 htargets
    obtain ⟨id, htarget⟩ := Option.isSome_iff_exists.1 hsome
    rw [symbols_cons hrest, symbolLine_eq_some_iff.2 hsymbol]
    dsimp only
    rw [htarget]
    dsimp only
    rw [estateM_bind_of_ok (nameFirst_eq (r := { r with rest, taken := r.taken + 1 }) htarget
      (hpresent symbol id htarget))]
    rw [hrest, List.length_cons] at hbudget
    obtain ⟨spare, rfl⟩ : ∃ spare, budget = spare + 1 := ⟨budget - 1, by omega⟩
    apply ih
    · exact fun other target hother =>
        (Found.isSome_node?_name ..).trans (hpresent other target hother)
    · exact htook
    · exact htargets
    · dsimp only
      omega

end Symbols

end Reader

end AndInverter.Aiger
