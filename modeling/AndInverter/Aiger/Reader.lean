import AndInverter.Aiger.Grammar
import AndInverter.Aiger.Warning
import AndInverter.Circuit.Audit
import AndInverter.Circuit.Build
import AndInverter.Text.Lines

namespace AndInverter.Aiger

/-- A description being read: the lines that are left, the number of lines taken, the circuit as
    far as it was declared, and what was passed over. -/
structure Reading where
  rest : List Text.Line
  taken : Nat
  circuit : Circuit
  warnings : Array Warning

/-- Steps of reading. Warnings are kept when a later step fails. -/
abbrev Reader := EStateM Error Reading

namespace Reader

variable {α : Type}

def check (result : Except SourceError α) : Reader α :=
  match result with
  | .ok a => pure a
  | .error failure => throw (.source failure)

def warn (warning : Warning) : Reader Unit :=
  modify fun r => { r with warnings := r.warnings.push warning }

/-- Takes the next line, without the carriage returns at its end. A line that is not text stops
    the reader, but only once it is reached. -/
def line? : Reader (Option (List Char)) := fun r =>
  match r.rest with
  | [] => .ok none r
  | none :: _ => .error (.source (.unreadable .notText)) r
  | some line :: rest =>
    .ok (some (Text.dropReturns line)) { r with rest, taken := r.taken + 1 }

/-- Takes the next line, which the part being read has to have, and tells its number. -/
def line (part : Part) : Reader (Nat × List Char) := do
  match ← line? with
  | some text => return ((← get).taken, text)
  | none => throw (.source (.token ((← get).taken + 1) (.endOfText part)))

/-- Enters a node, unless its id was declared before. -/
def declareFirst (n : Node) : Reader Unit := do
  let r ← get
  match r.circuit.node? n.id with
  | some previous => warn (.redefined n.line n.id previous.line)
  | none =>
    match r.circuit.declare n with
    | .ok circuit => set { r with circuit }
    | .error failure => throw failure

/-- Reads the input part: the ids in the order of their lines, repetitions included. -/
def inputs (bound : NodeId) : Nat → Reader (List NodeId)
  | 0 => return []
  | count + 1 => do
    let (line, text) ← line .input
    let e ← check (inputLine bound line text)
    declareFirst (.fresh e.node (.input e.inverted) line)
    return e.node :: (← inputs bound count)

/-- Reads the output part. The output at a position has the id that lies as far above the first
    free one. -/
def outputs (bound : NodeId) (position : Nat) : Nat → Reader (List NodeId)
  | 0 => return []
  | count + 1 => do
    let (line, text) ← line .output
    let e ← check (outputLine bound line text)
    let id := bound.toNat + 1 + position
    unless id < UInt64.size do throw (.source (.token 1 (.noOutputId bound position)))
    let id := UInt64.ofNat id
    match (← get).circuit.declare (.fresh id (.output e) line) with
    | .ok circuit => modify fun r => { r with circuit }
    | .error failure => throw failure
    return id :: (← outputs bound (position + 1) count)

/-- Reads the gate part. -/
def gates (bound : NodeId) : Nat → Reader Unit
  | 0 => return
  | count + 1 => do
    let (line, text) ← line .gate
    let gate ← check (gateLine bound line text)
    declareFirst (.fresh gate.id (.gate gate.left gate.right) line)
    gates bound count

/-- Names a node, unless it has a name. -/
def nameFirst (line : Nat) (id : NodeId) (name : String) : Reader Unit := do
  match (← get).circuit.node id with
  | .error failure => throw failure
  | .ok n =>
    match n.name with
    | some kept => warn (.renamed line name id kept)
    | none =>
      modify fun r => { r with circuit := r.circuit.update id fun n => { n with name := some name } }

/-- Reads the symbol table, up to a line that ends it or to the end of the text. There are no more
    entries than lines, which `budget` counts. -/
def symbols (inputs outputs : List NodeId) : Nat → Reader Unit
  | 0 => return
  | budget + 1 => do
    match ← line? with
    | none => return
    | some text =>
      let line := (← get).taken
      match ← check (symbolLine line text) with
      | none => return
      | some symbol =>
        match (if symbol.isInput then inputs else outputs)[symbol.position]? with
        | none => throw (.source (.token line (.symbolRange symbol.position)))
        | some id => nameFirst line id symbol.name
        symbols inputs outputs budget

/-- Reads a whole description. The nodes are tied together once all are declared, and the circuit
    is accepted if it is consistent. -/
def circuit : Reader Circuit := do
  let (_, text) ← line .header
  let header ← check (Header.parse text)
  modify fun r => { r with circuit := { r.circuit with maxVar := header.bound } }
  let inputs ← inputs header.bound header.inputs.toNat
  let outputs ← outputs header.bound 0 header.outputs.toNat
  gates header.bound header.gates.toNat
  symbols inputs outputs ((← get).rest.length + 1)
  let c := (← get).circuit.connect
  match c.audit with
  | .ok () => return c
  | .error failure => throw failure

end Reader

/-- The circuit that a text describes, and what was passed over in reading it. -/
def read (text : ByteArray) : Except Error Circuit × Array Warning :=
  match Reader.circuit ⟨Text.lines text, 0, .empty, #[]⟩ with
  | .ok c r => (.ok c, r.warnings)
  | .error failure r => (.error failure, r.warnings)

/-- The circuit that a file describes. There are no contents when there is no file. -/
def readIfPresent (contents : Option ByteArray) : Except Error Circuit × Array Warning :=
  match contents with
  | some text => read text
  | none => (.error (.source (.unreadable .noSuchFile)), #[])

end AndInverter.Aiger
