import AndInverter.Circuit.Classes
import AndInverter.Circuit.Pass
import AndInverter.Simulation.Generator
import AndInverter.Simulation.Pattern
import AndInverter.Simulation.Sink

namespace AndInverter

namespace Circuit

/-- Forgets what earlier simulations appended to the signatures. The last values stay. -/
def resetSignatures (c : Circuit) : Circuit :=
  { c with nodes := c.nodes.map fun _ n => { n with signature := #[] } }

/-- The value at the consumer's end of an edge. -/
def readEdge (c : Circuit) (e : Edge) : Except Error Bool := do
  return (← c.node e.node).value ^^ e.inverted

/-- The value of a node by the values of its fanins. An input has none of its own, and a gate whose
    left fanin is low does not look at the right one. -/
def evaluate? (c : Circuit) : Kind → Except Error (Option Bool)
  | .input _ => return none
  | .constant | .undefined => return some false
  | .output fanin => do return some (← c.readEdge fanin)
  | .gate left right => do
    if ← c.readEdge left then return some (← c.readEdge right)
    return some false

/-- The values of the outputs, in order. -/
def readOutputs (c : Circuit) : Except Error (List Bool) :=
  c.outputs.mapM fun id => do return (← c.node id).value

end Circuit

/-- What a simulation did: the number of patterns, and the lines it passed over. -/
structure SimulationReport where
  patterns : Nat
  skipped : Array (Nat × PatternError)
deriving DecidableEq

/-- A simulation under way. -/
structure Simulation (τ : Type) where
  circuit : Circuit
  log : τ
  report : SimulationReport

namespace Simulation

variable {τ : Type}

/-- Steps of a simulation. What was simulated before a failure stays. -/
abbrev Step (τ : Type) := EStateM Error (Simulation τ)

def changeCircuit (change : Circuit → Circuit) : Step τ Unit :=
  modify fun s => { s with circuit := change s.circuit }

def note (f : SimulationReport → SimulationReport) : Step τ Unit :=
  modify fun s => { s with report := f s.report }

/-- Asks the circuit. -/
def ask {α : Type} (question : Circuit → Except Error α) : Step τ α := fun s =>
  match question s.circuit with
  | .ok a => .ok a s
  | .error failure => .error failure s

/-- Carries out a pass over the circuit. -/
def onCircuit {α : Type} (pass : Pass α) : Step τ α := fun s =>
  match pass s.circuit with
  | .ok a circuit => .ok a { s with circuit }
  | .error failure circuit => .error failure { s with circuit }

def write (sink : Sink τ) (text : String) : Step τ Unit := fun s =>
  match sink.write text s.log with
  | .ok () log => .ok () { s with log }
  | .error reason log => .error (.io (.refused reason)) { s with log }

/-- Puts one bit of a pattern on an input. -/
def setInput (id : NodeId) (bit : Bool) : Pass Unit :=
  Pass.step fun c => do
    let _ ← c.node id
    return c.update id fun n => n.record (bit ^^ n.kind == .input true)

/-- Computes the value of one node. -/
def settleNode (id : NodeId) : Pass Unit :=
  Pass.step fun c => do
    match ← c.evaluate? (← c.node id).kind with
    | some value => return c.update id (·.record value)
    | none => return c

/-- Puts a pattern on the inputs, by ascending id, and settles the nodes of `order`, one after the
    other. -/
def present (order : List NodeId) (pattern : List Bool) : Pass Unit := do
  ((← get).inputs.zip pattern).forM fun (id, bit) => setInput id bit
  order.forM settleNode

/-- The line of the log for a pattern: its bits, and the outputs that it gives. -/
def logLine (pattern : List Bool) (c : Circuit) : Except Error String := do
  return s!"{bitsText pattern} {bitsText (← c.readOutputs)}\n"

/-- Makes the line of a pattern for a sink that listens. -/
def logPattern (sink : Sink τ) (pattern : List Bool) : Step τ Unit := do
  if sink.listens then write sink (← ask (logLine pattern))

def runPattern (sink : Sink τ) (order : List NodeId) (pattern : List Bool) : Step τ Unit := do
  onCircuit (present order pattern)
  logPattern sink pattern
  note fun report => { report with patterns := report.patterns + 1 }

/-- Takes the lines of a source one by one. `number` is that of the first line. -/
def runLines (sink : Sink τ) (order : List NodeId) : Nat → List PatternLine → Step τ Unit
  | _, [] => return
  | number, line :: rest => do
    match line with
    | .blank => pure ()
    | .pattern bits => runPattern sink order bits
    | .rejected reason =>
      note fun report => { report with skipped := report.skipped.push (number, reason) }
    | .unreadable => throw (.io .notText)
    runLines sink order (number + 1) rest

/-- Draws rows from a generator and runs each before the next is drawn. -/
def runRandom (sink : Sink τ) (order : List NodeId) (width : Nat) : Nat → Generator → Step τ Unit
  | 0, _ => return
  | count + 1, g => do
    let (row, g) := g.bits width
    runPattern sink order row
    runRandom sink order width count g

def runSource (sink : Sink τ) (order : List NodeId) (width : Nat) : PatternSource → Step τ Unit
  | .text lines => runLines sink order 1 lines
  | .random count g => runRandom sink order width count g

/-- A whole simulation: signatures start empty, and the gates are grouped by the new ones at the
    end. -/
def run (sink : Sink τ) (source : PatternSource) : Step τ Unit := do
  changeCircuit Circuit.resetSignatures
  let order ← ask Circuit.liveOrder
  runSource sink order (← get).circuit.inputs.length source
  let classes ← ask Circuit.liveClasses
  changeCircuit ({ · with classes })

/-- The seed of a random simulation for which none is given. -/
def defaultSeed : UInt64 := 3345678

theorem runRandom_eq_runLines (sink : Sink τ) (order : List NodeId) (width count number : Nat)
    (g : Generator) : runRandom sink order width count g =
      runLines sink order number ((Generator.rows width count g).map .pattern) := by
  induction count generalizing g number with
  | zero => rfl
  | succ count ih =>
    simp only [runRandom, Generator.rows, List.map_cons, runLines]
    rw [← ih]

/-- What is drawn is what a text of the same rows would hold. -/
theorem runSource_eq_runLines (sink : Sink τ) (order : List NodeId) (width : Nat)
    (source : PatternSource) :
    runSource sink order width source = runLines sink order 1 (source.lines width) := by
  cases source with
  | text lines => rfl
  | random count g => exact runRandom_eq_runLines sink order width count 1 g

end Simulation

namespace Circuit

variable {τ : Type}

/-- Simulates the patterns of a source. Also returns the circuit and the log as they are at the
    end or at the failure. -/
def simulate (c : Circuit) (sink : Sink τ) (log : τ) (source : PatternSource) :
    Except Error SimulationReport × Circuit × τ :=
  match Simulation.run sink source ⟨c, log, ⟨0, #[]⟩⟩ with
  | .ok () s => (.ok s.report, s.circuit, s.log)
  | .error failure s => (.error failure, s.circuit, s.log)

/-- The patterns of a text, one line each. -/
def textSource (c : Circuit) (text : ByteArray) : PatternSource :=
  .text ((Text.lines text).map (.ofLine c.inputs.length))

/-- The patterns of a random simulation, the same ones for the same seed: `count` of them, or
    twice as many as there are inputs. -/
def randomSource (c : Circuit) (seed : UInt64) (count : Option Nat) : PatternSource :=
  .random (count.getD (2 * c.inputs.length)) (.ofSeed seed)

/-- Simulates pseudo-random patterns. -/
def simulateRandom (c : Circuit) (sink : Sink τ) (log : τ) (seed : UInt64) (count : Option Nat) :
    Except Error SimulationReport × Circuit × τ :=
  c.simulate sink log (c.randomSource seed count)

/-- Simulates the patterns of a text. -/
def simulateText (c : Circuit) (sink : Sink τ) (log : τ) (text : ByteArray) :
    Except Error SimulationReport × Circuit × τ :=
  c.simulate sink log (c.textSource text)

end Circuit

end AndInverter
