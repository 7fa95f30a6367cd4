import AndInverter.Circuit.Classes
import AndInverter.Circuit.Encoding
import AndInverter.Circuit.Merge
import AndInverter.Sat.Oracle
import AndInverter.Sat.Solver

open AndInverter.Sat

namespace AndInverter

/-- What a reduction did. -/
structure ReductionReport where
  /-- The pairs of victim and survivor, in the order in which they were proved equal. -/
  merges : List (NodeId × NodeId)
  /-- The number of pairs that were found to differ. -/
  disproved : Nat
  queries : Nat
deriving DecidableEq

/-- A reduction under way, with the state of its oracle. The encoding is that of the circuit at
    the start, extended by one variable per query. -/
structure Reduction (σ : Type) where
  circuit : Circuit
  encoding : Encoding
  oracle : σ
  report : ReductionReport

/-- Steps of a reduction. What was done before a failure stays done. -/
abbrev Reducer (σ : Type) := EStateM Error (Reduction σ)

namespace Reducer

variable {σ α : Type}

/-- Lets the oracle act. -/
def consult (action : EStateM String σ α) : Reducer σ α := fun r =>
  match action r.oracle with
  | .ok a s => .ok a { r with oracle := s }
  | .error reason s => .error (.oracle reason) { r with oracle := s }

def ask (question : Reduction σ → Except Error α) : Reducer σ α := fun r =>
  match question r with
  | .ok a => .ok a r
  | .error failure => .error failure r

def changeCircuit (change : Circuit → Except Error Circuit) : Reducer σ Unit := fun r =>
  match change r.circuit with
  | .ok changed => .ok () { r with circuit := changed }
  | .error failure => .error failure r

def note (f : ReductionReport → ReductionReport) : Reducer σ Unit :=
  modify fun r => { r with report := f r.report }

/-- Asks whether two encoded nodes agree on every input pattern. A fresh variable is tied to their
    difference and assumed. -/
def proveEqual (oracle : Oracle σ) (a b : NodeId) : Reducer σ Bool := do
  let la ← ask (·.encoding.nodeLit a)
  let lb ← ask (·.encoding.nodeLit b)
  let (differ, cnf) := (← get).encoding.cnf.fresh
  modify fun r => { r with encoding := { r.encoding with cnf } }
  (Cnf.xorClauses la lb differ).forM fun clause => consult (oracle.add clause)
  return !(← consult (oracle.solve [differ]))

/-- Compares `first` with each of the given gates, merges those that are equal to it into it, and
    gives back the others. -/
def mergeEqual (oracle : Oracle σ) (first : NodeId) : List NodeId → Reducer σ (List NodeId)
  | [] => return []
  | other :: rest => do
    note fun report => { report with queries := report.queries + 1 }
    if ← proveEqual oracle first other then
      changeCircuit (·.merge other first false)
      note fun report => { report with merges := report.merges ++ [(other, first)] }
      mergeEqual oracle first rest
    else
      note fun report => { report with disproved := report.disproved + 1 }
      return other :: (← mergeEqual oracle first rest)

/-- Compares the gates of a group pair by pair: the first with all others, then the first of those
    that remain with the ones behind it. No round leaves more than it had, so there are at most as
    many rounds as gates. -/
def reduceGroup (oracle : Oracle σ) : Nat → List NodeId → Reducer σ Unit
  | 0, _ => return
  | _, [] => return
  | rounds + 1, first :: rest => do
    reduceGroup oracle rounds (← mergeEqual oracle first rest)

def reduceGroups (oracle : Oracle σ) (groups : List (List NodeId)) : Reducer σ Unit :=
  groups.forM fun group => reduceGroup oracle group.length group

/-- Hands the clauses of the circuit to the oracle, works through the candidate groups as they are
    at the start, without the gates that are no longer encoded, and groups the gates anew. -/
def run (oracle : Oracle σ) : Reducer σ Unit := do
  let start ← get
  start.encoding.cnf.clauses.toList.forM fun clause => consult (oracle.add clause)
  let encoded := fun id => (start.encoding.lit? id).isSome
  reduceGroups oracle (start.circuit.classes.candidates.map (·.filter encoded))
  changeCircuit Circuit.classify

end Reducer

namespace Circuit

variable {σ : Type}

/-- Functional reduction: merges the candidates that the oracle finds equal. Of the members of a
    group the one met first survives. Also returns the circuit and the oracle as they are at the
    end or at the failure. -/
def reduceWith (oracle : Oracle σ) (s : σ) (c : Circuit) :
    Except Error ReductionReport × Circuit × σ :=
  match c.encode with
  | .error failure => (.error failure, c, s)
  | .ok encoding =>
    match Reducer.run oracle ⟨c, encoding, s, ⟨[], 0, 0⟩⟩ with
    | .ok () r => (.ok r.report, r.circuit, r.oracle)
    | .error failure r => (.error failure, r.circuit, r.oracle)

/-- Functional reduction by the library's own solver. -/
def reduce (c : Circuit) : Except Error ReductionReport × Circuit :=
  let (result, reduced, _) := c.reduceWith Solver.oracle .empty
  (result, reduced)

end Circuit

end AndInverter
