import AndInverter.Error
import AndInverter.Text.Blank
import AndInverter.Text.Numeral

namespace AndInverter.Aiger

/-- Reads a word as a 64-bit number. -/
def number (line : Nat) (word : List Char) : Except SourceError UInt64 :=
  match Text.numeral? word with
  | some n => .ok n
  | none => .error (.token line (.notNumeral (.ofList word)))

/-- The counts of the first line: the bound on ids, then how many lines each part has. -/
structure Header where
  bound : NodeId
  inputs : UInt64
  outputs : UInt64
  gates : UInt64
deriving DecidableEq, Repr

/-- Reads the first line. Extra words are reported before the numbers are looked at, and latches
    after. -/
def Header.parse (line : List Char) : Except SourceError Header := do
  match Text.words line with
  | format :: m :: i :: l :: o :: a :: extra =>
    if String.ofList format ≠ "aag" then
      throw (.token 1 (.wrongFormat (.ofList format)))
    unless extra.isEmpty do throw (.unsupported .longHeader)
    let bound ← number 1 m
    let inputs ← number 1 i
    let latches ← number 1 l
    let outputs ← number 1 o
    let gates ← number 1 a
    unless latches = 0 do throw (.unsupported (.latches latches))
    return ⟨bound, inputs, outputs, gates⟩
  | _ => throw (.token 1 .shortHeader)

/-- The words of a line that has to have `count` of them. -/
def wordsExactly (line : Nat) (part : Part) (count : Nat) (text : List Char) :
    Except SourceError (List (List Char)) :=
  let found := Text.words text
  if found.length < count then .error (.token line (.tooFew part))
  else
    match found[count]? with
    | some extra => .error (.token line (.unexpected part (.ofList extra)))
    | none => .ok found

/-- Reads a literal whose node the header has room for. -/
def literal (bound : NodeId) (line : Nat) (word : List Char) : Except SourceError UInt64 := do
  let l ← number line word
  if bound < (Edge.ofLiteral l).node then throw (.literalTooBig line l bound)
  return l

/-- Reads an input line: the edge whose node is declared, inverted when the input is. -/
def inputLine (bound : NodeId) (line : Nat) (text : List Char) : Except SourceError Edge := do
  match ← wordsExactly line .input 1 text with
  | [word] =>
    let l ← literal bound line word
    if (Edge.ofLiteral l).node = 0 then throw (.constantRedefined line l)
    return .ofLiteral l
  | _ => throw (.token line (.tooFew .input))

/-- Reads an output line: the edge that drives the output. -/
def outputLine (bound : NodeId) (line : Nat) (text : List Char) : Except SourceError Edge := do
  match ← wordsExactly line .output 1 text with
  | [word] => return .ofLiteral (← literal bound line word)
  | _ => throw (.token line (.tooFew .output))

/-- A gate line: the node and its fanins. -/
structure GateLine where
  id : NodeId
  left : Edge
  right : Edge
deriving DecidableEq

/-- Reads a gate line. The bounds of all three literals are checked before the first one is. -/
def gateLine (bound : NodeId) (line : Nat) (text : List Char) : Except SourceError GateLine := do
  match ← wordsExactly line .gate 3 text with
  | [first, second, third] =>
    let gate ← literal bound line first
    let left ← literal bound line second
    let right ← literal bound line third
    let e := Edge.ofLiteral gate
    if e.node = 0 then throw (.constantRedefined line gate)
    if e.inverted then throw (.invertedGate line gate)
    return ⟨e.node, .ofLiteral left, .ofLiteral right⟩
  | _ => throw (.token line (.tooFew .gate))

/-- A symbol line: the name of the input or output at a position of its part. -/
structure Symbol where
  isInput : Bool
  position : Nat
  name : String
deriving DecidableEq

/-- Reads a line of the symbol table, or nothing if the line ends the table. All that follows the
    first space is the name. -/
def symbolLine (line : Nat) (text : List Char) : Except SourceError (Option Symbol) :=
  match text with
  | [] => .ok none
  | 'c' :: _ => .ok none
  | _ =>
    match text.dropWhile (· != ' ') with
    | [] => .error (.token line (.unnamedSymbol (.ofList text)))
    | [_] => .error (.token line .emptyName)
    | _ :: name =>
      match text.takeWhile (· != ' ') with
      | 'i' :: digits => return some ⟨true, (← number line digits).toNat, .ofList name⟩
      | 'o' :: digits => return some ⟨false, (← number line digits).toNat, .ofList name⟩
      | tag => .error (.token line (.unknownSymbol (.ofList tag)))

end AndInverter.Aiger
