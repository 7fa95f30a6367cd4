import AndInverter.Aiger.Grammar
import AndInverter.Proofs.Acyclic
import AndInverter.Proofs.Text.Numeral
import AndInverter.Text.Lines

open Relation

namespace AndInverter

namespace Text

/-- The line is text, and what it holds without its carriage returns satisfies `p`. -/
def Holds (p : List Char → Prop) (line : Line) : Prop :=
  ∃ text, line = some text ∧ p (dropReturns text)

end Text

namespace Aiger

open Text (IsNumeral Holds words)

/-- The word is a literal of a node that the header has room for. -/
def IsLiteral (bound : NodeId) (word : List Char) (e : Edge) : Prop :=
  e.node ≤ bound ∧ ∃ l : UInt64, IsNumeral word l.toNat ∧ Edge.ofLiteral l = e

/-- An input line holds one literal, which is not constant. -/
def IsInput (bound : NodeId) (text : List Char) (e : Edge) : Prop :=
  e.node ≠ 0 ∧ ∃ word, words text = [word] ∧ IsLiteral bound word e

/-- An output line holds one literal. -/
def IsOutput (bound : NodeId) (text : List Char) (e : Edge) : Prop :=
  ∃ word, words text = [word] ∧ IsLiteral bound word e

/-- A gate line holds three literals, of which the first is even and not constant. -/
def IsGate (bound : NodeId) (text : List Char) (gate : GateLine) : Prop :=
  gate.id ≠ 0 ∧ ∃ first second third, words text = [first, second, third] ∧
    IsLiteral bound first ⟨gate.id, false⟩ ∧ IsLiteral bound second gate.left ∧
    IsLiteral bound third gate.right

/-- A symbol line holds a letter for the part, a position, a space and a name. -/
def IsSymbol (text : List Char) (symbol : Symbol) : Prop :=
  symbol.name ≠ "" ∧ ∃ digits, IsNumeral digits symbol.position ∧
    text = (if symbol.isInput then 'i' else 'o') :: (digits ++ ' ' :: symbol.name.toList)

/-- The line ends the symbol table: it is empty, or begins a comment. -/
def IsEnd (text : List Char) : Prop := text = [] ∨ ∃ comment, text = 'c' :: comment

/-- The id of the output at a position. -/
def outputId (bound : NodeId) (position : Nat) : NodeId := UInt64.ofNat (bound.toNat + 1 + position)

/-- The node that a symbol names, by the nodes of the input lines and of the output lines. -/
def target? (inputs outputs : List NodeId) (symbol : Symbol) : Option NodeId :=
  (if symbol.isInput then inputs else outputs)[symbol.position]?

/-- What a description says, in the order of its lines and with all repetitions. -/
structure Description where
  bound : NodeId
  inputs : List Edge
  outputs : List Edge
  gates : List GateLine
  symbols : List Symbol

namespace Description

variable (d : Description)

/-- The header tells the bound and the sizes of the parts, and that there are no latches. -/
def IsHeader (text : List Char) : Prop :=
  ∃ m i l o a, words text = ["aag".toList, m, i, l, o, a] ∧ IsNumeral m d.bound.toNat ∧
    IsNumeral i d.inputs.length ∧ IsNumeral l 0 ∧ IsNumeral o d.outputs.length ∧
    IsNumeral a d.gates.length

/-- The nodes of the input lines, repetitions included. -/
def inputIds : List NodeId := d.inputs.map (·.node)

/-- The nodes of the output lines. They lie above the bound. -/
def outputIds : List NodeId := (List.range d.outputs.length).map (outputId d.bound)

/-- The node that a symbol names. -/
def target? (symbol : Symbol) : Option NodeId := Aiger.target? d.inputIds d.outputIds symbol

/-- The lines say what the description says: the header, one line for each item of a part, one
    part after the other, and nothing more before the symbol table ends. Lines behind its end may
    hold anything. The ids of the outputs, which lie above the bound, are 64-bit numbers. -/
def WrittenIn (lines : List Text.Line) : Prop :=
  ∃ header inputs outputs gates symbols rest,
    lines = header :: (inputs ++ (outputs ++ (gates ++ (symbols ++ rest)))) ∧
    Holds d.IsHeader header ∧
    List.Forall₂ (fun line e => Holds (IsInput d.bound · e) line) inputs d.inputs ∧
    List.Forall₂ (fun line e => Holds (IsOutput d.bound · e) line) outputs d.outputs ∧
    (d.outputs ≠ [] → d.bound.toNat + d.outputs.length < UInt64.size) ∧
    List.Forall₂ (fun line gate => Holds (IsGate d.bound · gate) line) gates d.gates ∧
    List.Forall₂ (fun line symbol => Holds (IsSymbol · symbol) line) symbols d.symbols ∧
    (∀ symbol ∈ d.symbols,
      symbol.position < (if symbol.isInput then d.inputs else d.outputs).length) ∧
    ∀ line ∈ rest.head?, Holds IsEnd line

/-- The line that declares an input: the first one that names it. -/
def input? (id : NodeId) : Option Edge := d.inputs.find? (·.node == id)

/-- The line that declares a gate: the first one that names it, unless it is an input. -/
def gate? (id : NodeId) : Option GateLine :=
  if (d.input? id).isSome then none else d.gates.find? (·.id == id)

/-- The name of a node: the first one that it is given. -/
def name? (id : NodeId) : Option String :=
  (d.symbols.find? fun symbol => d.target? symbol == some id).map (·.name)

/-- The second node is a gate that reads the first one. -/
def Feeds (source consumer : NodeId) : Prop :=
  ∃ gate, d.gate? consumer = some gate ∧ (gate.left.node = source ∨ gate.right.node = source)

/-- No gate depends on itself, whether or not an output depends on it. -/
def Acyclic : Prop := ∀ id, ¬ TransGen d.Feeds id id

/-- The circuit is what the description says. A node that an output or a gate reads and no line
    declares is undefined. -/
structure Denotes (c : Circuit) : Prop where
  wellFormed : c.WellFormed
  maxVar : c.maxVar = d.bound
  outputs : c.outputs = d.outputIds
  input_iff : ∀ {id inverted},
    c.kind? id = some (.input inverted) ↔ d.input? id = some ⟨id, inverted⟩
  gate_iff : ∀ {id left right},
    c.kind? id = some (.gate left right) ↔ d.gate? id = some ⟨id, left, right⟩
  output_iff : ∀ {id driver}, c.kind? id = some (.output driver) ↔
    ∃ position, d.outputs[position]? = some driver ∧ id = outputId d.bound position
  undefined_iff : ∀ {id}, c.kind? id = some .undefined ↔
    id ≠ 0 ∧ d.input? id = none ∧ d.gate? id = none ∧
      ((∃ driver ∈ d.outputs, driver.node = id) ∨ ∃ consumer, d.Feeds id consumer)
  name : ∀ {id n}, c.node? id = some n → n.name = d.name? id
  unsimulated : ∀ {id n}, c.node? id = some n → n.value = false ∧ n.signature = #[]
  classes : c.classes = .empty

end Description

end Aiger

end AndInverter
