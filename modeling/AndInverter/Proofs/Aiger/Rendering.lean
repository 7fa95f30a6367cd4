import AndInverter.Aiger.Printer
import AndInverter.Proofs.Aiger.Writable
import Mathlib.Algebra.Group.Nat.Defs

namespace AndInverter

namespace Text

theorem isBlank_of_isDigit {c : Char} (h : c.isDigit = true) : isBlank c = false := by
  have hrange : 48 ≤ c.toNat ∧ c.toNat ≤ 57 := by
    simpa [Char.isDigit, UInt32.le_iff_toNat_le] using h
  simp only [isBlank, blankRanges, List.any_cons, List.any_nil, Bool.or_false, Bool.or_eq_false_iff,
    Bool.and_eq_false_iff, decide_eq_false_iff_not]
  omega

/-- The numeral of a number is a word. -/
theorem toString_nat_word (n : Nat) :
    (toString n).toList ≠ [] ∧ ∀ c ∈ (toString n).toList, isBlank c = false := by
  rw [Nat.toString_eq_repr, Nat.toList_repr]
  refine ⟨Nat.toDigits_ne_nil, fun c hc => isBlank_of_isDigit ?_⟩
  exact Nat.isDigit_of_mem_toDigits (by omega) (by omega) hc

theorem isNumeral_toString {n : Nat} (hn : n < UInt64.size) :
    IsNumeral (toString n).toList n := by
  rw [Nat.toString_eq_repr, Nat.toList_repr]
  exact isNumeral_toDigits hn

end Text

namespace Edge

variable {e : Edge}

/-- The edge as its literal has it: without the top bit of the node. -/
def withoutTopBit (e : Edge) : Edge := ⟨e.node % 0x8000000000000000, e.inverted⟩

theorem toNat_node_withoutTopBit (e : Edge) : e.withoutTopBit.node.toNat = e.node.toNat % 2 ^ 63 :=
  UInt64.toNat_mod e.node 0x8000000000000000

theorem withoutTopBit_eq_iff : e.withoutTopBit = e ↔ 2 * e.node.toNat < UInt64.size := by
  have hsize : UInt64.size = 2 * 2 ^ 63 := rfl
  have hnode : e.withoutTopBit = e ↔ e.withoutTopBit.node = e.node := by
    cases e
    simp [withoutTopBit]
  rw [hnode, ← UInt64.toNat_inj, toNat_node_withoutTopBit, Nat.mod_eq_iff_lt (by omega)]
  omega

theorem toNat_literal (e : Edge) :
    e.literal.toNat = 2 * (e.node.toNat % 2 ^ 63) + e.inverted.toNat := by
  have hinverted : e.inverted.toUInt64.toNat = e.inverted.toNat := by cases e.inverted <;> rfl
  have hle := e.inverted.toNat_le
  rw [literal, UInt64.toNat_add, UInt64.toNat_mul, hinverted]
  change (2 * e.node.toNat % 2 ^ 64 + _) % 2 ^ 64 = _
  omega

/-- A literal has one bit for the inversion, and so loses the top bit of the node. -/
theorem ofLiteral_literal (e : Edge) : ofLiteral e.literal = e.withoutTopBit := by
  have hliteral := e.toNat_literal
  have hle := e.inverted.toNat_le
  have hnode : e.literal / 2 = e.withoutTopBit.node := by
    rw [← UInt64.toNat_inj, UInt64.toNat_div, hliteral, toNat_node_withoutTopBit]
    change (2 * (e.node.toNat % 2 ^ 63) + e.inverted.toNat) / 2 = _
    omega
  have hparity : (e.literal % 2).toNat = e.inverted.toNat := by
    rw [UInt64.toNat_mod, hliteral]
    change (2 * (e.node.toNat % 2 ^ 63) + e.inverted.toNat) % 2 = _
    omega
  have hinverted : (e.literal % 2 == 1) = e.inverted := by
    rw [Bool.eq_iff_iff, beq_iff_eq, ← UInt64.toNat_inj, hparity]
    cases e.inverted <;> simp
  rw [ofLiteral, hnode, hinverted]
  rfl

end Edge

namespace Aiger

open Text (IsLine IsName IsNumeral Holds)

/-- The line of a gate. -/
def gateText (gate : GateLine) : String :=
  " ".intercalate ([⟨gate.id, false⟩, gate.left, gate.right].map literalText)

/-- The line of a name. -/
def symbolText (symbol : Symbol) : String :=
  let tag := if symbol.isInput then "i" else "o"
  s!"{tag}{symbol.position} {symbol.name}"

/-- The edges on the node have literals, which are below the bound. -/
def HasLiteral (bound id : NodeId) : Prop := id ≤ bound ∧ 2 * id.toNat < UInt64.size

theorem isLiteral_literalText {bound : NodeId} {e : Edge} (h : HasLiteral bound e.node) :
    IsLiteral bound (literalText e).toList e :=
  ⟨h.1, e.literal, Text.isNumeral_toString e.literal.toNat_lt,
    e.ofLiteral_literal.trans (Edge.withoutTopBit_eq_iff.2 h.2)⟩

theorem literalText_word (e : Edge) :
    (literalText e).toList ≠ [] ∧ ∀ c ∈ (literalText e).toList, Text.isBlank c = false :=
  Text.toString_nat_word e.literal.toNat

namespace Description

variable (d : Description)

/-- The first line of a description. -/
def headerText : String :=
  s!"aag {d.bound} {d.inputs.length} 0 {d.outputs.length} {d.gates.length}"

/-- The lines that a description is printed in. -/
def texts : List String :=
  d.headerText :: (d.inputs.map literalText ++ d.outputs.map literalText ++ d.gates.map gateText ++
    d.symbols.map symbolText)

/-- All that is said can be written in numerals, literals and lines. -/
structure Printable : Prop where
  inputs : ∀ e ∈ d.inputs, e.node ≠ 0 ∧ HasLiteral d.bound e.node
  outputs : ∀ e ∈ d.outputs, HasLiteral d.bound e.node
  gates : ∀ gate ∈ d.gates, gate.id ≠ 0 ∧ HasLiteral d.bound gate.id ∧
    HasLiteral d.bound gate.left.node ∧ HasLiteral d.bound gate.right.node
  symbols : ∀ symbol ∈ d.symbols, IsName symbol.name ∧
    symbol.position < (if symbol.isInput then d.inputs else d.outputs).length
  room : d.bound.toNat + d.outputs.length < UInt64.size
  inputCount : d.inputs.length < UInt64.size
  gateCount : d.gates.length < UInt64.size

variable {d}

/-- A line of words is taken apart into its words. -/
theorem line_of_words {text : String} {parts : List (List Char)}
    (htext : text.toList = [' '].intercalate parts)
    (hparts : ∀ word ∈ parts, word ≠ [] ∧ ∀ c ∈ word, Text.isBlank c = false) :
    Text.words text.toList = parts ∧ IsLine text.toList := by
  rw [htext]
  exact ⟨Text.words_intercalate hparts,
    Text.isLine_intercalate fun word hword => (hparts word hword).2⟩

theorem line_of_literal (e : Edge) :
    Text.words (literalText e).toList = [(literalText e).toList] ∧ IsLine (literalText e).toList :=
  line_of_words List.intercalate_singleton.symm
    (List.forall_mem_singleton.2 (literalText_word e))

theorem line_of_gate (gate : GateLine) :
    Text.words (gateText gate).toList =
      [(literalText ⟨gate.id, false⟩).toList, (literalText gate.left).toList,
        (literalText gate.right).toList] ∧ IsLine (gateText gate).toList := by
  refine line_of_words ?_ ?_
  · rw [gateText, String.toList_intercalate]
    rfl
  · simp only [List.forall_mem_cons]
    exact ⟨literalText_word _, literalText_word _, literalText_word _, by simp⟩

/-- The header line has its five numbers as words, and nothing in it breaks the line. -/
theorem line_of_header :
    Text.words d.headerText.toList = ["aag".toList, (toString d.bound).toList,
      (toString d.inputs.length).toList, "0".toList, (toString d.outputs.length).toList,
      (toString d.gates.length).toList] ∧ IsLine d.headerText.toList := by
  have haag : ∀ c ∈ "aag".toList, Text.isBlank c = false := by
    have hletters : "aag".toList = ['a', 'a', 'g'] := rfl
    rw [hletters]
    simp only [List.forall_mem_cons]
    exact ⟨rfl, rfl, rfl, by simp⟩
  refine line_of_words ?_ ?_
  · simp only [headerText, String.toList_append, List.intercalate_cons_cons,
      List.intercalate_singleton, List.append_assoc]
    rfl
  · simp only [List.forall_mem_cons]
    exact ⟨⟨List.cons_ne_nil _ _, haag⟩, Text.toString_nat_word d.bound.toNat,
      Text.toString_nat_word _, Text.toString_nat_word 0, Text.toString_nat_word _,
      Text.toString_nat_word _, by simp⟩

theorem toList_symbolText (symbol : Symbol) : (symbolText symbol).toList =
    (if symbol.isInput then 'i' else 'o') ::
      ((toString symbol.position).toList ++ ' ' :: symbol.name.toList) := by
  unfold symbolText
  cases symbol.isInput <;> simp only [String.toList_append, List.append_assoc] <;> rfl

/-- A name without line breaks gives a symbol line that is read back whole. -/
theorem isLine_symbolText {symbol : Symbol} (h : IsName symbol.name) :
    IsLine (symbolText symbol).toList := by
  rw [toList_symbolText]
  constructor
  · intro hmem
    obtain heq | hmem := List.mem_cons.1 hmem
    · cases hinput : symbol.isInput <;> simp [hinput] at heq
    · obtain hdigit | hmem := List.mem_append.1 hmem
      · exact Text.newline_not_mem_of_word (Text.toString_nat_word symbol.position).2 hdigit
      · obtain heq | hname := List.mem_cons.1 hmem
        · cases heq
        · exact h.2.newline hname
  · obtain ⟨c, hlast⟩ := Option.ne_none_iff_exists'.1
      (mt List.getLast?_eq_none_iff.1 (mt String.toList_eq_nil_iff.1 h.1))
    rw [List.getLast?_cons, List.getLast?_append, List.getLast?_cons, hlast]
    exact fun heq => h.2.ending (hlast.trans heq)

theorem isSymbol_symbolText {symbol : Symbol} (h : IsName symbol.name)
    (hposition : symbol.position < UInt64.size) : IsSymbol (symbolText symbol).toList symbol :=
  ⟨h.1, (toString symbol.position).toList, Text.isNumeral_toString hposition,
    toList_symbolText symbol⟩

theorem forall₂_holds {α : Type} {p : List Char → α → Prop} {text : α → String} {items : List α}
    (h : ∀ a ∈ items, IsLine (text a).toList ∧ p (text a).toList a) :
    List.Forall₂ (fun line a => Holds (p · a) line)
      ((items.map text).map fun text => some text.toList) items := by
  rw [List.map_map, List.forall₂_map_left_iff, List.forall₂_same]
  intro a ha
  obtain ⟨hline, hp⟩ := h a ha
  exact ⟨(text a).toList, rfl, hline.dropReturns_eq.symm ▸ hp⟩

theorem isLine_of_mem_texts (h : ∀ symbol ∈ d.symbols, IsName symbol.name) :
    ∀ text ∈ d.texts, IsLine text.toList := by
  simp only [texts, List.forall_mem_cons, List.forall_mem_append, List.forall_mem_map]
  exact ⟨line_of_header.2, ⟨⟨fun e _ => (line_of_literal e).2, fun e _ => (line_of_literal e).2⟩,
    fun gate _ => (line_of_gate gate).2⟩, fun symbol hsymbol => isLine_symbolText (h symbol hsymbol)⟩

/-- The lines of what is printed are the texts. -/
theorem lines_join_texts (h : ∀ symbol ∈ d.symbols, IsName symbol.name) :
    Text.lines (String.join (d.texts.map (· ++ "\n"))).toUTF8 =
      d.texts.map fun text => some text.toList :=
  Text.lines_join fun text htext => (isLine_of_mem_texts h text htext).newline

namespace Printable

theorem isInput (h : d.Printable) {e : Edge} (he : e ∈ d.inputs) :
    IsInput d.bound (literalText e).toList e := by
  obtain ⟨hzero, hliteral⟩ := h.inputs e he
  exact ⟨hzero, _, (line_of_literal e).1, isLiteral_literalText hliteral⟩

theorem isOutput (h : d.Printable) {e : Edge} (he : e ∈ d.outputs) :
    IsOutput d.bound (literalText e).toList e :=
  ⟨_, (line_of_literal e).1, isLiteral_literalText (h.outputs e he)⟩

theorem isGate (h : d.Printable) {gate : GateLine} (hgate : gate ∈ d.gates) :
    IsGate d.bound (gateText gate).toList gate := by
  obtain ⟨hzero, hid, hleft, hright⟩ := h.gates gate hgate
  exact ⟨hzero, _, _, _, (line_of_gate gate).1, isLiteral_literalText hid,
    isLiteral_literalText hleft, isLiteral_literalText hright⟩

theorem isHeader (h : d.Printable) : d.IsHeader d.headerText.toList := by
  have hroom := h.room
  have hbound : IsNumeral (toString d.bound).toList d.bound.toNat :=
    Text.isNumeral_toString d.bound.toNat_lt
  have hlatches : IsNumeral "0".toList 0 := Text.isNumeral_toString (n := 0) (by decide)
  exact ⟨_, _, _, _, _, line_of_header.1, hbound, Text.isNumeral_toString h.inputCount, hlatches,
    Text.isNumeral_toString (by omega), Text.isNumeral_toString h.gateCount⟩

theorem position_lt (h : d.Printable) {symbol : Symbol} (hsymbol : symbol ∈ d.symbols) :
    symbol.position < UInt64.size := by
  have hposition := (h.symbols symbol hsymbol).2
  have hroom := h.room
  have hinputs := h.inputCount
  split at hposition <;> omega

/-- What is printable is written in its own lines. -/
theorem writtenIn (h : d.Printable) :
    d.WrittenIn (d.texts.map fun text => some text.toList) := by
  refine ⟨some d.headerText.toList, _, _, _, _, [], ?_, ?_,
    forall₂_holds fun e he => ⟨(line_of_literal e).2, h.isInput he⟩,
    forall₂_holds fun e he => ⟨(line_of_literal e).2, h.isOutput he⟩, fun _ => h.room,
    forall₂_holds fun gate hgate => ⟨(line_of_gate gate).2, h.isGate hgate⟩,
    forall₂_holds fun symbol hsymbol => ⟨isLine_symbolText (h.symbols symbol hsymbol).1,
      isSymbol_symbolText (h.symbols symbol hsymbol).1 (h.position_lt hsymbol)⟩,
    fun symbol hsymbol => (h.symbols symbol hsymbol).2, by simp⟩
  · simp [texts]
  · exact ⟨_, rfl, line_of_header.2.dropReturns_eq.symm ▸ h.isHeader⟩

/-- The lines that a description is printed in say what it says. -/
theorem writtenIn_join (h : d.Printable) :
    d.WrittenIn (Text.lines (String.join (d.texts.map (· ++ "\n"))).toUTF8) := by
  rw [lines_join_texts fun symbol hsymbol => (h.symbols symbol hsymbol).1]
  exact h.writtenIn

end Printable

end Description

end Aiger

end AndInverter
