import AndInverter.Node
import AndInverter.Simulation.Generator
import AndInverter.Text.Blank
import AndInverter.Text.Lines

namespace AndInverter

/-- Why a line of text is not an input pattern. -/
inductive PatternError where
  | length (pattern : String) (found expected : Nat)
  | nonBinary (pattern : String) (character : Char)
deriving DecidableEq, Repr

namespace PatternError

def message : PatternError → String
  | length pattern found expected =>
    s!"pattern ({pattern}) length ({found}) does not match the number of inputs ({expected})"
  | nonBinary pattern character =>
    s!"pattern ({pattern}) contains a non-0/1 character ({character})"

end PatternError

namespace Pattern

def bit? : Char → Option Bool
  | '0' => some false
  | '1' => some true
  | _ => none

/-- Reads one bit per input. A wrong length is reported first, and then the first character that
    is no bit. -/
def parse (width : Nat) (line : List Char) : Except PatternError (List Bool) :=
  if line.length ≠ width then .error (.length (.ofList line) line.length width)
  else line.mapM fun c =>
    match bit? c with
    | some b => .ok b
    | none => .error (.nonBinary (.ofList line) c)

end Pattern

/-- What a line of a pattern source holds. Blank lines hold nothing, and blanks around a pattern
    do not count. -/
inductive PatternLine where
  | blank
  | pattern (bits : List Bool)
  | rejected (reason : PatternError)
  | unreadable
deriving DecidableEq

def PatternLine.ofLine (width : Nat) : Text.Line → PatternLine
  | none => .unreadable
  | some line =>
    match Text.trim line with
    | [] => .blank
    | c :: rest =>
      match Pattern.parse width (c :: rest) with
      | .ok bits => .pattern bits
      | .error reason => .rejected reason

/-- Where the patterns of a simulation come from: the lines of a text, or a number of rows that
    are still to be drawn. -/
inductive PatternSource where
  | text (lines : List PatternLine)
  | random (count : Nat) (generator : Generator)

/-- All lines of a source, for patterns of `width` bits. -/
def PatternSource.lines (width : Nat) : PatternSource → List PatternLine
  | .text lines => lines
  | .random count g => (Generator.rows width count g).map .pattern

end AndInverter
