import AndInverter.Text.Pieces

namespace AndInverter.Text

/-- A line of a text given as bytes, without its line feed: `none` when the bytes of the line are
    not valid UTF-8. -/
abbrev Line := Option (List Char)

/-- The characters that UTF-8 bytes encode, if they encode any. -/
def decode? (bytes : List UInt8) : Line :=
  (String.fromUTF8? ⟨bytes.toArray⟩).map String.toList

/-- The lines of a text. A line feed ends a line, and bytes after the last line feed are a line
    of their own. Each line is decoded by itself, so that a fault in one leaves the lines before
    it readable. -/
def lines (text : ByteArray) : List Line :=
  let found := pieces (· == 10) text.data.toList
  (match found.getLast? with
    | some [] => found.dropLast
    | _ => found).map decode?

/-- The line without the carriage returns at its end. -/
def dropReturns (line : List Char) : List Char :=
  (line.reverse.dropWhile (· == '\r')).reverse

end AndInverter.Text
