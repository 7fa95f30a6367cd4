namespace AndInverter.Text

/-- The number that decimal digits denote, most significant first. -/
def digitsValue (digits : List Char) : Nat :=
  digits.foldl (fun n c => 10 * n + (c.toNat - '0'.toNat)) 0

/-- Reads a decimal numeral below 2 ^ 64: ASCII digits, at least one, after an optional plus
    sign. Leading zeros are allowed. -/
def numeral? (s : List Char) : Option UInt64 :=
  let digits := match s with
    | '+' :: rest => rest
    | _ => s
  if digits.isEmpty || !digits.all Char.isDigit then none
  else if digitsValue digits < UInt64.size then some (UInt64.ofNat (digitsValue digits))
  else none

end AndInverter.Text
