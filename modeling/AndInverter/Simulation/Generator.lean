namespace AndInverter

/-- The state of the xoshiro256++ generator of pseudo-random words. -/
structure Generator where
  s0 : UInt64
  s1 : UInt64
  s2 : UInt64
  s3 : UInt64
deriving DecidableEq, Repr

namespace Generator

def rotateLeft (x n : UInt64) : UInt64 := (x <<< n) ||| (x >>> (64 - n))

/-- One step of the SplitMix64 generator: the word and the next state. -/
def splitMix (x : UInt64) : UInt64 × UInt64 :=
  let x := x + 0x9E3779B97F4A7C15
  let z := (x ^^^ (x >>> 30)) * 0xBF58476D1CE4E5B9
  let z := (z ^^^ (z >>> 27)) * 0x94D049BB133111EB
  (z ^^^ (z >>> 31), x)

/-- The state for a seed: four words of SplitMix64. -/
def ofSeed (seed : UInt64) : Generator :=
  let (s0, x) := splitMix seed
  let (s1, x) := splitMix x
  let (s2, x) := splitMix x
  let (s3, _) := splitMix x
  ⟨s0, s1, s2, s3⟩

/-- The next word, and the state behind it. -/
def word (g : Generator) : UInt64 × Generator :=
  let result := rotateLeft (g.s0 + g.s3) 23 + g.s0
  let t := g.s1 <<< 17
  let s2 := g.s2 ^^^ g.s0
  let s3 := g.s3 ^^^ g.s1
  let s1 := g.s1 ^^^ s2
  let s0 := g.s0 ^^^ s3
  (result, ⟨s0, s1, s2 ^^^ t, rotateLeft s3 45⟩)

/-- A fair bit: the next word lies in the lower half of its range. -/
def bit (g : Generator) : Bool × Generator :=
  let (w, g) := g.word
  (w < 0x8000000000000000, g)

/-- The next `n` bits. -/
def bits : Nat → Generator → List Bool × Generator
  | 0, g => ([], g)
  | n + 1, g =>
    let (b, g) := g.bit
    let (rest, g) := bits n g
    (b :: rest, g)

/-- Rows of `width` bits each, drawn one after the other. -/
def rows (width : Nat) : Nat → Generator → List (List Bool)
  | 0, _ => []
  | count + 1, g =>
    let (row, g) := g.bits width
    row :: rows width count g

theorem length_bits (n : Nat) (g : Generator) : (g.bits n).1.length = n := by
  induction n generalizing g with
  | zero => rfl
  | succ n ih => simp [bits, ih]

theorem length_rows (width count : Nat) (g : Generator) : (rows width count g).length = count := by
  induction count generalizing g with
  | zero => rfl
  | succ count ih => simp [rows, ih]

theorem length_of_mem_rows {width count : Nat} {g : Generator} {row : List Bool}
    (h : row ∈ rows width count g) : row.length = width := by
  induction count generalizing g with
  | zero => cases h
  | succ count ih =>
    obtain rfl | h := List.mem_cons.1 h
    · exact length_bits width g
    · exact ih h

/-- Drawing more rows leaves the first ones as they are. -/
theorem rows_mono (width : Nat) {few many : Nat} (h : few ≤ many) (g : Generator) :
    rows width few g <+: rows width many g := by
  induction few generalizing many g with
  | zero => simp [rows]
  | succ few ih =>
    cases many with
    | zero => omega
    | succ many => simpa [rows] using ih (by omega) _

end Generator

end AndInverter
