import AndInverter.Text.Numeral
import Mathlib.Logic.Basic

namespace AndInverter.Text

/-- The word is a decimal numeral of a number below 2 ^ 64: digits, after an optional plus sign. -/
def IsNumeral (word : List Char) (n : Nat) : Prop :=
  ∃ digits, (word = digits ∨ word = '+' :: digits) ∧ digits ≠ [] ∧
    (∀ c ∈ digits, c.isDigit = true) ∧ digitsValue digits = n ∧ n < UInt64.size

variable {word : List Char} {n : Nat}

theorem isNumeral_plus {digits : List Char} :
    IsNumeral ('+' :: digits) n ↔ digits ≠ [] ∧ (∀ c ∈ digits, c.isDigit = true) ∧
      digitsValue digits = n ∧ n < UInt64.size := by
  constructor
  · rintro ⟨other, rfl | heq, hother⟩
    · exact absurd (hother.2.1 '+' List.mem_cons_self) (by decide)
    · obtain rfl := (List.cons.inj heq).2
      exact hother
  · exact fun h => ⟨digits, .inr rfl, h⟩

theorem isNumeral_plain (hplain : ∀ digits, word ≠ '+' :: digits) :
    IsNumeral word n ↔ word ≠ [] ∧ (∀ c ∈ word, c.isDigit = true) ∧
      digitsValue word = n ∧ n < UInt64.size := by
  constructor
  · rintro ⟨digits, rfl | heq, hdigits⟩
    · exact hdigits
    · exact absurd heq (hplain digits)
  · exact fun h => ⟨word, .inl rfl, h⟩

/-- The digits are read exactly when there are some, all are digits and the value fits. -/
theorem ofNat_digitsValue_eq_iff {digits : List Char} {v : UInt64} :
    (if digits.isEmpty || !digits.all Char.isDigit then none
      else if digitsValue digits < UInt64.size then some (UInt64.ofNat (digitsValue digits))
      else none) = some v ↔
      digits ≠ [] ∧ (∀ c ∈ digits, c.isDigit = true) ∧ digitsValue digits = v.toNat ∧
        v.toNat < UInt64.size := by
  have hv : v.toNat < UInt64.size := v.toNat_lt
  have hvalue : digitsValue digits < UInt64.size →
      (UInt64.ofNat (digitsValue digits) = v ↔ digitsValue digits = v.toNat) := by
    intro hlt
    rw [← UInt64.toNat_inj, UInt64.toNat_ofNat_of_lt' hlt]
  split
  · next hbad =>
    simp only [Bool.or_eq_true, List.isEmpty_iff, Bool.not_eq_true', List.all_eq_false] at hbad
    constructor
    · intro h
      cases h
    · rintro ⟨hne, hall, _⟩
      obtain hnil | ⟨c, hc, hdigit⟩ := hbad
      · exact absurd hnil hne
      · exact absurd (hall c hc) hdigit
  · next hgood =>
    simp only [Bool.or_eq_true, List.isEmpty_iff, Bool.not_eq_true', List.all_eq_false, not_or,
      not_exists, not_and, not_not] at hgood
    split
    · next hlt =>
      rw [Option.some.injEq, hvalue hlt]
      exact ⟨fun h => ⟨hgood.1, hgood.2, h, hv⟩, fun h => h.2.2.1⟩
    · next hge =>
      refine iff_of_false (by simp) fun h => hge ?_
      rw [h.2.2.1]
      exact hv

theorem numeral?_eq_some_iff {v : UInt64} : numeral? word = some v ↔ IsNumeral word v.toNat := by
  unfold numeral?
  split
  · next digits => rw [isNumeral_plus, ofNat_digitsValue_eq_iff]
  · next hplain => rw [isNumeral_plain hplain, ofNat_digitsValue_eq_iff]

/-- A number is written as a numeral without a sign. -/
theorem isNumeral_toDigits (hn : n < UInt64.size) : IsNumeral (Nat.toDigits 10 n) n :=
  ⟨Nat.toDigits 10 n, .inl rfl, Nat.toDigits_ne_nil,
    fun _ hc => Nat.isDigit_of_mem_toDigits (by omega) (by omega) hc,
    Nat.ofDigitChars_ten_toDigits, hn⟩

end AndInverter.Text
