import AndInverter.Proofs.Aiger.Description
import AndInverter.Proofs.Sequencing

namespace AndInverter.Aiger

open Text (IsNumeral words)

variable {bound : NodeId} {line : Nat} {word text : List Char}

theorem number_eq_ok_iff {v : UInt64} : number line word = .ok v ↔ IsNumeral word v.toNat := by
  rw [← Text.numeral?_eq_some_iff]
  unfold number
  cases Text.numeral? word <;> simp

/-- A literal is accepted if it is a numeral and its node does not exceed the bound. -/
theorem literal_eq_ok_iff {l : UInt64} :
    literal bound line word = .ok l ↔ IsNumeral word l.toNat ∧ (Edge.ofLiteral l).node ≤ bound := by
  unfold literal
  rw [except_bind_eq_ok_iff]
  constructor
  · intro h
    obtain ⟨m, hm, h⟩ := h
    split at h
    · cases h
    · next hle =>
      obtain rfl := Except.ok.inj h
      exact ⟨number_eq_ok_iff.1 hm, UInt64.not_lt.1 hle⟩
  · intro h
    obtain ⟨hl, hle⟩ := h
    refine ⟨l, number_eq_ok_iff.2 hl, ?_⟩
    rw [if_neg (UInt64.not_lt.2 hle)]
    rfl

theorem isLiteral_iff {e : Edge} :
    IsLiteral bound word e ↔ ∃ l, literal bound line word = .ok l ∧ Edge.ofLiteral l = e := by
  constructor
  · intro h
    obtain ⟨hle, l, hl, rfl⟩ := h
    exact ⟨l, literal_eq_ok_iff.2 ⟨hl, hle⟩, rfl⟩
  · intro h
    obtain ⟨l, hl, rfl⟩ := h
    obtain ⟨hnumeral, hle⟩ := literal_eq_ok_iff.1 hl
    exact ⟨hle, l, hnumeral, rfl⟩

/-- A line is split into the expected number of words, no less and no more. -/
theorem wordsExactly_eq_ok_iff {part : Part} {count : Nat} {found : List (List Char)} :
    wordsExactly line part count text = .ok found ↔ words text = found ∧ found.length = count := by
  unfold wordsExactly
  dsimp only
  split
  · next hfew =>
    refine iff_of_false (by simp) fun h => ?_
    rw [h.1] at hfew
    omega
  · next hmany =>
    split
    · next extra hextra =>
      refine iff_of_false (by simp) fun h => ?_
      obtain ⟨hlt, _⟩ := List.getElem?_eq_some_iff.1 hextra
      rw [h.1] at hlt
      omega
    · next hnone =>
      rw [List.getElem?_eq_none_iff] at hnone
      constructor
      · intro h
        obtain rfl := Except.ok.inj h
        exact ⟨rfl, by omega⟩
      · intro h
        rw [h.1]

/-- The reader of input lines accepts what the grammar says, and finds what it says. -/
theorem inputLine_eq_ok_iff {e : Edge} :
    inputLine bound line text = .ok e ↔ IsInput bound text e := by
  unfold inputLine IsInput
  rw [except_bind_eq_ok_iff]
  constructor
  · intro h
    obtain ⟨found, hfound, h⟩ := h
    split at h
    · next word =>
      rw [except_bind_eq_ok_iff] at h
      obtain ⟨l, hl, h⟩ := h
      split at h
      · cases h
      · next hnode =>
        obtain rfl := Except.ok.inj h
        exact ⟨hnode, word, (wordsExactly_eq_ok_iff.1 hfound).1, isLiteral_iff.2 ⟨l, hl, rfl⟩⟩
    · cases h
  · intro h
    obtain ⟨hnode, word, hwords, hliteral⟩ := h
    obtain ⟨l, hl, rfl⟩ := isLiteral_iff.1 hliteral
    refine ⟨[word], wordsExactly_eq_ok_iff.2 ⟨hwords, rfl⟩, ?_⟩
    exact except_bind_eq_ok_iff.2 ⟨l, hl, if_neg hnode⟩

/-- The reader of output lines accepts what the grammar says. The constant may drive an output. -/
theorem outputLine_eq_ok_iff {e : Edge} :
    outputLine bound line text = .ok e ↔ IsOutput bound text e := by
  unfold outputLine IsOutput
  rw [except_bind_eq_ok_iff]
  constructor
  · intro h
    obtain ⟨found, hfound, h⟩ := h
    split at h
    · next word =>
      rw [except_bind_eq_ok_iff] at h
      obtain ⟨l, hl, h⟩ := h
      obtain rfl := Except.ok.inj h
      exact ⟨word, (wordsExactly_eq_ok_iff.1 hfound).1, isLiteral_iff.2 ⟨l, hl, rfl⟩⟩
    · cases h
  · intro h
    obtain ⟨word, hwords, hliteral⟩ := h
    obtain ⟨l, hl, rfl⟩ := isLiteral_iff.1 hliteral
    refine ⟨[word], wordsExactly_eq_ok_iff.2 ⟨hwords, rfl⟩, ?_⟩
    exact except_bind_eq_ok_iff.2 ⟨l, hl, rfl⟩

/-- The reader of gate lines accepts what the grammar says. Its order of checks does not matter for
    what is accepted. -/
theorem gateLine_eq_ok_iff {gate : GateLine} :
    gateLine bound line text = .ok gate ↔ IsGate bound text gate := by
  unfold gateLine IsGate
  rw [except_bind_eq_ok_iff]
  constructor
  · intro h
    obtain ⟨found, hfound, h⟩ := h
    split at h
    · next first second third =>
      rw [except_bind_eq_ok_iff] at h
      obtain ⟨l, hl, h⟩ := h
      rw [except_bind_eq_ok_iff] at h
      obtain ⟨left, hleft, h⟩ := h
      rw [except_bind_eq_ok_iff] at h
      obtain ⟨right, hright, h⟩ := h
      dsimp only at h
      split at h
      · cases h
      · next hnode =>
        split at h
        · cases h
        · next heven =>
          obtain rfl := Except.ok.inj h
          refine ⟨hnode, first, second, third, (wordsExactly_eq_ok_iff.1 hfound).1,
            isLiteral_iff.2 ⟨l, hl, ?_⟩, isLiteral_iff.2 ⟨left, hleft, rfl⟩,
            isLiteral_iff.2 ⟨right, hright, rfl⟩⟩
          exact congrArg (Edge.mk _) (Bool.eq_false_iff.2 heven)
    · cases h
  · intro h
    obtain ⟨hnode, first, second, third, hwords, hfirst, hsecond, hthird⟩ := h
    obtain ⟨l, hl, hgate⟩ := isLiteral_iff.1 hfirst
    obtain ⟨left, hleft, heqleft⟩ := isLiteral_iff.1 hsecond
    obtain ⟨right, hright, heqright⟩ := isLiteral_iff.1 hthird
    refine ⟨[first, second, third], wordsExactly_eq_ok_iff.2 ⟨hwords, rfl⟩, ?_⟩
    refine except_bind_eq_ok_iff.2 ⟨l, hl, except_bind_eq_ok_iff.2 ⟨left, hleft,
      except_bind_eq_ok_iff.2 ⟨right, hright, ?_⟩⟩⟩
    simp only [hgate, heqleft, heqright]
    rw [if_neg hnode]
    rfl

/-- The sizes that a header tells, read as it writes them. -/
def HeaderSays (text : List Char) (header : Header) : Prop :=
  ∃ m i l o a, words text = ["aag".toList, m, i, l, o, a] ∧ IsNumeral m header.bound.toNat ∧
    IsNumeral i header.inputs.toNat ∧ IsNumeral l 0 ∧ IsNumeral o header.outputs.toNat ∧
    IsNumeral a header.gates.toNat

/-- The header is read word by word, and the count of latches has to be zero. -/
theorem headerParse_eq_ok_iff {header : Header} :
    Header.parse text = .ok header ↔ HeaderSays text header := by
  unfold Header.parse HeaderSays
  constructor
  · intro h
    split at h
    · next format m i l o a extra hwords =>
      by_cases hformat : String.ofList format = "aag"
      · by_cases hextra : extra.isEmpty = true
        · rw [if_neg (not_not.2 hformat), if_pos hextra] at h
          obtain ⟨bound, hm, h⟩ := except_bind_eq_ok_iff.1 h
          obtain ⟨inputs, hi, h⟩ := except_bind_eq_ok_iff.1 h
          obtain ⟨latches, hl, h⟩ := except_bind_eq_ok_iff.1 h
          obtain ⟨outputs, ho, h⟩ := except_bind_eq_ok_iff.1 h
          obtain ⟨gates, ha, h⟩ := except_bind_eq_ok_iff.1 h
          by_cases hzero : latches = 0
          · rw [if_pos hzero] at h
            obtain rfl := Except.ok.inj h
            rw [hzero] at hl
            have hformat := congrArg String.toList hformat
            rw [String.toList_ofList] at hformat
            rw [List.isEmpty_iff.1 hextra, hformat] at hwords
            exact ⟨m, i, l, o, a, hwords, number_eq_ok_iff.1 hm, number_eq_ok_iff.1 hi,
              number_eq_ok_iff.1 hl, number_eq_ok_iff.1 ho, number_eq_ok_iff.1 ha⟩
          · rw [if_neg hzero] at h
            cases h
        · rw [if_neg (not_not.2 hformat), if_neg hextra] at h
          cases h
      · rw [if_pos hformat] at h
        cases h
    · cases h
  · intro h
    obtain ⟨m, i, l, o, a, hwords, hm, hi, hl, ho, ha⟩ := h
    rw [hwords]
    dsimp only
    rw [if_neg (not_not.2 (String.ofList_toList ..)), if_pos (List.isEmpty_nil ..)]
    refine except_bind_eq_ok_iff.2 ⟨_, number_eq_ok_iff.2 hm, ?_⟩
    refine except_bind_eq_ok_iff.2 ⟨_, number_eq_ok_iff.2 hi, ?_⟩
    refine except_bind_eq_ok_iff.2 ⟨0, number_eq_ok_iff.2 hl, ?_⟩
    refine except_bind_eq_ok_iff.2 ⟨_, number_eq_ok_iff.2 ho, ?_⟩
    exact except_bind_eq_ok_iff.2 ⟨_, number_eq_ok_iff.2 ha, rfl⟩

/-- A numeral has no space in it, so the first space of a symbol line comes before the name. -/
theorem ne_space_of_isNumeral {n : Nat} (h : IsNumeral word n) : ∀ c ∈ word, (c != ' ') = true := by
  obtain ⟨digits, hword, _, hdigits, _⟩ := h
  have hne : ∀ c ∈ digits, (c != ' ') = true := by
    intro c hc
    rw [bne_iff_ne]
    rintro rfl
    exact absurd (hdigits ' ' hc) (by decide)
  obtain rfl | rfl := hword
  · exact hne
  · intro c hc
    obtain rfl | hc := List.mem_cons.1 hc
    · rfl
    · exact hne c hc

/-- What stands before the first space of a line, and what behind it. -/
theorem symbolLine_split {tag name : List Char} (htag : ∀ c ∈ tag, (c != ' ') = true) :
    (tag ++ ' ' :: name).takeWhile (· != ' ') = tag ∧
      (tag ++ ' ' :: name).dropWhile (· != ' ') = ' ' :: name := by
  constructor
  · rw [List.takeWhile_append_of_pos htag]
    simp
  · rw [List.dropWhile_append_of_pos htag]
    simp

theorem eq_of_dropWhile_space {space : Char} {name : List Char}
    (h : text.dropWhile (· != ' ') = space :: name) :
    text = text.takeWhile (· != ' ') ++ ' ' :: name := by
  obtain rfl : space = ' ' := by
    have hhead := List.head?_dropWhile_not (· != ' ') text
    rw [h] at hhead
    simpa using hhead
  rw [← h, List.takeWhile_append_dropWhile]

/-- The two kinds of symbols are read in the same way. -/
theorem isSymbol_of_number {symbol : Symbol} {isInput : Bool} {digits name : List Char}
    (h : (do return some ⟨isInput, (← number line digits).toNat, .ofList name⟩) =
      Except.ok (some symbol)) (hname : name ≠ [])
    (htext : text = (if isInput then 'i' else 'o') :: (digits ++ ' ' :: name)) :
    IsSymbol text symbol := by
  obtain ⟨v, hv, h⟩ := except_bind_eq_ok_iff.1 h
  obtain rfl := Option.some.inj (Except.ok.inj h)
  refine ⟨fun hempty => hname ?_, digits, number_eq_ok_iff.1 hv, ?_⟩
  · have hempty : String.ofList name = "" := hempty
    rw [← String.toList_ofList (l := name), hempty]
    rfl
  · rw [String.toList_ofList]
    exact htext

/-- A line that is put together of a letter, a position and a name is taken apart again. -/
theorem symbolLine_of_parts {isInput : Bool} {digits name : List Char}
    (hdigits : ∀ c ∈ digits, (c != ' ') = true) (hname : name ≠ []) :
    symbolLine line ((if isInput then 'i' else 'o') :: (digits ++ ' ' :: name)) =
      (do return some ⟨isInput, (← number line digits).toNat, .ofList name⟩) := by
  obtain ⟨c, rest, rfl⟩ := List.exists_cons_of_ne_nil hname
  have hsplit : ∀ letter : Char, (letter != ' ') = true →
      (letter :: (digits ++ ' ' :: c :: rest)).takeWhile (· != ' ') = letter :: digits ∧
        (letter :: (digits ++ ' ' :: c :: rest)).dropWhile (· != ' ') = ' ' :: c :: rest :=
    fun letter hletter => symbolLine_split (List.forall_mem_cons.2 ⟨hletter, hdigits⟩)
  cases isInput with
  | true =>
    obtain ⟨htake, hdrop⟩ := hsplit 'i' (by decide)
    rw [if_pos rfl, symbolLine]
    · simp only [hdrop, htake]
    · simp
    · simp
  | false =>
    obtain ⟨htake, hdrop⟩ := hsplit 'o' (by decide)
    rw [if_neg Bool.false_ne_true, symbolLine]
    · simp only [hdrop, htake]
    · simp
    · simp

theorem isSymbol_of_symbolLine {symbol : Symbol} (h : symbolLine line text = .ok (some symbol)) :
    IsSymbol text symbol := by
  unfold symbolLine at h
  split at h
  · cases h
  · cases h
  · split at h
    · cases h
    · cases h
    · next space name hname hdrop =>
      have htext := eq_of_dropWhile_space hdrop
      split at h
      · next digits htake =>
        rw [htake] at htext
        exact isSymbol_of_number h (fun hnil => hname hnil) htext
      · next digits htake =>
        rw [htake] at htext
        exact isSymbol_of_number h (fun hnil => hname hnil) htext
      · cases h

theorem symbolLine_eq_some_iff {symbol : Symbol} :
    symbolLine line text = .ok (some symbol) ↔ IsSymbol text symbol := by
  refine ⟨isSymbol_of_symbolLine, fun h => ?_⟩
  obtain ⟨isInput, position, name⟩ := symbol
  obtain ⟨hname, digits, hdigits, rfl⟩ := h
  have hposition : UInt64.toNat (UInt64.ofNat position) = position := by
    obtain ⟨_, _, _, _, _, hlt⟩ := hdigits
    exact UInt64.toNat_ofNat_of_lt' hlt
  have hnumber : number line digits = .ok (UInt64.ofNat position) :=
    number_eq_ok_iff.2 (hposition.symm ▸ hdigits)
  have hletters : name.toList ≠ [] := fun hnil => hname (String.toList_eq_nil_iff.1 hnil)
  rw [symbolLine_of_parts (ne_space_of_isNumeral hdigits) hletters, hnumber]
  refine except_bind_eq_ok_iff.2 ⟨_, rfl, ?_⟩
  rw [hposition, String.ofList_toList]
  rfl

/-- Only an empty line and a line that begins a comment end the table; a line that is no symbol is
    an error instead. -/
theorem symbolLine_eq_none_iff : symbolLine line text = .ok none ↔ IsEnd text := by
  unfold symbolLine IsEnd
  constructor
  · intro h
    split at h
    · exact .inl rfl
    · next comment => exact .inr ⟨comment, rfl⟩
    · split at h
      · cases h
      · cases h
      · split at h
        · obtain ⟨v, _, h⟩ := except_bind_eq_ok_iff.1 h
          cases h
        · obtain ⟨v, _, h⟩ := except_bind_eq_ok_iff.1 h
          cases h
        · cases h
  · intro h
    obtain rfl | ⟨comment, rfl⟩ := h
    · rfl
    · rfl

end AndInverter.Aiger
