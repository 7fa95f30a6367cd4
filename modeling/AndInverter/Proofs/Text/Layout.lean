import AndInverter.Text.Blank
import AndInverter.Text.Lines
import Mathlib.Data.List.Basic
import Mathlib.Data.List.Induction
import Mathlib.Tactic.SplitIfs

namespace AndInverter.Text

section Pieces

variable {α : Type} {sep : α → Bool}

/-- What no separator parts from the text behind it is one stretch with the first one there. -/
theorem pieces_append_of_no_sep {s : List α} (h : ∀ x ∈ s, sep x = false) (rest : List α) :
    pieces sep (s ++ rest) = (pieces sep rest).modifyHead (s ++ ·) := by
  obtain ⟨first, more, hrest⟩ := List.exists_cons_of_ne_nil (pieces_ne_nil sep rest)
  rw [hrest, List.modifyHead_cons]
  induction s with
  | nil => exact hrest
  | cons x s ih =>
    have htail := ih fun y hy => h y (List.mem_cons_of_mem x hy)
    simp only [pieces, List.cons_append, List.foldr_cons] at htail ⊢
    simp [htail, h x List.mem_cons_self]

theorem pieces_of_no_sep {s : List α} (h : ∀ x ∈ s, sep x = false) : pieces sep s = [s] := by
  simpa using pieces_append_of_no_sep h []

/-- A separator parts what is before it from what is behind it. -/
theorem pieces_append_sep {x : α} (hx : sep x = true) (s rest : List α) :
    pieces sep (s ++ x :: rest) = pieces sep s ++ pieces sep rest := by
  induction s with
  | nil => rw [List.nil_append, pieces_cons_of_sep hx, pieces_nil, List.singleton_append]
  | cons y s ih =>
    cases hy : sep y with
    | true => rw [List.cons_append, pieces_cons_of_sep hy, pieces_cons_of_sep hy, ih, List.cons_append]
    | false =>
      have hfirst : ∀ z ∈ [y], sep z = false := by simp [hy]
      have hleft := pieces_append_of_no_sep hfirst (s ++ x :: rest)
      have hright := pieces_append_of_no_sep hfirst s
      rw [List.singleton_append] at hleft hright
      obtain ⟨first, more, hpieces⟩ := List.exists_cons_of_ne_nil (pieces_ne_nil sep s)
      rw [List.cons_append, hleft, hright, ih, hpieces]
      rfl

/-- No separator is left in a stretch. -/
theorem no_sep_of_mem_pieces {s piece : List α} (h : piece ∈ pieces sep s) :
    ∀ x ∈ piece, sep x = false := by
  induction s generalizing piece with
  | nil =>
    obtain rfl := List.mem_singleton.1 h
    simp
  | cons c s ih =>
    by_cases hc : sep c = true
    · rw [pieces_cons_of_sep hc] at h
      obtain rfl | h := List.mem_cons.1 h
      · simp
      · exact ih h
    · obtain ⟨first, more, hpieces⟩ := List.exists_cons_of_ne_nil (pieces_ne_nil sep s)
      have hstep : pieces sep (c :: s) = (c :: first) :: more := by
        simp only [pieces, List.foldr_cons] at hpieces ⊢
        simp [hpieces, hc]
      rw [hstep] at h
      obtain rfl | h := List.mem_cons.1 h
      · refine List.forall_mem_cons.2 ⟨Bool.eq_false_iff.2 hc, ih ?_⟩
        rw [hpieces]
        exact List.mem_cons_self
      · refine ih ?_
        rw [hpieces]
        exact List.mem_cons_of_mem first h

end Pieces

/-- Behind a line feed a text goes on with new lines. -/
theorem lines_append {text : ByteArray} (htext : text.data.toList.getLast? = some 10)
    (more : ByteArray) : lines (text ++ more) = lines text ++ lines more := by
  obtain ⟨s, hs⟩ := List.getLast?_eq_some_iff.1 htext
  have hdata : (text ++ more).data.toList = s ++ 10 :: more.data.toList := by
    rw [ByteArray.data_append, Array.toList_append, hs, List.append_assoc]
    rfl
  have hfound : pieces (· == 10) text.data.toList = pieces (· == 10) s ++ [[]] := by
    rw [hs]
    exact pieces_append_sep rfl s []
  have hboth : pieces (· == 10) (text ++ more).data.toList =
      pieces (· == 10) s ++ pieces (· == 10) more.data.toList := by
    rw [hdata]
    exact pieces_append_sep rfl s _
  have hne := pieces_ne_nil (· == 10) more.data.toList
  have hlast := List.getLast?_append_of_ne_nil (pieces (· == 10) s) hne
  unfold lines
  rw [hfound, hboth]
  dsimp only
  rw [List.getLast?_concat, List.dropLast_concat, hlast, ← List.map_append]
  split
  · rw [List.dropLast_append_of_ne_nil hne]
  · rfl

/-- Words on the two sides of a blank are found apart. -/
theorem words_append_blank {c : Char} (hc : isBlank c = true) (s rest : List Char) :
    words (s ++ c :: rest) = words s ++ words rest := by
  rw [words, pieces_append_sep hc, List.filter_append]
  rfl

theorem words_of_word {word : List Char} (hne : word ≠ []) (h : ∀ c ∈ word, isBlank c = false) :
    words word = [word] := by
  have hkept : (!word.isEmpty) = true := by simpa using hne
  rw [words, pieces_of_no_sep h, List.filter_cons, if_pos hkept]
  rfl

/-- Words with single spaces between them are found again. -/
theorem words_intercalate {parts : List (List Char)}
    (h : ∀ word ∈ parts, word ≠ [] ∧ ∀ c ∈ word, isBlank c = false) :
    words ([' '].intercalate parts) = parts := by
  induction parts with
  | nil => rfl
  | cons word parts ih =>
    obtain ⟨⟨hne, hword⟩, hparts⟩ := List.forall_mem_cons.1 h
    cases parts with
    | nil => rw [List.intercalate_singleton, words_of_word hne hword]
    | cons second parts =>
      rw [List.intercalate_cons_cons, List.append_assoc, List.singleton_append,
        words_append_blank isBlank_space, words_of_word hne hword, ih hparts]
      rfl

/-- Words with a space before each of them are found again. -/
theorem words_flatMap_space {parts : List (List Char)}
    (h : ∀ word ∈ parts, word ≠ [] ∧ ∀ c ∈ word, isBlank c = false) :
    words (parts.flatMap (' ' :: ·)) = parts := by
  induction parts using List.reverseRecOn with
  | nil => rfl
  | append_singleton parts word ih =>
    obtain ⟨hparts, hword⟩ := List.forall_mem_append.1 h
    obtain ⟨hne, hword⟩ := List.forall_mem_singleton.1 hword
    rw [List.flatMap_append, List.flatMap_singleton, words_append_blank isBlank_space, ih hparts,
      words_of_word hne hword]

/-- Blanks before the first word do not matter. -/
theorem words_append_of_blank {blanks : List Char} (h : ∀ c ∈ blanks, isBlank c = true)
    (rest : List Char) : words (blanks ++ rest) = words rest := by
  induction blanks with
  | nil => rfl
  | cons c blanks ih =>
    obtain ⟨hc, hblanks⟩ := List.forall_mem_cons.1 h
    rw [List.cons_append, ← ih hblanks]
    exact words_append_blank hc [] (blanks ++ rest)

/-- Between words there is nothing but spaces. -/
theorem mem_intercalate {parts : List (List Char)} {c : Char} (h : c ∈ [' '].intercalate parts) :
    c = ' ' ∨ ∃ word ∈ parts, c ∈ word := by
  induction parts with
  | nil => cases h
  | cons word parts ih =>
    cases parts with
    | nil =>
      rw [List.intercalate_singleton] at h
      exact .inr ⟨word, List.mem_cons_self, h⟩
    | cons second parts =>
      rw [List.intercalate_cons_cons, List.append_assoc, List.mem_append, List.mem_append] at h
      obtain h | h | h := h
      · exact .inr ⟨word, List.mem_cons_self, h⟩
      · exact .inl (List.mem_singleton.1 h)
      · obtain rfl | ⟨other, hother, hc⟩ := ih h
        · exact .inl rfl
        · exact .inr ⟨other, List.mem_cons_of_mem word hother, hc⟩

theorem newline_not_mem_of_word {word : List Char} (h : ∀ c ∈ word, isBlank c = false) :
    '\n' ∉ word := by
  intro hmem
  have hblank := h _ hmem
  rw [isBlank_newline] at hblank
  cases hblank

/-- The characters are a line of their own when they are written: no line feed parts them, and no
    carriage return at their end is taken for a part of the line end. -/
structure IsLine (line : List Char) : Prop where
  newline : '\n' ∉ line
  ending : line.getLast? ≠ some '\r'

theorem isLine_intercalate {parts : List (List Char)}
    (h : ∀ word ∈ parts, ∀ c ∈ word, isBlank c = false) : IsLine ([' '].intercalate parts) := by
  have hblank : ∀ c, isBlank c = true → c ≠ ' ' → c ∉ [' '].intercalate parts := by
    intro c hc hspace hmem
    obtain rfl | ⟨word, hword, hmem⟩ := mem_intercalate hmem
    · exact hspace rfl
    · rw [h word hword c hmem] at hc
      cases hc
  refine ⟨hblank '\n' isBlank_newline (by decide), fun hlast => ?_⟩
  exact hblank '\r' (by decide) (by decide) (List.mem_of_getLast? hlast)

theorem IsLine.dropReturns_eq {line : List Char} (h : IsLine line) : dropReturns line = line := by
  unfold dropReturns
  cases hreverse : line.reverse with
  | nil =>
    rw [List.reverse_eq_nil_iff.1 hreverse]
    rfl
  | cons c rest =>
    have hc : ¬ (c == '\r') = true := by
      intro hc
      have hlast := h.ending
      rw [← List.head?_reverse, hreverse, List.head?_cons, beq_iff_eq.1 hc] at hlast
      exact hlast rfl
    rw [List.dropWhile_cons, if_neg hc, ← hreverse, List.reverse_reverse]

theorem mem_of_mem_dropReturns {line : List Char} {c : Char} (h : c ∈ dropReturns line) :
    c ∈ line := by
  rw [dropReturns, List.mem_reverse] at h
  exact List.mem_reverse.1 ((List.dropWhile_sublist _).mem h)

theorem getLast?_dropReturns (line : List Char) : (dropReturns line).getLast? ≠ some '\r' := by
  rw [dropReturns, List.getLast?_reverse]
  intro h
  have hhead := List.head?_dropWhile_not (· == '\r') line.reverse
  rw [h] at hhead
  cases hhead

/-- The UTF-8 bytes of characters. -/
def encode (chars : List Char) : List UInt8 := chars.flatMap String.utf8EncodeChar

theorem data_utf8Encode (chars : List Char) : chars.utf8Encode.data.toList = encode chars := by
  rw [List.utf8Encode, List.data_toByteArray]
  rfl

theorem data_toUTF8 (s : String) : s.toUTF8.data.toList = encode s.toList := by
  rw [String.toUTF8_eq_toByteArray, ← String.utf8Encode_toList, data_utf8Encode]

/-- Bytes are decoded as the characters that they encode, so that no other bytes give the same
    text. -/
theorem decode?_eq_some_iff {bytes : List UInt8} {chars : List Char} :
    decode? bytes = some chars ↔ bytes = encode chars := by
  unfold decode? String.fromUTF8?
  constructor
  · intro h
    split at h
    · next hvalid =>
      obtain rfl := Option.some.inj h
      rw [← data_utf8Encode, String.utf8Encode_toList]
      rfl
    · cases h
  · rintro rfl
    have hbytes : (⟨(encode chars).toArray⟩ : ByteArray) = (String.ofList chars).toByteArray := by
      rw [← data_utf8Encode, String.toByteArray_ofList]
    have hvalid : ByteArray.IsValidUTF8 ⟨(encode chars).toArray⟩ :=
      hbytes ▸ (String.ofList chars).isValidUTF8
    have htext : String.fromUTF8 ⟨(encode chars).toArray⟩ hvalid = String.ofList chars :=
      String.toByteArray_inj.1 hbytes
    rw [dif_pos hvalid, htext, Option.map_some, String.toList_ofList]

/-- A line feed is the only character with the byte of a line feed in its code. -/
theorem newline_mem_utf8EncodeChar {c : Char} : 10 ∈ String.utf8EncodeChar c ↔ c = '\n' := by
  constructor
  · intro h
    have hbyte : 10 ∈ (String.utf8EncodeChar c).map UInt8.toNat := List.mem_map.2 ⟨10, h, rfl⟩
    have hvalue : c.val.toNat = 10 := by
      unfold String.utf8EncodeChar at hbyte
      dsimp only at hbyte
      split_ifs at hbyte <;>
        simp only [List.map_cons, List.map_nil, UInt8.toNat_ofNat', List.mem_cons, List.not_mem_nil,
          or_false] at hbyte <;> omega
    exact Char.ext (UInt32.toNat_inj.1 hvalue)
  · rintro rfl
    decide

theorem newline_mem_encode {chars : List Char} : 10 ∈ encode chars ↔ '\n' ∈ chars := by
  rw [encode, List.mem_flatMap]
  constructor
  · intro h
    obtain ⟨c, hc, hbyte⟩ := h
    exact newline_mem_utf8EncodeChar.1 hbyte ▸ hc
  · exact fun h => ⟨'\n', h, newline_mem_utf8EncodeChar.2 rfl⟩

theorem newline_not_mem_of_lines {text : ByteArray} {chars : List Char}
    (h : some chars ∈ lines text) : '\n' ∉ chars := by
  obtain ⟨piece, hpiece, hdecode⟩ := List.mem_map.1 h
  have hmem : piece ∈ pieces (· == 10) text.data.toList := by
    split at hpiece
    · exact (List.dropLast_sublist _).mem hpiece
    · exact hpiece
  rw [← newline_mem_encode, ← decode?_eq_some_iff.1 hdecode]
  intro hbyte
  cases no_sep_of_mem_pieces hmem 10 hbyte

/-- Bytes are parted at line feeds where their characters are. -/
theorem pieces_encode (chars : List Char) :
    pieces (· == 10) (encode chars) = (pieces (· == '\n') chars).map encode := by
  induction chars with
  | nil => rfl
  | cons c chars ih =>
    by_cases hc : c = '\n'
    · subst hc
      have hbytes : encode ('\n' :: chars) = 10 :: encode chars := rfl
      rw [hbytes, pieces_cons_of_sep rfl, pieces_cons_of_sep rfl, ih]
      rfl
    · have hsep : ∀ byte ∈ String.utf8EncodeChar c, (byte == 10) = false := by
        intro byte hbyte
        rw [beq_eq_false_iff_ne]
        rintro rfl
        exact hc (newline_mem_utf8EncodeChar.1 hbyte)
      have hsingle : ∀ x ∈ [c], (x == '\n') = false := by simpa using hc
      have hchars := pieces_append_of_no_sep hsingle chars
      obtain ⟨first, more, hpieces⟩ := List.exists_cons_of_ne_nil (pieces_ne_nil (· == '\n') chars)
      rw [List.singleton_append, hpieces] at hchars
      have hbytes : encode (c :: chars) = String.utf8EncodeChar c ++ encode chars := rfl
      rw [hbytes, pieces_append_of_no_sep hsep, ih, hpieces, hchars]
      rfl

/-- The lines of characters. A line feed ends a line, and characters after the last line feed are a
    line of their own. -/
def rows (chars : List Char) : List (List Char) :=
  let found := pieces (· == '\n') chars
  match found.getLast? with
  | some [] => found.dropLast
  | _ => found

/-- The lines of a text that is valid are those of its characters. -/
theorem lines_toUTF8 (s : String) : lines s.toUTF8 = (rows s.toList).map some := by
  have hdecode : ∀ found : List (List Char), (found.map encode).map decode? = found.map some := by
    intro found
    rw [List.map_map]
    exact List.map_congr_left fun chars _ => decode?_eq_some_iff.2 rfl
  unfold lines rows
  rw [data_toUTF8, pieces_encode]
  dsimp only
  rw [List.getLast?_map]
  -- The last stretch is dropped for its bytes exactly if it is dropped for its characters.
  cases (pieces (· == '\n') s.toList).getLast? with
  | none => exact hdecode _
  | some piece =>
    cases piece with
    | nil => exact List.map_dropLast ▸ hdecode _
    | cons c piece =>
      have hne : encode (c :: piece) ≠ [] :=
        List.append_ne_nil_of_left_ne_nil String.utf8EncodeChar_ne_nil _
      obtain ⟨byte, bytes, hbytes⟩ := List.exists_cons_of_ne_nil hne
      rw [Option.map_some, hbytes]
      exact hdecode _

/-- Lines that hold no line break are found again, followed by the empty piece behind the last
    break. -/
theorem pieces_join {texts : List String} (h : ∀ text ∈ texts, '\n' ∉ text.toList) :
    pieces (· == '\n') (String.join (texts.map (· ++ "\n"))).toList =
      texts.map String.toList ++ [[]] := by
  induction texts with
  | nil => rfl
  | cons text texts ih =>
    obtain ⟨htext, htexts⟩ := List.forall_mem_cons.1 h
    have hsep : ∀ c ∈ text.toList, (c == '\n') = false := by
      intro c hc
      rw [beq_eq_false_iff_ne]
      rintro rfl
      exact htext hc
    have hline : (String.join ((text :: texts).map (· ++ "\n"))).toList =
        text.toList ++ '\n' :: (String.join (texts.map (· ++ "\n"))).toList := by
      simp [String.toList_join]
    rw [hline, pieces_append_cons rfl hsep, ih htexts]
    rfl

/-- Lines that are written out are found again. -/
theorem lines_join {texts : List String} (h : ∀ text ∈ texts, '\n' ∉ text.toList) :
    lines (String.join (texts.map (· ++ "\n"))).toUTF8 = texts.map fun text => some text.toList := by
  rw [lines_toUTF8, rows, pieces_join h, List.getLast?_concat, List.dropLast_concat, List.map_map]
  rfl

end AndInverter.Text
