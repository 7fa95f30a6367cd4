import AndInverter.Proofs.Aiger.Rendering
import AndInverter.Report

namespace AndInverter.Report

open Text (isBlank)

/-- The first word in the line of a visit: the kind, after a mark for an inverter. -/
def label (visit : Visit) : String := (if visit.inverted then "!" else "") ++ visit.node.kind.tag

/-- The words in the line of a visit. -/
def visitWords (visit : Visit) : List (List Char) :=
  [(label visit).toList, (toString visit.node.id).toList] ++
    if visit.again then ["(*)".toList] else []

/-- The line of a visit, without its line feed. -/
def visitLine (visit : Visit) : String :=
  String.join (List.replicate visit.depth "  ") ++ (if visit.inverted then "!" else "") ++
    s!"{visit.node.kind.tag} {visit.node.id}" ++ (if visit.again then " (*)" else "")

/-- The ids in the lines of a cone. In each line the id is the second word. -/
def idsIn (text : String) : List (Option NodeId) :=
  (Text.lines text.toUTF8).map fun line => (Text.words (line.getD []))[1]?.bind Text.numeral?

theorem toList_visitLine (visit : Visit) : (visitLine visit).toList =
    (String.join (List.replicate visit.depth "  ")).toList ++
      [' '].intercalate (visitWords visit) := by
  unfold visitLine visitWords label
  cases visit.again
  · simp [String.toList_append]
    rfl
  · simp only [String.toList_append, if_true, List.cons_append, List.nil_append,
      List.intercalate_cons_cons, List.intercalate_singleton, List.append_assoc]
    rfl

theorem tag_word (kind : Kind) :
    kind.tag.toList ≠ [] ∧ ∀ c ∈ kind.tag.toList, isBlank c = false := by
  have hwords : ["CONST", "PI", "PO", "AIG", "UNDEF"].all (fun tag =>
      !tag.toList.isEmpty && tag.toList.all (!isBlank ·)) = true := by decide +kernel
  have htag : kind.tag ∈ ["CONST", "PI", "PO", "AIG", "UNDEF"] := by cases kind <;> simp [Kind.tag]
  simpa using List.all_eq_true.1 hwords kind.tag htag

/-- A mark for an inverter is a part of the word behind it. -/
theorem marked_word (inverted : Bool) {word : String}
    (h : word.toList ≠ [] ∧ ∀ c ∈ word.toList, isBlank c = false) :
    ((if inverted then "!" else "") ++ word).toList ≠ [] ∧
      ∀ c ∈ ((if inverted then "!" else "") ++ word).toList, isBlank c = false := by
  have hmark : ((if inverted then "!" else "").toList.all (!isBlank ·)) = true := by
    cases inverted <;> decide +kernel
  rw [String.toList_append]
  refine ⟨List.append_ne_nil_of_right_ne_nil _ h.1, List.forall_mem_append.2 ⟨?_, h.2⟩⟩
  simpa using hmark

theorem label_word (visit : Visit) :
    (label visit).toList ≠ [] ∧ ∀ c ∈ (label visit).toList, isBlank c = false :=
  marked_word visit.inverted (tag_word visit.node.kind)

/-- The words that a visited node is written with hold no blank, so that the line splits into them
    again. -/
theorem visitWords_word (visit : Visit) :
    ∀ word ∈ visitWords visit, word ≠ [] ∧ ∀ c ∈ word, isBlank c = false := by
  have hstar : (!"(*)".toList.isEmpty && "(*)".toList.all (!isBlank ·)) = true := by decide +kernel
  intro word hword
  rcases List.mem_append.1 hword with hword | hword
  · rcases List.mem_cons.1 hword with rfl | hword
    · exact label_word visit
    · rw [List.mem_singleton.1 hword]
      exact Text.toString_nat_word visit.node.id.toNat
  · split at hword
    · rw [List.mem_singleton.1 hword]
      simpa using hstar
    · cases hword

theorem eq_space_of_mem_indent {depth : Nat} {c : Char}
    (h : c ∈ (String.join (List.replicate depth "  ")).toList) : c = ' ' := by
  rw [String.toList_join, List.mem_flatMap] at h
  obtain ⟨text, htext, hc⟩ := h
  rw [List.eq_of_mem_replicate htext] at hc
  simpa using hc

theorem words_visitLine (visit : Visit) :
    Text.words (visitLine visit).toList = visitWords visit := by
  rw [toList_visitLine, Text.words_append_of_blank, Text.words_intercalate (visitWords_word visit)]
  intro c hc
  rw [eq_space_of_mem_indent hc]
  exact Text.isBlank_space

theorem newline_not_mem_visitLine (visit : Visit) : '\n' ∉ (visitLine visit).toList := by
  rw [toList_visitLine, List.mem_append, not_or]
  constructor
  · intro hindent
    cases eq_space_of_mem_indent hindent
  · exact (Text.isLine_intercalate fun word hword => (visitWords_word visit word hword).2).newline

/-- The ids that are printed are found again. -/
theorem idsIn_join (visits : List Visit) : idsIn (String.join (visits.map visitText)) =
    visits.map fun visit => some visit.node.id := by
  have htexts : visits.map visitText = (visits.map visitLine).map (· ++ "\n") := by
    rw [List.map_map]
    rfl
  have hlines : ∀ text ∈ visits.map visitLine, '\n' ∉ text.toList :=
    List.forall_mem_map.2 fun visit _ => newline_not_mem_visitLine visit
  rw [idsIn, htexts, Text.lines_join hlines, List.map_map, List.map_map]
  refine List.map_congr_left fun visit _ => ?_
  have hid : (Text.words (visitLine visit).toList)[1]? = some (toString visit.node.id).toList := by
    rw [words_visitLine]
    rfl
  change (Text.words (visitLine visit).toList)[1]?.bind Text.numeral? = some visit.node.id
  rw [hid, Option.bind_some, Text.numeral?_eq_some_iff]
  exact Text.isNumeral_toString visit.node.id.toNat_lt

end AndInverter.Report
