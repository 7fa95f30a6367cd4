import AndInverter.Proofs.Audit
import AndInverter.Proofs.Session
import AndInverter.Proofs.Simulation.Course
import AndInverter.Proofs.Text.Layout

namespace AndInverter

namespace Pattern

variable {width : Nat} {line : List Char}

/-- The line is a pattern: it is not blank, and has one character per input, each of them 0 or 1. -/
def IsPattern (width : Nat) (line : List Char) : Prop :=
  line ≠ [] ∧ line.length = width ∧ ∀ c ∈ line, c = '0' ∨ c = '1'

-- The characters of the line are looked at, not all characters that there are.
instance (width : Nat) (line : List Char) : Decidable (IsPattern width line) :=
  have : Decidable (∀ c ∈ line, c = '0' ∨ c = '1') :=
    List.decidableBAll (fun c => c = '0' ∨ c = '1') line
  inferInstanceAs (Decidable (_ ∧ _ ∧ _))

/-- The bits of a pattern. -/
def bits (line : List Char) : List Bool := line.map (· == '1')

/-- What is wrong with a line that is no pattern: its length, or else its first character that is no
    bit. -/
def fault (width : Nat) (line : List Char) : PatternError :=
  if line.length ≠ width then .length (.ofList line) line.length width
  else .nonBinary (.ofList line) ((line.find? fun c => c ≠ '0' ∧ c ≠ '1').getD '0')

theorem bit?_eq (c : Char) :
    bit? c = if c = '0' ∨ c = '1' then some (c == '1') else none := by
  unfold bit?
  split
  · rfl
  · rfl
  · next hzero hone => rw [if_neg (not_or.2 ⟨hzero, hone⟩)]

/-- Characters are read up to the first that is no bit. -/
theorem mapM_bit?_eq (reject : Char → PatternError) (line : List Char) :
    (line.mapM fun c => match bit? c with
      | some b => Except.ok b
      | none => Except.error (reject c)) =
      match line.find? fun c => c ≠ '0' ∧ c ≠ '1' with
      | none => .ok (bits line)
      | some c => .error (reject c) := by
  induction line with
  | nil => rfl
  | cons c line ih =>
    rw [List.mapM_cons, ih, bit?_eq, List.find?_cons]
    by_cases hc : c = '0' ∨ c = '1'
    · have hbinary : ¬ (c ≠ '0' ∧ c ≠ '1') := by tauto
      simp only [if_pos hc, decide_eq_false hbinary]
      cases line.find? fun c => c ≠ '0' ∧ c ≠ '1' <;> rfl
    · have hother : c ≠ '0' ∧ c ≠ '1' := not_or.1 hc
      simp only [if_neg hc, decide_eq_true hother]
      rfl

/-- A line is a pattern if it has a bit for each input. Its first wrong character is blamed before
    its length. -/
theorem parse_eq (hline : line ≠ []) :
    parse width line =
      if IsPattern width line then .ok (bits line) else .error (fault width line) := by
  unfold parse fault
  by_cases hlength : line.length = width
  · rw [if_neg (not_not.2 hlength), if_neg (not_not.2 hlength)]
    refine (mapM_bit?_eq (.nonBinary (.ofList line)) line).trans ?_
    cases hfind : line.find? fun c => c ≠ '0' ∧ c ≠ '1' with
    | none =>
      have hbinary : ∀ c ∈ line, c = '0' ∨ c = '1' := by
        intro c hc
        have hbit := List.find?_eq_none.1 hfind c hc
        rw [decide_eq_true_iff] at hbit
        tauto
      rw [if_pos ⟨hline, hlength, hbinary⟩]
    | some c =>
      have hother := List.find?_some hfind
      rw [decide_eq_true_iff] at hother
      have hnot : ¬ IsPattern width line := fun h =>
        (h.2.2 c (List.mem_of_find?_eq_some hfind)).elim hother.1 hother.2
      rw [if_neg hnot]
      rfl
  · rw [if_pos hlength, if_pos hlength, if_neg fun h => hlength h.2.1]

end Pattern

namespace PatternLine

variable {width : Nat} {line : List Char}

/-- Blanks around a line do not count, and a line of blanks is passed over. -/
theorem ofLine_some (width : Nat) (line : List Char) :
    ofLine width (some line) = if Text.trim line = [] then .blank
      else if Pattern.IsPattern width (Text.trim line) then .pattern (Pattern.bits (Text.trim line))
      else .rejected (Pattern.fault width (Text.trim line)) := by
  unfold ofLine
  dsimp only
  cases htrim : Text.trim line with
  | nil => rfl
  | cons c rest =>
    dsimp only
    rw [if_neg (List.cons_ne_nil c rest), Pattern.parse_eq (List.cons_ne_nil c rest)]
    by_cases hpattern : Pattern.IsPattern width (c :: rest)
    · rw [if_pos hpattern, if_pos hpattern]
    · rw [if_neg hpattern, if_neg hpattern]

theorem bits?_ofLine (width : Nat) (line : List Char) :
    (ofLine width (some line)).bits? = if Pattern.IsPattern width (Text.trim line) then
      some (Pattern.bits (Text.trim line)) else none := by
  rw [ofLine_some]
  by_cases hblank : Text.trim line = []
  · rw [if_pos hblank, if_neg fun h => h.1 hblank]
    rfl
  · rw [if_neg hblank]
    split <;> rfl

/-- A line is reported exactly if it is neither blank nor a pattern. -/
theorem reason?_ofLine (width : Nat) (line : List Char) :
    (ofLine width (some line)).reason? =
      if Text.trim line ≠ [] ∧ ¬ Pattern.IsPattern width (Text.trim line) then
        some (Pattern.fault width (Text.trim line)) else none := by
  rw [ofLine_some]
  by_cases hblank : Text.trim line = []
  · rw [if_pos hblank, if_neg fun h => h.1 hblank]
    rfl
  · by_cases hpattern : Pattern.IsPattern width (Text.trim line)
    · rw [if_neg hblank, if_pos hpattern, if_neg fun h => h.2 hpattern]
      rfl
    · rw [if_neg hblank, if_neg hpattern, if_pos ⟨hblank, hpattern⟩]
      rfl

theorem fits_ofLine (width : Nat) (line : List Char) : (ofLine width (some line)).Fits width := by
  rw [ofLine_some]
  split
  · exact ⟨nofun, nofun⟩
  · split
    · next hpattern =>
      refine ⟨nofun, fun bits hbits => ?_⟩
      obtain rfl := PatternLine.pattern.inj hbits
      rw [Pattern.bits, List.length_map, hpattern.2.1]
    · exact ⟨nofun, nofun⟩

theorem filterMap_bits?_map_pattern (patterns : List (List Bool)) :
    (patterns.map pattern).filterMap (·.bits?) = patterns := by
  rw [List.filterMap_map]
  exact List.filterMap_some

theorem rejections_map_pattern (number : Nat) (patterns : List (List Bool)) :
    rejections number (patterns.map pattern) = [] := by
  induction patterns generalizing number with
  | nil => rfl
  | cons bits patterns ih => exact (rejections_cons ..).trans (ih (number + 1))

end PatternLine

namespace Circuit

variable {τ : Type} {sink : Sink τ} {take : String → τ → τ} {c : Circuit}

/-- The lines of a text without the blanks around them. -/
def trimmedLines (text : String) : List (List Char) := (Text.rows text.toList).map Text.trim

/-- The patterns that a text holds for a circuit, in order. -/
def patternsIn (c : Circuit) (text : String) : List (List Bool) :=
  ((trimmedLines text).filter (Pattern.IsPattern c.inputs.length ·)).map Pattern.bits

/-- The lines of a text that are neither blank nor patterns for a circuit, with their numbers from
    one on and what is wrong with them. -/
def faultsIn (c : Circuit) (text : String) : List (Nat × PatternError) :=
  (((trimmedLines text).zipIdx 1).filter fun (line, _) =>
      line ≠ [] ∧ ¬ Pattern.IsPattern c.inputs.length line).map
    fun (line, number) => (number, Pattern.fault c.inputs.length line)

/-- The lines of a text as the simulation takes them. -/
def patternLines (c : Circuit) (text : String) : List PatternLine :=
  (Text.rows text.toList).map fun line => .ofLine c.inputs.length (some line)

theorem lines_textSource (c : Circuit) (text : String) (width : Nat) :
    (c.textSource text.toUTF8).lines width = c.patternLines text := by
  rw [textSource, PatternSource.lines, Text.lines_toUTF8, List.map_map]
  rfl

theorem filterMap_bits?_patternLines (c : Circuit) (text : String) :
    (c.patternLines text).filterMap (·.bits?) = c.patternsIn text := by
  unfold patternLines patternsIn trimmedLines
  conv_rhs => rw [← List.filterMap_eq_map, List.filterMap_filter]
  rw [List.filterMap_map, List.filterMap_map]
  refine List.filterMap_congr fun line _ => ?_
  simp [PatternLine.bits?_ofLine]

theorem rejections_patternLines (c : Circuit) (text : String) :
    PatternLine.rejections 1 (c.patternLines text) = c.faultsIn text := by
  unfold patternLines faultsIn trimmedLines PatternLine.rejections
  conv_rhs => rw [← List.filterMap_eq_map, List.filterMap_filter]
  rw [List.zipIdx_map, List.zipIdx_map, List.filterMap_map, List.filterMap_map]
  refine List.filterMap_congr fun numbered _ => ?_
  obtain ⟨line, number⟩ := numbered
  simp only [Function.comp_apply, Prod.map_apply, PatternLine.reason?_ofLine]
  split <;> simp_all

theorem WellFormed.simulateText_ran (hc : c.WellFormed) (hacyclic : c.Acyclic)
    (haccepts : sink.Accepts take) (log : τ) (text : String) :
    c.Ran take log (c.patternsIn text) (c.faultsIn text) (c.simulateText sink log text.toUTF8) := by
  rw [← filterMap_bits?_patternLines, ← rejections_patternLines]
  refine Simulation.simulate_ran hc hacyclic haccepts (c.lines_textSource text _) ?_ log
  intro line hline
  obtain ⟨chars, _, rfl⟩ := List.mem_map.1 hline
  exact PatternLine.fits_ofLine c.inputs.length chars

/-- The patterns that a random simulation draws. -/
def patternsDrawn (c : Circuit) (seed : UInt64) (count : Option Nat) : List (List Bool) :=
  Generator.rows c.inputs.length (count.getD (2 * c.inputs.length)) (.ofSeed seed)

theorem WellFormed.simulateRandom_ran (hc : c.WellFormed) (hacyclic : c.Acyclic)
    (haccepts : sink.Accepts take) (log : τ) (seed : UInt64) (count : Option Nat) :
    c.Ran take log (c.patternsDrawn seed count) [] (c.simulateRandom sink log seed count) := by
  have hlines : (c.randomSource seed count).lines c.inputs.length =
      (c.patternsDrawn seed count).map .pattern := rfl
  have hran := Simulation.simulate_ran hc hacyclic haccepts hlines (fun line hline => ?_) log
  · rwa [PatternLine.filterMap_bits?_map_pattern, PatternLine.rejections_map_pattern] at hran
  · obtain ⟨bits, hbits, rfl⟩ := List.mem_map.1 hline
    refine ⟨nofun, fun _ heq => ?_⟩
    obtain rfl := PatternLine.pattern.inj heq
    exact Generator.length_of_mem_rows hbits

/-- On a circuit that a session has built without cycles, a simulation computes what the circuit
    computes, whatever earlier simulations left in it. A text is read to its end: its lines are
    patterns, blank or passed over. What is drawn is simulated in the same way. The values are those
    of the evaluation from the inputs upwards, where a pattern goes to the inputs by ascending
    id. -/
theorem simulation_exact (ops : List Operation) (hacyclic : (empty.after ops).Acyclic)
    (haccepts : sink.Accepts take) (log : τ) :
    let c := empty.after ops
    (∀ text : String,
      c.Ran take log (c.patternsIn text) (c.faultsIn text) (c.simulateText sink log text.toUTF8)) ∧
    (∀ seed count,
      c.Ran take log (c.patternsDrawn seed count) [] (c.simulateRandom sink log seed count) ∧
        (c.patternsDrawn seed count).length = count.getD (2 * c.inputs.length) ∧
        ∀ bits ∈ c.patternsDrawn seed count, bits.length = c.inputs.length) ∧
    (∀ bits id kind, c.kind? id = some kind → c.value (c.presented bits) id =
      kind.eval (c.presented bits id) (c.value (c.presented bits))) ∧
    c.inputs.Pairwise (· < ·) ∧
      ∀ id, id ∈ c.inputs ↔ ∃ inverted, c.kind? id = some (.input inverted) := by
  have hc := wellFormed_after ops
  refine ⟨hc.simulateText_ran hacyclic haccepts log, fun seed count => ⟨?_, ?_, ?_⟩, ?_, ?_, ?_⟩
  · exact hc.simulateRandom_ran hacyclic haccepts log seed count
  · exact Generator.length_rows ..
  · exact fun bits hbits => Generator.length_of_mem_rows hbits
  · exact fun bits id kind hkind => hc.value_eq hacyclic hkind
  · exact hc.inputs_sorted
  · exact fun id => hc.mem_inputs

/-- A gate with three outputs beside it, and a dead gate. One pattern has been simulated. -/
def resampled : List Operation :=
  [.addInput 1, .addInput 2, .addGate 3 ⟨1, false⟩ ⟨2, true⟩, .addGate 4 ⟨1, false⟩ ⟨2, false⟩,
    .addOutput ⟨3, false⟩, .addOutput ⟨0, true⟩, .addOutput ⟨1, true⟩,
    .simulateText Sink.discard () "11\n".toUTF8]

theorem simulation_exact_resampled :
    (empty.after resampled).Acyclic ∧ Sink.buffer.Accepts (fun text log => log ++ text) ∧
      ∃ d, (empty.after resampled).simulateText Sink.buffer "" "00\n 10\n\n1a\n111\n11".toUTF8 =
          (.ok ⟨3, #[(4, .nonBinary "1a" 'a'), (5, .length "111" 3 2)]⟩, d,
            "00 011\n10 110\n11 010\n") ∧
        (empty.after resampled).Sampled [[false, false], [true, false], [true, true]] d ∧
        d.signature? 3 = some #[false, true, false] ∧ d.signature? 4 = some #[] := by
  have haudit : (empty.after resampled).audit = .ok () := by decide +kernel
  have hacyclic := (wellFormed_after resampled).audit_eq_ok_iff.1 haudit
  have haccepts : Sink.buffer.Accepts (fun text log => log ++ text) := fun _ _ => rfl
  refine ⟨hacyclic, haccepts, ?_⟩
  have hpatterns : (empty.after resampled).patternsIn "00\n 10\n\n1a\n111\n11" =
      [[false, false], [true, false], [true, true]] := by decide +kernel
  have hfaults : (empty.after resampled).faultsIn "00\n 10\n\n1a\n111\n11" =
      [(4, .nonBinary "1a" 'a'), (5, .length "111" 3 2)] := by decide +kernel
  have hlog : [[false, false], [true, false], [true, true]].foldl
      (fun log bits => log ++ (empty.after resampled).responseLine bits) "" =
        "00 011\n10 110\n11 010\n" := by decide +kernel
  obtain ⟨d, hsampled, hresult⟩ :=
    (simulation_exact resampled hacyclic haccepts "").1 "00\n 10\n\n1a\n111\n11"
  rw [hpatterns] at hsampled
  rw [hpatterns, hfaults, hlog] at hresult
  have hd : d = ((empty.after resampled).simulateText Sink.buffer ""
      "00\n 10\n\n1a\n111\n11".toUTF8).2.1 := by rw [hresult]
  have hsignatures : [3, 4].map d.signature? = [some #[false, true, false], some #[]] := by
    rw [hd]
    decide +kernel
  obtain ⟨hgate, hrest⟩ := List.cons.inj hsignatures
  exact ⟨d, hresult, hsampled, hgate, List.head_eq_of_cons_eq hrest⟩

end Circuit

end AndInverter
