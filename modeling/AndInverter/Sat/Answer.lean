import AndInverter.Sat.Solver

/-!
The engine answers truthfully. An outcome of the search is used only if it is confirmed, and what
confirms it decides the question: an assignment that makes everything true, or a derived clause
that no such assignment could satisfy. Trying all assignments decides it anyway. The solver gives
the engine's answer to a renamed question, and names make no difference.
-/

namespace AndInverter.Sat

namespace Engine

theorem isModel_eq_true_iff {clauses : Array Clause} {assumed : List Lit} {s : Assignment} :
    isModel clauses assumed s = true ↔
      (∀ c ∈ clauses.toList, s.Satisfies c) ∧ ∀ l ∈ assumed, s.lit l = true := by
  simp [isModel, Assignment.Satisfies, ← Array.all_toList]

/-- Some assignment that differs only on the given variables passes. -/
theorem anyModel_eq_true_iff {check : Assignment → Bool} {vars : List Nat} {s : Assignment} :
    anyModel check vars s = true ↔ ∃ t, (∀ v, v ∉ vars → t v = s v) ∧ check t = true := by
  induction vars generalizing s with
  | nil =>
    simp only [anyModel, List.not_mem_nil, not_false_eq_true, forall_const]
    constructor
    · intro h
      exact ⟨s, fun _ => rfl, h⟩
    · rintro ⟨t, hsame, h⟩
      obtain rfl : t = s := funext hsame
      exact h
  | cons var rest ih =>
    simp only [anyModel, Bool.or_eq_true, ih, List.mem_cons, not_or]
    constructor
    · rintro (⟨t, hsame, h⟩ | ⟨t, hsame, h⟩) <;>
      · refine ⟨t, fun v hv => ?_, h⟩
        rw [hsame v hv.2, if_neg hv.1]
    · rintro ⟨t, hsame, h⟩
      cases hvar : t var with
      | false =>
        refine .inl ⟨t, fun v hv => ?_, h⟩
        split
        · next heq => rw [heq, hvar]
        · next hne => exact hsame v ⟨hne, hv⟩
      | true =>
        refine .inr ⟨t, fun v hv => ?_, h⟩
        split
        · next heq => rw [heq, hvar]
        · next hne => exact hsame v ⟨hne, hv⟩

theorem lit_congr {s t : Assignment} {l : Lit} (h : s l.var = t l.var) : s.lit l = t.lit l := by
  simp [Assignment.lit, h]

/-- Trying all values of the variables that occur finds an assignment if there is one. -/
theorem anyModel_isModel_eq_true_iff {clauses : Array Clause} {assumed : List Lit} :
    anyModel (isModel clauses assumed) (vars clauses assumed) (fun _ => false) = true ↔
      Satisfiable clauses.toList assumed := by
  rw [anyModel_eq_true_iff]
  constructor
  · rintro ⟨t, _, h⟩
    exact ⟨t, isModel_eq_true_iff.1 h⟩
  · rintro ⟨s, hclauses, hassumed⟩
    let t : Assignment := fun v => if v ∈ vars clauses assumed then s v else false
    have hsame : ∀ v ∈ vars clauses assumed, t v = s v := fun v hv => if_pos hv
    refine ⟨t, fun v hv => if_neg hv, isModel_eq_true_iff.2 ⟨fun c hc => ?_, fun l hl => ?_⟩⟩
    · obtain ⟨l, hl, htrue⟩ := hclauses c hc
      have hvar : l.var ∈ vars clauses assumed := by
        simp only [vars, List.mem_eraseDups, List.mem_append, List.mem_flatMap, List.mem_map]
        exact .inl ⟨c, hc, l, hl, rfl⟩
      exact ⟨l, hl, (lit_congr (hsame l.var hvar)).trans htrue⟩
    · have hvar : l.var ∈ vars clauses assumed := by
        simp only [vars, List.mem_eraseDups, List.mem_append, List.mem_map]
        exact .inr ⟨l, hl, rfl⟩
      exact (lit_congr (hsame l.var hvar)).trans (hassumed l hl)

/-- A clause that follows from the given ones and names only negations of assumed literals cannot
    be satisfied together with these. -/
theorem not_satisfiable_of_entails {clauses : List Clause} {assumed : List Lit} {c : Clause}
    (h : Entails clauses c) (hblamed : ∀ l ∈ c, l.negate ∈ assumed) :
    ¬ Satisfiable clauses assumed := by
  rintro ⟨s, hclauses, hassumed⟩
  obtain ⟨l, hl, htrue⟩ := h s hclauses
  have hfalse := hassumed l.negate (hblamed l hl)
  simp [htrue] at hfalse

theorem not_satisfiable_of_negate {clauses : List Clause} {assumed : List Lit} {l : Lit}
    (h : l ∈ assumed) (hneg : l.negate ∈ assumed) : ¬ Satisfiable clauses assumed := by
  rintro ⟨s, _, hassumed⟩
  have hfalse := hassumed l.negate hneg
  simp [hassumed l h] at hfalse

/-- What the search came to is trusted only if a model or a derived clause confirms it. Else all
    assignments are tried. -/
theorem answer_eq_true_iff {engine : Engine} {assumed : List Lit} {trail : Trail}
    {outcome : Outcome} : engine.answer assumed trail outcome = true ↔
      Satisfiable engine.given.toList assumed := by
  unfold answer
  split
  · next h =>
    cases outcome with
    | model => simpa using ⟨_, isModel_eq_true_iff.1 h⟩
    | refuted number =>
      simp only [confirms] at h
      split at h
      · simp at h
      · next c hc =>
        have hentails := engine.derivation.entailed c (Array.mem_of_getElem? hc)
        simpa using not_satisfiable_of_entails hentails (by simpa using h)
    | undecided => simp [confirms] at h
  · exact anyModel_isModel_eq_true_iff

/-- The answer is right whatever was asked before. -/
theorem solve_eq_true_iff {engine : Engine} {assumed : List Lit} :
    (engine.solve assumed).1 = true ↔ Satisfiable engine.given.toList assumed := by
  unfold solve
  split
  · next h =>
    obtain ⟨l, hl, hneg⟩ := List.any_eq_true.1 h
    simpa using not_satisfiable_of_negate hl (by simpa using hneg)
  · simp [answer_eq_true_iff]

end Engine

/-- The answer is right whatever the variables are called. -/
theorem Solver.solve_eq_true_iff {solver : Solver} {assumed : List Lit} :
    (solver.solve assumed).1 = true ↔ Satisfiable solver.given.toList assumed := by
  have hnames : ∀ c ∈ solver.given.toList, ∀ l ∈ c, (solver.names.enterAll assumed).Has l.var :=
    fun c hc l hl => Names.has_enterAll_of_has (solver.has_names c (by simpa using hc) l hl)
  rw [← satisfiable_rename_iff (fun v w hv hw => Names.eq_of_number_eq hv hw) hnames
    fun l hl => Names.has_enterAll hl]
  simp only [solve, Engine.solve_eq_true_iff, solver.engine_given]
  rw [← map_rename_enterAll solver.has_names assumed, Array.toList_map]

end AndInverter.Sat
