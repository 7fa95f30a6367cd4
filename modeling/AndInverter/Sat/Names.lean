import AndInverter.Sat.Cnf
import Std.Data.TreeMap

namespace AndInverter.Sat

namespace Lit

/-- The literal of the same sign over another variable. -/
def rename (f : Nat → Nat) (l : Lit) : Lit := ofVar (f l.var) l.negated

end Lit

namespace Clause

def rename (f : Nat → Nat) (c : Clause) : Clause := c.map (Lit.rename f)

end Clause

/-- Numbers for variables, from one on in the order in which the variables came. Different
    variables have different numbers. -/
structure Names where
  numbers : Std.TreeMap Nat Nat
  count : Nat
  le_count : ∀ v i : Nat, numbers[v]? = some i → i ≤ count
  distinct : ∀ v w i : Nat, numbers[v]? = some i → numbers[w]? = some i → v = w

namespace Names

def empty : Names := ⟨∅, 0, by simp, by simp⟩

/-- The variable has a number. -/
def Has (names : Names) (v : Nat) : Prop := ∃ i, names.numbers[v]? = some i

/-- The number of a variable. One without a number gets zero, which no other variable has. -/
def number (names : Names) (v : Nat) : Nat := names.numbers.getD v 0

/-- Gives a variable the next number, unless it has one. -/
def enter (names : Names) (v : Nat) : Names :=
  match hnew : names.numbers[v]? with
  | some _ => names
  | none =>
    { numbers := names.numbers.insert v (names.count + 1)
      count := names.count + 1
      le_count := by
        intro w i hw
        rw [Std.TreeMap.getElem?_insert] at hw
        split at hw
        · simp_all
        · exact Nat.le_succ_of_le (names.le_count w i hw)
      distinct := by
        intro w x i hw hx
        have hle := names.le_count
        have hdistinct := names.distinct w x i
        simp only [Std.TreeMap.getElem?_insert, Std.compare_eq_iff_eq] at hw hx
        split at hw <;> split at hx
        · simp_all
        · have hbound := hle x i hx
          simp only [Option.some.injEq] at hw
          omega
        · have hbound := hle w i hw
          simp only [Option.some.injEq] at hx
          omega
        · exact hdistinct hw hx }

/-- Gives numbers to the variables of a clause. -/
def enterAll (names : Names) (c : Clause) : Names := c.foldl (fun names l => names.enter l.var) names

theorem number_of_getElem? {names : Names} {v i : Nat} (h : names.numbers[v]? = some i) :
    names.number v = i := by
  simp [number, Std.TreeMap.getD_eq_getD_getElem?, h]

theorem eq_of_number_eq {names : Names} {v w : Nat} (hv : names.Has v) (hw : names.Has w)
    (h : names.number v = names.number w) : v = w := by
  obtain ⟨i, hi⟩ := hv
  obtain ⟨j, hj⟩ := hw
  rw [number_of_getElem? hi, number_of_getElem? hj] at h
  subst h
  exact names.distinct v w i hi hj

/-- Numbers last. -/
theorem getElem?_enter {names : Names} {v w i : Nat} (h : names.numbers[v]? = some i) :
    (names.enter w).numbers[v]? = some i := by
  unfold enter
  split
  · exact h
  · next hnew =>
    have hne : w ≠ v := by
      rintro rfl
      simp [h] at hnew
    simp [Std.TreeMap.getElem?_insert, hne, h]

theorem has_enter (names : Names) (v : Nat) : (names.enter v).Has v := by
  unfold enter
  split
  · next i h => exact ⟨i, h⟩
  · exact ⟨names.count + 1, by simp⟩

theorem getElem?_enterAll {names : Names} {c : Clause} {v i : Nat}
    (h : names.numbers[v]? = some i) : (names.enterAll c).numbers[v]? = some i := by
  induction c generalizing names with
  | nil => exact h
  | cons l c ih => exact ih (getElem?_enter h)

theorem has_enterAll_of_has {names : Names} {c : Clause} {v : Nat} (h : names.Has v) :
    (names.enterAll c).Has v :=
  let ⟨i, hi⟩ := h
  ⟨i, getElem?_enterAll hi⟩

theorem has_enterAll {names : Names} {c : Clause} {l : Lit} (h : l ∈ c) :
    (names.enterAll c).Has l.var := by
  induction c generalizing names with
  | nil => cases h
  | cons m c ih =>
    rcases List.mem_cons.1 h with rfl | h
    · have hlast : ((names.enter l.var).enterAll c).Has l.var :=
        has_enterAll_of_has (has_enter names l.var)
      exact hlast
    · exact ih h

theorem number_enterAll {names : Names} {c : Clause} {v : Nat} (h : names.Has v) :
    (names.enterAll c).number v = names.number v := by
  obtain ⟨i, hi⟩ := h
  rw [number_of_getElem? hi, number_of_getElem? (getElem?_enterAll hi)]

end Names

theorem lit_rename (s : Assignment) (f : Nat → Nat) (l : Lit) :
    s.lit (l.rename f) = Assignment.lit (fun v => s (f v)) l := by
  simp [Assignment.lit, Lit.rename]

theorem rename_congr {f g : Nat → Nat} {c : Clause} (h : ∀ l ∈ c, f l.var = g l.var) :
    Clause.rename f c = Clause.rename g c := by
  refine List.map_congr_left fun l hl => ?_
  rw [Lit.rename, Lit.rename, h l hl]

/-- Different names for the variables make no difference, as long as they are told apart. -/
theorem satisfiable_rename_iff {f : Nat → Nat} {p : Nat → Prop} {clauses : List Clause}
    {assumed : List Lit} (hf : ∀ v w, p v → p w → f v = f w → v = w)
    (hclauses : ∀ c ∈ clauses, ∀ l ∈ c, p l.var) (hassumed : ∀ l ∈ assumed, p l.var) :
    Satisfiable (clauses.map (Clause.rename f)) (Clause.rename f assumed) ↔
      Satisfiable clauses assumed := by
  constructor
  · rintro ⟨s, hs, ha⟩
    refine ⟨fun v => s (f v), fun c hc => ?_, fun l hl => ?_⟩
    · obtain ⟨m, hm, htrue⟩ := hs _ (List.mem_map_of_mem hc)
      obtain ⟨l, hl, rfl⟩ := List.mem_map.1 hm
      exact ⟨l, hl, by rw [← lit_rename, htrue]⟩
    · rw [← lit_rename]
      exact ha _ (List.mem_map_of_mem hl)
  · rintro ⟨s, hs, ha⟩
    classical
    let t : Assignment := fun i => decide (∃ v, p v ∧ f v = i ∧ s v = true)
    have hsame : ∀ l : Lit, p l.var → t.lit (l.rename f) = s.lit l := by
      intro l hl
      have hvar : t (f l.var) = s l.var := by
        cases hvalue : s l.var with
        | true => exact decide_eq_true ⟨l.var, hl, rfl, hvalue⟩
        | false =>
          refine decide_eq_false ?_
          rintro ⟨v, hv, heq, htrue⟩
          simp [hf v l.var hv hl heq, hvalue] at htrue
      rw [lit_rename]
      simp [Assignment.lit, hvar]
    refine ⟨t, fun d hd => ?_, fun l hl => ?_⟩
    · obtain ⟨c, hc, rfl⟩ := List.mem_map.1 hd
      obtain ⟨l, hl, htrue⟩ := hs c hc
      exact ⟨l.rename f, List.mem_map_of_mem hl, by rw [hsame l (hclauses c hc l hl), htrue]⟩
    · obtain ⟨m, hm, rfl⟩ := List.mem_map.1 hl
      rw [hsame m (hassumed m hm)]
      exact ha m hm

end AndInverter.Sat
