import AndInverter.Sat.Cnf

namespace AndInverter.Sat

/-- Every assignment that satisfies the clauses satisfies this one as well. -/
def Entails (clauses : List Clause) (clause : Clause) : Prop :=
  ∀ s : Assignment, (∀ d ∈ clauses, s.Satisfies d) → s.Satisfies clause

namespace Clause

/-- The literals of both clauses. When both ascend, so does the union, without repetition. -/
def union : Clause → Clause → Clause
  | [], d => d
  | c, [] => c
  | l :: c, m :: d =>
    if l.code < m.code then l :: union c (m :: d)
    else if m.code < l.code then m :: union (l :: c) d
    else l :: union c d
termination_by c d => c.length + d.length

/-- The clause with ascending literals, each once. -/
def normalize (c : Clause) : Clause := c.foldl (fun found l => union found [l]) []

/-- What follows from two clauses of which one may hold by `l` and the other by its negation. -/
def resolve (l : Lit) (c d : Clause) : Clause :=
  union (c.filter (· != l)) (d.filter (· != l.negate))

theorem mem_union {x : Lit} {c d : Clause} : x ∈ union c d ↔ x ∈ c ∨ x ∈ d := by
  fun_induction union c d with
  | case1 d => simp
  | case2 c => simp
  | case3 l c m d _ ih => simp [ih, or_assoc]
  | case4 l c m d _ _ ih =>
    simp only [List.mem_cons, ih]
    constructor
    · rintro (h | (h | h) | h) <;> simp [h]
    · rintro ((h | h) | (h | h)) <;> simp [h]
  | case5 l c m d hlt hgt ih =>
    have heq : l = m := by
      cases l
      cases m
      simp_all
      omega
    subst heq
    simp only [List.mem_cons, ih]
    constructor
    · rintro (h | h | h) <;> simp [h]
    · rintro ((h | h) | (h | h)) <;> simp [h]

theorem mem_normalize {x : Lit} {c : Clause} : x ∈ normalize c ↔ x ∈ c := by
  have hfold : ∀ (c found : Clause),
      x ∈ c.foldl (fun found l => union found [l]) found ↔ x ∈ found ∨ x ∈ c := by
    intro c
    induction c with
    | nil => simp
    | cons l c ih => simp [ih, mem_union, or_assoc]
  simp [normalize, hfold]

theorem satisfies_normalize {s : Assignment} {c : Clause} (h : s.Satisfies c) :
    s.Satisfies c.normalize := by
  obtain ⟨l, hmem, htrue⟩ := h
  exact ⟨l, mem_normalize.2 hmem, htrue⟩

/-- Whatever the literal, an assignment makes it or its negation false, and the clause that holds
    by another literal remains. -/
theorem satisfies_resolve {s : Assignment} {c d : Clause} (l : Lit) (hc : s.Satisfies c)
    (hd : s.Satisfies d) : s.Satisfies (resolve l c d) := by
  obtain ⟨x, hx, hxtrue⟩ := hc
  obtain ⟨y, hy, hytrue⟩ := hd
  by_cases hxl : x = l
  · have hyl : y ≠ l.negate := by
      rintro rfl
      simp [hxl ▸ hxtrue] at hytrue
    exact ⟨y, mem_union.2 (.inr (by simp [hy, hyl])), hytrue⟩
  · exact ⟨x, mem_union.2 (.inl (by simp [hx, hxl])), hxtrue⟩

end Clause

theorem Entails.resolve {clauses : List Clause} {c d : Clause} (l : Lit) (hc : Entails clauses c)
    (hd : Entails clauses d) : Entails clauses (Clause.resolve l c d) :=
  fun s hs => Clause.satisfies_resolve l (hc s hs) (hd s hs)

/-- Clauses to reason with, all of which follow from the given ones. -/
structure Derivation (given : Array Clause) where
  known : Array Clause
  entailed : ∀ c ∈ known, Entails given.toList c

namespace Derivation

variable {given : Array Clause}

def empty : Derivation #[] := ⟨#[], by simp⟩

/-- One more clause is given. What was derived before still follows. -/
def give (d : Derivation given) (clause : Clause) : Derivation (given.push clause) where
  known := d.known.push clause.normalize
  entailed := by
    intro c hc s hs
    rcases Array.mem_push.1 hc with hold | rfl
    · exact d.entailed c hold s fun g hg => hs g (by simp [Array.mem_toList_iff.1 hg])
    · exact Clause.satisfies_normalize (hs clause (by simp))

/-- Adds a clause that follows. -/
def learn (d : Derivation given) (clause : Clause) (h : Entails given.toList clause) :
    Derivation given where
  known := d.known.push clause
  entailed := by
    intro c hc
    rcases Array.mem_push.1 hc with hold | rfl
    · exact d.entailed c hold
    · exact h

end Derivation

end AndInverter.Sat
