namespace AndInverter.Sat

/-- A propositional variable or its negation, as one number: twice the variable, plus one for the
    negation. Variables are numbered from one. -/
structure Lit where
  code : Nat
deriving DecidableEq, Inhabited

namespace Lit

def ofVar (var : Nat) (negated : Bool) : Lit := ⟨2 * var + negated.toNat⟩

def pos (var : Nat) : Lit := ofVar var false

def neg (var : Nat) : Lit := ofVar var true

def var (l : Lit) : Nat := l.code / 2

def negated (l : Lit) : Bool := l.code % 2 == 1

def negate (l : Lit) : Lit := ⟨if l.code % 2 = 0 then l.code + 1 else l.code - 1⟩

/-- The negation of the literal when `flip` is set. -/
def negateIf (l : Lit) (flip : Bool) : Lit := if flip then l.negate else l

/-- The literal that a signed number stands for: the variable, negative for its negation. Zero
    stands for none. -/
def ofInt? (n : Int) : Option Lit := if n = 0 then none else some (ofVar n.natAbs (n < 0))

def toInt (l : Lit) : Int := if l.negated then -l.var else l.var

@[simp]
theorem var_ofVar (var : Nat) (negated : Bool) : (ofVar var negated).var = var := by
  simp only [ofVar, Lit.var]
  cases negated <;> simp
  omega

@[simp]
theorem negated_ofVar (var : Nat) (negated : Bool) : (ofVar var negated).negated = negated := by
  cases negated <;> simp [ofVar, Lit.negated]

@[simp]
theorem var_negate (l : Lit) : l.negate.var = l.var := by
  simp only [negate, var]
  split <;> omega

@[simp]
theorem negated_negate (l : Lit) : l.negate.negated = !l.negated := by
  simp only [negate, negated]
  rcases Nat.mod_two_eq_zero_or_one l.code with h | h
  · have hnext : (l.code + 1) % 2 = 1 := by omega
    simp [h, hnext]
  · have hback : (l.code - 1) % 2 = 0 := by omega
    simp [h, hback]

end Lit

/-- A disjunction of literals. -/
abbrev Clause := List Lit

/-- A conjunction of clauses over the variables from one to `varCount`. -/
structure Cnf where
  varCount : Nat
  clauses : Array Clause

namespace Cnf

def empty : Cnf := ⟨0, #[]⟩

/-- Sets the next variable aside. -/
def fresh (f : Cnf) : Lit × Cnf := (.pos (f.varCount + 1), { f with varCount := f.varCount + 1 })

def add (f : Cnf) (clause : Clause) : Cnf := { f with clauses := f.clauses.push clause }

/-- The clauses that hold when `z` is the conjunction of `a` and `b`, and only then. -/
def andClauses (a b z : Lit) : List Clause :=
  [[a.negate, b.negate, z], [a, z.negate], [b, z.negate]]

/-- The clauses that hold when `z` tells whether `a` and `b` differ, and only then. -/
def xorClauses (a b z : Lit) : List Clause :=
  [[a, b, z.negate], [a, b.negate, z], [a.negate, b, z], [a.negate, b.negate, z.negate]]

def addAnd (f : Cnf) (a b z : Lit) : Cnf := (andClauses a b z).foldl add f

def addXor (f : Cnf) (a b z : Lit) : Cnf := (xorClauses a b z).foldl add f

end Cnf

/-- A truth value for every variable. -/
abbrev Assignment := Nat → Bool

namespace Assignment

def lit (s : Assignment) (l : Lit) : Bool := s l.var ^^ l.negated

def Satisfies (s : Assignment) (clause : Clause) : Prop := ∃ l ∈ clause, s.lit l = true

@[simp]
theorem lit_negate (s : Assignment) (l : Lit) : s.lit l.negate = !s.lit l := by
  simp [lit]

end Assignment

/-- Some assignment makes all clauses and all assumed literals true. -/
def Satisfiable (clauses : List Clause) (assumed : List Lit) : Prop :=
  ∃ s : Assignment, (∀ clause ∈ clauses, s.Satisfies clause) ∧ ∀ l ∈ assumed, s.lit l = true

end AndInverter.Sat
