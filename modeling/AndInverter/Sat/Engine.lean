import AndInverter.Sat.Search

namespace AndInverter.Sat

/-- The clauses given so far, what was learnt from them, and where the search stands. It keeps
    tables by variable, so variables should be numbered without large gaps. -/
structure Engine where
  given : Array Clause
  derivation : Derivation given
  search : Search

namespace Engine

def empty : Engine := ⟨#[], .empty, .empty⟩

def add (engine : Engine) (clause : Clause) : Engine :=
  let number := engine.derivation.known.size
  { given := engine.given.push clause
    derivation := engine.derivation.give clause
    search := engine.search.attach number clause.normalize }

/-- The assignment makes all clauses and all assumed literals true. -/
def isModel (clauses : Array Clause) (assumed : List Lit) (s : Assignment) : Bool :=
  clauses.all (fun clause => clause.any fun l => s.lit l) && assumed.all fun l => s.lit l

/-- Tries all values of the given variables. -/
def anyModel (check : Assignment → Bool) : List Nat → Assignment → Bool
  | [], s => check s
  | var :: rest, s =>
    anyModel check rest (fun v => if v = var then false else s v) ||
      anyModel check rest (fun v => if v = var then true else s v)

/-- Searches for an assignment that makes the assumed literals true as well, or for a clause that
    rules it out. -/
def searchFor (engine : Engine) (assumed : List Lit) : Outcome × Trail × Engine :=
  let s := assumed.foldl (fun s l => s.enter l.var) engine.search
  match s.broken with
  | some number =>
    let place := engine.derivation.known.size
    let derivation := engine.derivation.blame s.trail number
    (.refuted place, s.trail, ⟨engine.given, derivation, { s with watches := s.watches.skip }⟩)
  | none =>
    let s := { s with patience := 50, interval := 50 }
    let (outcome, d, s) := s.run assumed.toArray (1 <<< 40) engine.derivation
    (outcome, s.trail, ⟨engine.given, d, s.backTo 0⟩)

/-- The variables of the clauses and the assumed literals. -/
def vars (clauses : Array Clause) (assumed : List Lit) : List Nat :=
  (clauses.toList.flatMap (·.map Lit.var) ++ assumed.map Lit.var).eraseDups

/-- The outcome is what it is meant to be. -/
def confirms (engine : Engine) (assumed : List Lit) (trail : Trail) : Outcome → Bool
  | .model => isModel engine.given assumed fun var => trail.holds (.pos var)
  | .refuted number =>
    match engine.derivation.known[number]? with
    | none => false
    | some c => c.all fun l => assumed.contains l.negate
  | .undecided => false

/-- What an outcome tells. One that is not confirmed is put aside, and all assignments are tried. -/
def answer (engine : Engine) (assumed : List Lit) (trail : Trail) (outcome : Outcome) : Bool :=
  if engine.confirms assumed trail outcome then outcome matches .model
  else anyModel (isModel engine.given assumed) (vars engine.given assumed) fun _ => false

/-- Whether the clauses and the assumed literals can be true together. -/
def solve (engine : Engine) (assumed : List Lit) : Bool × Engine :=
  if assumed.any fun l => assumed.contains l.negate then (false, engine)
  else
    let (outcome, trail, engine) := engine.searchFor assumed
    (engine.answer assumed trail outcome, engine)

@[simp]
theorem given_searchFor (engine : Engine) (assumed : List Lit) :
    (engine.searchFor assumed).2.2.given = engine.given := by
  unfold searchFor
  simp only
  split <;> rfl

@[simp]
theorem given_add (engine : Engine) (clause : Clause) :
    (engine.add clause).given = engine.given.push clause := rfl

/-- A question adds no clause. -/
@[simp]
theorem given_solve (engine : Engine) (assumed : List Lit) :
    (engine.solve assumed).2.given = engine.given := by
  unfold solve
  split <;> simp

end Engine

end AndInverter.Sat
