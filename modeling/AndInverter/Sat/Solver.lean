import AndInverter.Sat.Engine
import AndInverter.Sat.Names
import AndInverter.Sat.Oracle

namespace AndInverter.Sat

/-- A decision procedure for clauses over any variables. Its engine works on their numbers. -/
structure Solver where
  given : Array Clause
  names : Names
  engine : Engine
  has_names : ∀ c ∈ given, ∀ l ∈ c, names.Has l.var
  engine_given : engine.given = given.map (Clause.rename names.number)

namespace Solver

def empty : Solver := ⟨#[], .empty, .empty, by simp, by simp [Engine.empty]⟩

/-- Numbers that came before last, so the clauses of the engine stay as they are. -/
theorem map_rename_enterAll {given : Array Clause} {names : Names}
    (h : ∀ c ∈ given, ∀ l ∈ c, names.Has l.var) (c : Clause) :
    given.map (Clause.rename (names.enterAll c).number) =
      given.map (Clause.rename names.number) :=
  Array.map_congr_left fun d hd => rename_congr fun l hl => Names.number_enterAll (h d hd l hl)

def add (solver : Solver) (clause : Clause) : Solver :=
  let names := solver.names.enterAll clause
  { given := solver.given.push clause
    names
    engine := solver.engine.add (clause.rename names.number)
    has_names := by
      intro c hc l hl
      rcases Array.mem_push.1 hc with hold | rfl
      · exact Names.has_enterAll_of_has (solver.has_names c hold l hl)
      · exact Names.has_enterAll hl
    engine_given := by
      simp [solver.engine_given, names, map_rename_enterAll solver.has_names clause] }

/-- Whether the clauses and the assumed literals can be true together. -/
def solve (solver : Solver) (assumed : List Lit) : Bool × Solver :=
  let names := solver.names.enterAll assumed
  let asked := solver.engine.solve (Clause.rename names.number assumed)
  (asked.1,
    { solver with
      names
      engine := asked.2
      has_names := fun c hc l hl => Names.has_enterAll_of_has (solver.has_names c hc l hl)
      engine_given := by
        simp [asked, solver.engine_given, names, map_rename_enterAll solver.has_names assumed] })

/-- The solver as an oracle, which never fails. -/
def oracle : Oracle Solver where
  add clause solver := .ok () (solver.add clause)
  solve assumed solver :=
    let (answer, solver) := solver.solve assumed
    .ok answer solver

@[simp]
theorem given_add (solver : Solver) (clause : Clause) :
    (solver.add clause).given = solver.given.push clause := rfl

/-- A question adds no clause. -/
@[simp]
theorem given_solve (solver : Solver) (assumed : List Lit) :
    (solver.solve assumed).2.given = solver.given := rfl

end Solver

end AndInverter.Sat
