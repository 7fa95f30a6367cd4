import AndInverter.Sat.Cnf

namespace AndInverter.Sat

/-- An incremental decision procedure with a state of its own. It may fail with a reason, and its
    answers need not be right. Clauses stay, assumptions last for one question. -/
structure Oracle (σ : Type) where
  add : Clause → EStateM String σ Unit
  /-- Whether the clauses so far can all be true together with the assumed literals. -/
  solve : List Lit → EStateM String σ Bool

end AndInverter.Sat
