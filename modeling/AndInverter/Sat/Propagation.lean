import AndInverter.Sat.Trail

namespace AndInverter.Sat

/-- Two literals of each clause are watched: as long as neither is false, the clause can wait. -/
structure Watches where
  /-- By literal: the numbers of the clauses that watch it. -/
  watchers : Array (List Nat)
  /-- By clause: the two literals, and how many levels the clause joined when it was learnt. A
      given clause has rank zero. -/
  first : Array Lit
  second : Array Lit
  rank : Array Nat

namespace Watches

def empty : Watches := ⟨#[], #[], #[], #[]⟩

/-- Makes room for the variables up to `var`. -/
def grow (w : Watches) (var : Nat) : Watches :=
  { w with watchers := w.watchers ++ .replicate (2 * (var + 1) - w.watchers.size) [] }

/-- Registers the next clause under two of its literals. -/
def watch (w : Watches) (a b : Lit) (rank : Nat) : Watches :=
  let number := w.first.size
  { watchers := (w.watchers.modify a.code (number :: ·)).modify b.code (number :: ·)
    first := w.first.push a
    second := w.second.push b
    rank := w.rank.push rank }

/-- Registers the next clause, which needs no watching. -/
def skip (w : Watches) : Watches :=
  { w with first := w.first.push ⟨0⟩, second := w.second.push ⟨0⟩, rank := w.rank.push 0 }

/-- Stops watching clauses of a rank above four, but for the latest ones. -/
def forget (w : Watches) (latest : Nat) : Watches :=
  let old := w.rank.size - latest
  { w with watchers := w.watchers.map (·.filter fun number =>
      decide (w.rank.getD number 0 ≤ 4) || old < number) }

end Watches

/-- A literal that may be watched beside `other`: one that is not false. -/
def findWatch (t : Trail) (other : Lit) : Clause → Option Lit
  | [] => none
  | l :: rest => if t.fails l || l == other then findWatch t other rest else some l

/-- Goes through the clauses that watch a literal which has become false. The result has the
    clauses that go on watching it, and the one that turned out to be false, if any. -/
def visitWatchers (known : Array Clause) (failed : Lit) :
    List Nat → List Nat → Trail → Watches → List Nat × Trail × Watches × Option Nat
  | [], kept, t, w => (kept, t, w, none)
  | number :: rest, kept, t, w =>
    let a := w.first.getD number ⟨0⟩
    let b := w.second.getD number ⟨0⟩
    let other := if a == failed then b else a
    if t.holds other then visitWatchers known failed rest (number :: kept) t w
    else
      match findWatch t other (known.getD number []) with
      | some l =>
        visitWatchers known failed rest kept t
          { w with
            watchers := w.watchers.modify l.code (number :: ·)
            first := w.first.setIfInBounds number other
            second := w.second.setIfInBounds number l }
      | none =>
        if t.fails other then (number :: rest ++ kept, t, w, some number)
        else visitWatchers known failed rest (number :: kept) (t.push other (number + 1)) w

/-- Follows up the literals on the trail until all have been or a clause is false. Each step takes
    one literal; the budget is the number of variables. -/
def propagate (known : Array Clause) : Nat → Trail → Watches → Trail × Watches × Option Nat
  | 0, t, w => (t, w, none)
  | budget + 1, t, w =>
    match t.order[t.head]? with
    | none => (t, w, none)
    | some l =>
      let failed := l.negate
      let waiting := w.watchers.getD failed.code []
      let w := { w with watchers := w.watchers.setIfInBounds failed.code [] }
      let (kept, t, w, conflict) :=
        visitWatchers known failed waiting [] { t with head := t.head + 1 } w
      let w := { w with watchers := w.watchers.setIfInBounds failed.code kept }
      match conflict with
      | some number => (t, w, some number)
      | none => propagate known budget t w

end AndInverter.Sat
