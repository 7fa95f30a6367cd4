import AndInverter.Sat.Cnf

namespace AndInverter.Sat

/-- The literals made true so far, in order, with what is known about each. A level is opened by
    every decision; level zero holds what follows from the clauses alone. -/
structure Trail where
  /-- By literal: nothing known, true or false, as 0, 1 and 2. -/
  value : Array Nat
  /-- By variable: the level on which it got its value, its place in the order, and the number of
      the clause that forced it, counted from one. A decision has no such clause. -/
  level : Array Nat
  place : Array Nat
  reason : Array Nat
  order : Array Lit
  /-- How many literals there were when each level was opened. -/
  limits : Array Nat
  /-- How many literals have been followed up. -/
  head : Nat

namespace Trail

def empty : Trail := ⟨#[], #[], #[], #[], #[], #[], 0⟩

/-- Makes room for the variables up to `var`. -/
def grow (t : Trail) (var : Nat) : Trail :=
  let missing := var + 1 - t.level.size
  { t with
    value := t.value ++ .replicate (2 * missing) 0
    level := t.level ++ .replicate missing 0
    place := t.place ++ .replicate missing 0
    reason := t.reason ++ .replicate missing 0 }

def holds (t : Trail) (l : Lit) : Bool := t.value.getD l.code 0 == 1

def fails (t : Trail) (l : Lit) : Bool := t.value.getD l.code 0 == 2

def levelOf (t : Trail) (l : Lit) : Nat := t.level.getD l.var 0

def placeOf (t : Trail) (l : Lit) : Nat := t.place.getD l.var 0

/-- How many levels the literals of a clause are on. -/
def levelCount (t : Trail) (c : Clause) : Nat := (c.map t.levelOf).eraseDups.length

/-- The number of the clause that forced the variable of a literal, if one did. -/
def reasonOf (t : Trail) (l : Lit) : Option Nat :=
  match t.reason.getD l.var 0 with
  | 0 => none
  | number + 1 => some number

/-- Makes a literal true. `reason` is one more than the number of the clause that forces it, or
    zero for a decision. -/
def push (t : Trail) (l : Lit) (reason : Nat) : Trail :=
  { t with
    value := (t.value.setIfInBounds l.code 1).setIfInBounds l.negate.code 2
    level := t.level.setIfInBounds l.var t.limits.size
    place := t.place.setIfInBounds l.var t.order.size
    reason := t.reason.setIfInBounds l.var reason
    order := t.order.push l }

def openLevel (t : Trail) : Trail := { t with limits := t.limits.push t.order.size }

/-- Takes back the literals behind the first `size`. -/
def shrink (t : Trail) (size : Nat) : Trail :=
  { t with
    value := t.order.foldl (fun value l =>
      (value.setIfInBounds l.code 0).setIfInBounds l.negate.code 0) t.value size
    order := t.order.shrink size
    head := size }

/-- The later of two literals of a trail, where the first may be missing. -/
def later (t : Trail) (best : Option Lit) (l : Lit) : Option Lit :=
  match best with
  | none => some l
  | some m => if t.placeOf m < t.placeOf l then some l else some m

/-- The literal of a clause that got its value last. -/
def latest (t : Trail) (c : Clause) : Option Lit := c.foldl t.later none

end Trail

/-- What a false clause asks for: the level to go back to, on which only the literal that got its
    value last is without a value, and the one before it, if there is one. -/
structure Backjump where
  level : Nat
  asserted : Lit
  second : Option Lit
  /-- The number of levels that the clause joins. -/
  rank : Nat

namespace Trail

def backjump? (t : Trail) (c : Clause) : Option Backjump := do
  let asserted ← t.latest c
  let second := t.latest (c.erase asserted)
  return ⟨second.elim 0 t.levelOf, asserted, second, t.levelCount c⟩

end Trail

end AndInverter.Sat
