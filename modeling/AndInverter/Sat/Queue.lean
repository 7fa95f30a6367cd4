import AndInverter.Sat.Trail

namespace AndInverter.Sat

/-- The variables in the order in which they were last of interest, the latest at the end. Zero
    stands for no variable. -/
structure Queue where
  /-- By variable: its neighbours, and when it was put at the end. -/
  before : Array Nat
  after : Array Nat
  stamp : Array Nat
  last : Nat
  time : Nat
  /-- All variables behind this one have values. -/
  cursor : Nat

namespace Queue

def empty : Queue := ⟨#[], #[], #[], 0, 0, 0⟩

/-- Makes room for the variables up to `var`. -/
def grow (q : Queue) (var : Nat) : Queue :=
  let missing := .replicate (var + 1 - q.stamp.size) 0
  { q with before := q.before ++ missing, after := q.after ++ missing, stamp := q.stamp ++ missing }

/-- Puts a variable that is not in the queue at its end. -/
def append (q : Queue) (var : Nat) : Queue :=
  { q with
    before := q.before.setIfInBounds var q.last
    after := (q.after.setIfInBounds q.last var).setIfInBounds var 0
    stamp := q.stamp.setIfInBounds var (q.time + 1)
    last := var
    time := q.time + 1 }

/-- Puts a variable at the end unless the queue has it. -/
def insert (q : Queue) (var : Nat) : Queue :=
  if q.stamp.getD var 0 = 0 then { q.append var with cursor := var } else q

/-- Moves a variable to the end. -/
def bump (q : Queue) (var : Nat) : Queue :=
  if var = q.last || q.stamp.getD var 0 = 0 then q
  else
    let b := q.before.getD var 0
    let a := q.after.getD var 0
    { q with before := q.before.setIfInBounds a b, after := q.after.setIfInBounds b a }.append var

/-- Moves the variables of a clause to the end. They stay in order. -/
def bumpAll (q : Queue) (c : Clause) : Queue :=
  let stampOf (l : Lit) : Nat := q.stamp.getD l.var 0
  (c.mergeSort fun l m => stampOf l ≤ stampOf m).foldl (fun q l => q.bump l.var) q

/-- A variable has lost its value. -/
def release (q : Queue) (var : Nat) : Queue :=
  if q.stamp.getD q.cursor 0 < q.stamp.getD var 0 then { q with cursor := var } else q

/-- Moves the cursor to the last variable without a value. -/
def settle (t : Trail) : Nat → Queue → Queue
  | 0, q => q
  | budget + 1, q =>
    if q.cursor = 0 then q
    else if t.holds (.pos q.cursor) || t.fails (.pos q.cursor) then
      settle t budget { q with cursor := q.before.getD q.cursor 0 }
    else q

end Queue

end AndInverter.Sat
