import AndInverter.Sat.Conflict
import AndInverter.Sat.Propagation
import AndInverter.Sat.Queue

namespace AndInverter.Sat

/-- A search for an assignment. It is kept from one question to the next. -/
structure Search where
  trail : Trail
  watches : Watches
  queue : Queue
  /-- By variable: the sign of its literal that was true last, one for the negation. -/
  sign : Array Nat
  /-- How many literals of level zero have a clause of their own. -/
  settled : Nat
  /-- A clause that is false on level zero. -/
  broken : Option Nat
  /-- The conflicts until the search starts over, and how many there were the last time. -/
  patience : Nat
  interval : Nat
  /-- The learnt clauses that are watched, and with how many the search forgets some. -/
  learnt : Nat
  capacity : Nat

/-- How a search ended: with values for all variables, or with a derived clause, given by its
    number, that names only negations of assumed literals. Only a check on the outcome makes it an
    answer. -/
inductive Outcome where
  | model
  | refuted (number : Nat)
  | undecided

namespace Search

def empty : Search where
  trail := .empty
  watches := .empty
  queue := .empty
  sign := #[]
  settled := 0
  broken := none
  patience := 50
  interval := 50
  learnt := 0
  capacity := 2000

/-- Makes room for a variable, which has to be given a value from now on. -/
def enter (s : Search) (var : Nat) : Search :=
  if var < s.sign.size then { s with queue := s.queue.insert var }
  else
    { s with
      trail := s.trail.grow var
      watches := s.watches.grow var
      queue := (s.queue.grow var).insert var
      sign := s.sign ++ .replicate (var + 1 - s.sign.size) 1 }

/-- Registers a given clause on level zero. -/
def attach (s : Search) (number : Nat) (c : Clause) : Search :=
  let s := c.foldl (fun s l => s.enter l.var) s
  match c.filter (!s.trail.fails ·) with
  | [] => { s with watches := s.watches.skip, broken := s.broken.or (some number) }
  | [l] =>
    let s := { s with watches := s.watches.skip }
    if s.trail.holds l then s else { s with trail := s.trail.push l (number + 1) }
  | l :: m :: _ => { s with watches := s.watches.watch l m 0 }

/-- Goes back to a level, whose own literals stay. -/
def backTo (s : Search) (level : Nat) : Search :=
  match s.trail.limits[level]? with
  | none => s
  | some size =>
    let order : Array Lit := s.trail.order
    let sign := order.foldl (fun sign l => sign.setIfInBounds l.var (l.code % 2)) s.sign size
    let queue := order.foldl (fun queue l => queue.release l.var) s.queue size
    let trail := s.trail.shrink size
    { s with sign, queue, trail := { trail with limits := trail.limits.take level } }

/-- Takes a learnt clause into account: goes back as far as it has a single literal without a
    false value, and makes that literal true. -/
def learn (s : Search) (number : Nat) (c : Clause) : Search :=
  match s.trail.backjump? c with
  | none => { s with watches := s.watches.skip }
  | some jump =>
    let s := { s with queue := s.queue.bumpAll c, patience := s.patience - 1 }.backTo jump.level
    let s := { s with trail := s.trail.push jump.asserted (number + 1) }
    match jump.second with
    | none => { s with watches := s.watches.skip }
    | some second =>
      { s with
        watches := s.watches.watch jump.asserted second jump.rank
        learnt := s.learnt + 1 }

/-- Stops watching some of the learnt clauses when there are too many. -/
def tidy (s : Search) : Search :=
  if s.learnt < s.capacity then s
  else
    let latest := s.capacity / 2
    { s with
      watches := s.watches.forget latest
      learnt := latest
      capacity := s.capacity + 100 }

/-- Starts over, above the levels that the assumed literals have opened. -/
def restart (s : Search) (assumed : Nat) : Search :=
  let interval := s.interval + s.interval / 2
  { s.backTo assumed with patience := interval, interval }

/-- Opens a level by making a literal true, if it is not. -/
def decideOn (s : Search) (l : Lit) : Search :=
  let trail := s.trail.openLevel
  { s with trail := if trail.holds l then trail else trail.push l 0 }

/-- A literal of level zero gets a clause of its own as the reason, numbered `number`. -/
def ground (s : Search) (l : Lit) (number : Nat) : Search :=
  { s with
    watches := s.watches.skip
    trail := { s.trail with reason := s.trail.reason.setIfInBounds l.var (number + 1) }
    settled := s.settled + 1 }

/-- The next literal of level zero that has to get a clause of its own. -/
def unsettled (s : Search) : Option Lit :=
  if s.trail.limits.isEmpty then s.trail.order[s.settled]? else none

variable {given : Array Clause}

/-- The clause with this number does not hold on the present level. If that is a level of the
    assumed literals, some of these cannot be true together. -/
def onConflict (assumed : Array Lit) (d : Derivation given) (s : Search) (number : Nat) :
    Option Outcome × Derivation given × Search :=
  let place := d.known.size
  if s.trail.limits.size ≤ assumed.size then
    let broken := if s.trail.limits.isEmpty then some number else none
    (some (.refuted place), d.blame s.trail number, { s with watches := s.watches.skip, broken })
  else
    let (c, d) := d.explain s.trail number
    (none, d, s.tidy.learn place c)

/-- Derives the clause of its own for a literal of level zero. -/
def settle (d : Derivation given) (s : Search) (l : Lit) : Derivation given × Search :=
  match s.trail.reasonOf l with
  | none => (d, { s with settled := s.settled + 1 })
  | some number =>
    let place := d.known.size
    (d.blame s.trail number, s.ground l place)

/-- Opens the level of an assumed literal. When the literal is false, others are to blame. -/
def assume (d : Derivation given) (s : Search) (l : Lit) :
    Option Outcome × Derivation given × Search :=
  if s.trail.fails l then
    match s.trail.reasonOf l with
    | none => (some .undecided, d, s)
    | some number =>
      let place := d.known.size
      (some (.refuted place), d.blame s.trail number, { s with watches := s.watches.skip })
  else (none, d, s.decideOn l)

/-- Gives the last variable in the queue that has no value the sign it had before. -/
def decideNext (s : Search) : Option Outcome × Search :=
  let queue := s.queue.settle s.trail s.sign.size
  let s := { s with queue }
  if s.queue.cursor = 0 then (some .model, s)
  else (none, s.decideOn (.ofVar s.queue.cursor (s.sign.getD s.queue.cursor 1 == 1)))

/-- Draws all conclusions and makes one move. The levels up to the number of assumed literals are
    opened by these. -/
def step (assumed : Array Lit) (d : Derivation given) (s : Search) :
    Option Outcome × Derivation given × Search :=
  let (trail, watches, conflict) := propagate d.known s.sign.size s.trail s.watches
  let s := { s with trail, watches }
  match conflict, s.unsettled, assumed[s.trail.limits.size]? with
  | some number, _, _ => s.onConflict assumed d number
  | none, some l, _ => (none, settle d s l)
  | none, none, some l => s.assume d l
  | none, none, none =>
    if s.patience = 0 then (none, d, s.restart assumed.size)
    else
      let (outcome, s) := s.decideNext
      (outcome, d, s)

/-- Moves until all variables have values or the assumed literals are refuted. -/
def run (assumed : Array Lit) :
    Nat → Derivation given → Search → Outcome × Derivation given × Search
  | 0, d, s => (.undecided, d, s)
  | budget + 1, d, s =>
    match s.step assumed d with
    | (some outcome, d, s) => (outcome, d, s)
    | (none, d, s) => run assumed budget d s

end Search

end AndInverter.Sat
