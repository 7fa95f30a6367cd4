import AndInverter.Sat.Resolution
import AndInverter.Sat.Trail

namespace AndInverter.Sat

/-- What a false clause has on the present level and on level zero. -/
structure Fronts where
  /-- More than one literal is of the present level. -/
  several : Bool
  latest : Option Lit
  ground : Option Lit

def Fronts.ofClause (t : Trail) (c : Clause) : Fronts :=
  c.foldl (fun fronts l =>
    let level := t.levelOf l
    if level = 0 then { fronts with ground := some l }
    else if level < t.limits.size then fronts
    else ⟨fronts.latest.isSome, t.later fronts.latest l, fronts.ground⟩) ⟨false, none, none⟩

/-- The literal is false because others of the clause are: with the clause that forced it, it can
    be resolved away without a new literal taking its place. -/
def isRedundant (known : Array Clause) (t : Trail) (c : Clause) (l : Lit) : Bool :=
  match (t.reasonOf l).bind (known[·]?) with
  | none => false
  | some d => d.all fun m => m == l.negate || c.contains m || t.levelOf m == 0

/-- The literal to be resolved away next in search of a clause that names a single literal of the
    present level: the latest one as long as there are several, then those that are redundant, and
    then what level zero makes false. -/
def nextToExplain (known : Array Clause) (t : Trail) (c : Clause) : Option Lit :=
  let fronts := Fronts.ofClause t c
  if fronts.several then fronts.latest
  else (c.find? (isRedundant known t c)).or fronts.ground

/-- The latest of the literals of a clause that were forced to be false. -/
def nextToBlame (t : Trail) (c : Clause) : Option Lit :=
  t.latest (c.filter fun l => t.fails l && (t.reasonOf l).isSome)

/-- Replaces literals of a clause by what forced them to be false, as long as `next` names one. -/
def resolveWhile (known : Array Clause) (t : Trail) (next : Clause → Option Lit) :
    Nat → Clause → Clause
  | 0, c => c
  | budget + 1, c =>
    match next c with
    | none => c
    | some l =>
      match (t.reasonOf l).bind (known[·]?) with
      | none => c
      | some d => resolveWhile known t next budget (c.resolve l d)

/-- The clauses that a trail refers to follow from the given ones, and so does what is resolved
    from them. -/
theorem Derivation.entails_resolveWhile {given : Array Clause} (d : Derivation given) (t : Trail)
    (next : Clause → Option Lit) (budget : Nat) {c : Clause} (hc : Entails given.toList c) :
    Entails given.toList (resolveWhile d.known t next budget c) := by
  induction budget generalizing c with
  | zero => exact hc
  | succ budget ih =>
    unfold resolveWhile
    split
    · exact hc
    · split
      · exact hc
      · rename_i l _ _ e he
        obtain ⟨n, _, hn⟩ := Option.bind_eq_some_iff.1 he
        exact ih (hc.resolve l (d.entailed e (Array.mem_of_getElem? hn)))

namespace Derivation

variable {given : Array Clause}

/-- Learns from the known clause with this number by resolution, and tells what. -/
def resolve (d : Derivation given) (t : Trail) (next : Clause → Option Lit) (number : Nat) :
    Clause × Derivation given :=
  match h : d.known[number]? with
  | none => ([], d)
  | some c =>
    let c' := resolveWhile d.known t next (2 * t.order.size + 1) c
    (c', d.learn c' (d.entails_resolveWhile t next _ (d.entailed c (Array.mem_of_getElem? h))))

/-- From a false clause, one that names a single literal of the present level. -/
def explain (d : Derivation given) (t : Trail) (number : Nat) : Clause × Derivation given :=
  d.resolve t (nextToExplain d.known t) number

/-- From a clause whose literals are false but perhaps for one, one that names only decisions
    besides. -/
def blame (d : Derivation given) (t : Trail) (number : Nat) : Derivation given :=
  (d.resolve t (nextToBlame t) number).2

end Derivation

end AndInverter.Sat
