import AndInverter.Circuit

namespace AndInverter

/-- A change of a circuit in several steps. A step that fails ends the pass and leaves what the
    steps before it did. -/
abbrev Pass := EStateM Error Circuit

namespace Pass

variable {α : Type}

/-- Asks the circuit. -/
def ask (question : Circuit → Except Error α) : Pass α := fun c =>
  match question c with
  | .ok a => .ok a c
  | .error failure => .error failure c

/-- One step, which either happens as a whole or fails and changes nothing. -/
def step (change : Circuit → Except Error Circuit) : Pass Unit := fun c =>
  match change c with
  | .ok changed => .ok () changed
  | .error failure => .error failure c

end Pass

end AndInverter
