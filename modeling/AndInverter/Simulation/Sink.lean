namespace AndInverter

/-- Takes text in pieces. A piece is taken as a whole or refused with a reason. A sink that does not
    listen is not offered any text, and would not change if it were. -/
structure Sink (τ : Type) where
  write : String → EStateM String τ Unit
  listens : Bool
  deaf : listens = false → ∀ text log, write text log = .ok () log

namespace Sink

/-- Takes everything and keeps nothing. -/
def discard : Sink Unit := ⟨fun _ => pure (), false, fun _ _ _ => rfl⟩

/-- Keeps everything. -/
def buffer : Sink String := ⟨fun text => modify (· ++ text), true, nofun⟩

/-- Has room for `capacity` bytes. The state is the number of bytes taken. -/
def bounded (capacity : Nat) : Sink Nat where
  write text used :=
    if used + text.utf8ByteSize ≤ capacity then .ok () (used + text.utf8ByteSize)
    else .error "sink full" used
  listens := true
  deaf := nofun

end Sink

end AndInverter
