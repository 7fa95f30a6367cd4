import AndInverter.Edge

namespace AndInverter.Aiger

/-- What the reader passes over: of several declarations the first one counts. -/
inductive Warning where
  | redefined (line : Nat) (id : NodeId) (previous : Nat)
  | renamed (line : Nat) (name : String) (id : NodeId) (kept : String)
deriving DecidableEq, Repr

namespace Warning

def message : Warning → String
  | redefined line id previous =>
    s!"line {line}: literal {(Edge.mk id false).literal} redefined " ++
      s!"(previous definition at line {previous}), ignoring"
  | renamed line name id kept =>
    s!"line {line}: symbol {name} of node {id} redefined (keeping {kept})"

end Warning

end AndInverter.Aiger
