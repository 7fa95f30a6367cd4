import AndInverter.Circuit.Pass
import AndInverter.Circuit.Walk

namespace AndInverter.Circuit

/-- The live gates by signature, each group with producers first. -/
def liveClasses (c : Circuit) : Except Error Classes := do
  (← c.liveOrder).foldlM (fun classes id => do
    let n ← c.node id
    return if n.kind.isGate then classes.insert n.signature id else classes) .empty

/-- Groups the live gates anew by the signatures they have now. -/
def classify (c : Circuit) : Except Error Circuit := do
  return { c with classes := ← c.liveClasses }

/-- The gates that agree with a gate on every pattern, and those that are its opposite on every
    pattern. A node that its own group does not list has no peers. -/
def peers? (c : Circuit) (id : NodeId) : Option (List NodeId × List NodeId) := do
  let n ← c.node? id
  let same := c.classes.group n.signature
  if same.contains id then
    some (same.filter (· != id), c.classes.opposites n.signature)
  else none

end AndInverter.Circuit
