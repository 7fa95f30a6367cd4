import AndInverter.Circuit.Build

namespace AndInverter.Circuit

/-- Moves the edges of one consumer from `victim` to `replacement`, on both sides of each edge. -/
def redirectConsumer (c : Circuit) (victim : NodeId) (replacement : Edge) (consumer : NodeId) :
    Except Error Circuit := do
  unless (← c.node consumer).reads victim do
    throw (.invalid (.notAFanin consumer victim))
  let c := c.update consumer fun n => { n with kind := n.kind.retarget victim replacement }
  unless (← c.node victim).fanouts.contains consumer do
    throw (.invalid (.notAFanout victim consumer))
  let c := c.update victim fun n => { n with fanouts := n.fanouts.erase consumer }
  let _ ← c.node replacement.node
  return c.addFanout consumer replacement.node

/-- Moves every edge on `victim` to `replacement`. Only a consumer of the victim itself is refused
    as the replacement; a longer path from the replacement back to the victim is not looked for.
    The victim stays in the circuit, without consumers. -/
def redirect (c : Circuit) (victim : NodeId) (replacement : Edge) : Except Error Circuit := do
  if victim = replacement.node then throw (.invalid (.selfMerge victim))
  c.checkFanin replacement
  let consumers := (← c.node victim).fanouts
  if consumers.contains replacement.node then
    throw (.invalid (.directCycle victim replacement.node))
  consumers.toList.foldlM (fun c consumer => c.redirectConsumer victim replacement consumer) c

/-- Lets `survivor`, inverted if asked, stand in for `victim` wherever the victim is read. -/
def merge (c : Circuit) (victim survivor : NodeId) (inverted : Bool) : Except Error Circuit :=
  c.redirect victim ⟨survivor, inverted⟩

end AndInverter.Circuit
