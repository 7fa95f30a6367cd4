import AndInverter.Circuit.Merge
import AndInverter.Circuit.Pass

/-! Additions and merges as they are carried out in place, one record after the other. Every step
takes effect at once, so an edit that fails halfway leaves what its steps have done. -/

namespace AndInverter.Edit

/-- Changes one node, which has to be there and to pass a check. -/
def change (id : NodeId) (check : Node → Except Error Unit) (f : Node → Node) : Pass Unit :=
  Pass.step fun c => do
    check (← c.node id)
    return c.update id f

/-- Lists `consumer` among the fanouts of `target`. -/
def listConsumer (consumer target : NodeId) : Pass Unit :=
  change target (fun _ => return) fun n => { n with fanouts := n.fanouts.insert consumer }

/-- Takes `consumer` off the fanouts of `target`. -/
def delistConsumer (consumer target : NodeId) : Pass Unit :=
  change target
    (fun n => unless n.fanouts.contains consumer do throw (.invalid (.notAFanout n.id consumer)))
    fun n => { n with fanouts := n.fanouts.erase consumer }

/-- Moves the edges of `consumer`, and leaves the fanouts as they are. -/
def moveEdges (victim : NodeId) (replacement : Edge) (consumer : NodeId) : Pass Unit :=
  change consumer (fun n => unless n.reads victim do throw (.invalid (.notAFanin n.id victim)))
    fun n => { n with kind := n.kind.retarget victim replacement }

/-- Enters a node, and then lists it among the fanouts of one fanin after the other. -/
def attach (n : Node) : Pass NodeId := do
  Pass.step (·.declare n)
  n.fanins.forM fun e => listConsumer n.id e.node
  return n.id

def addInput (id : NodeId) : Pass NodeId := attach (.fresh id (.input false) 0)

def addGate (id : NodeId) (left right : Edge) : Pass NodeId := do
  Pass.ask (·.checkFanin left)
  Pass.ask (·.checkFanin right)
  Pass.ask (·.checkId id)
  attach (.fresh id (.gate left right) 0)

/-- Adds an output, and tells its id. -/
def addOutput (driver : Edge) : Pass NodeId := do
  Pass.ask (·.checkFanin driver)
  let id ← Pass.ask (·.outputId)
  attach (.fresh id (.output driver) 0)

/-- Moves the edges of one consumer and then corrects both fanouts. -/
def redirectConsumer (victim : NodeId) (replacement : Edge) (consumer : NodeId) : Pass Unit := do
  moveEdges victim replacement consumer
  delistConsumer consumer victim
  listConsumer consumer replacement.node

/-- Moves every edge on `victim` to `replacement`, one consumer after the other. -/
def redirect (victim : NodeId) (replacement : Edge) : Pass Unit := do
  if victim = replacement.node then throw (.invalid (.selfMerge victim))
  Pass.ask (·.checkFanin replacement)
  let consumers := (← Pass.ask (·.node victim)).fanouts
  if consumers.contains replacement.node then
    throw (.invalid (.directCycle victim replacement.node))
  consumers.toList.forM (redirectConsumer victim replacement)

/-- Lets `survivor`, inverted if asked, stand in for `victim` wherever the victim is read. -/
def merge (victim survivor : NodeId) (inverted : Bool) : Pass Unit :=
  redirect victim ⟨survivor, inverted⟩

end AndInverter.Edit
