import AndInverter.Edge

namespace AndInverter

/-- The parts of a circuit description, in the order in which they come. -/
inductive Part where
  | header
  | input
  | output
  | gate
deriving DecidableEq, Repr

namespace Part

/-- The word that messages use for a part. -/
def label : Part → String
  | header => "header"
  | input => "input"
  | output => "output"
  | gate => "and"

end Part

/-- What is wrong with a word of a circuit description, or with its place. -/
inductive TokenFault where
  | endOfText (missing : Part)
  | shortHeader
  | wrongFormat (found : String)
  | notNumeral (found : String)
  | tooFew (part : Part)
  | unexpected (part : Part) (found : String)
  | noOutputId (bound : NodeId) (position : Nat)
  | unnamedSymbol (line : String)
  | emptyName
  | unknownSymbol (tag : String)
  | symbolRange (position : Nat)
deriving DecidableEq, Repr

namespace TokenFault

def message : TokenFault → String
  | endOfText missing => s!"unexpected end of file, expected {missing.label} line"
  | shortHeader => "missing header tokens, expected aag M I L O A"
  | wrongFormat found => s!"expected aag, got {found}"
  | notNumeral found => s!"{found} expected u64"
  | tooFew part => s!"not enough {part.label} tokens"
  | unexpected part found => s!"expected nothing after {part.label}, got {found}"
  | noOutputId bound position => s!"no id left above M={bound} for output {position}"
  | unnamedSymbol line => s!"expected symbol name after {line}"
  | emptyName => "empty symbol name"
  | unknownSymbol tag => s!"expected symbol type i or o, got {tag}"
  | symbolRange position => s!"symbol index {position} out of range"

end TokenFault

/-- Features of the format that a combinational circuit has no use for. -/
inductive Unsupported where
  | longHeader
  | latches (count : UInt64)
deriving DecidableEq, Repr

namespace Unsupported

def message : Unsupported → String
  | longHeader => "header only supports M I L O A"
  | latches count => s!"sequential circuits are not supported (L = {count})"

end Unsupported

/-- Why bytes could not be had from a source. -/
inductive Unreadable where
  | notText
  | noSuchFile
  | refused (reason : String)
deriving DecidableEq, Repr

namespace Unreadable

def message : Unreadable → String
  | notText => "stream did not contain valid UTF-8"
  | noSuchFile => "No such file or directory (os error 2)"
  | refused reason => reason

end Unreadable

/-- Why a circuit description denotes no circuit. Lines are numbered from one. -/
inductive SourceError where
  | unsupported (feature : Unsupported)
  | token (line : Nat) (fault : TokenFault)
  | literalTooBig (line : Nat) (literal : UInt64) (bound : NodeId)
  | invertedGate (line : Nat) (literal : UInt64)
  | constantRedefined (line : Nat) (literal : UInt64)
  | unreadable (cause : Unreadable)
deriving DecidableEq, Repr

namespace SourceError

def message : SourceError → String
  | unsupported feature => s!"unsupported feature: {feature.message}"
  | token line fault => s!"line {line}: invalid token: {fault.message}"
  | literalTooBig line literal bound =>
    s!"line {line}: literal {literal} exceeds maximum valid id {bound}"
  | invertedGate line literal => s!"line {line}: AND gate literal {literal} cannot be inverted"
  | constantRedefined line literal => s!"line {line}: cannot redefine const ({literal})"
  | unreadable cause => s!"io error: {cause.message}"

end SourceError

/-- Ways in which a circuit, or what is asked of it, contradicts itself. -/
inductive Fault where
  | selfMerge (node : NodeId)
  | directCycle (victim survivor : NodeId)
  | notAFanin (consumer target : NodeId)
  | notAFanout (target consumer : NodeId)
  | notRemovable (tag : String) (node : NodeId)
  | stillUsed (node consumer : NodeId)
  | strayFanout (node consumer : NodeId)
  | misplaced (key id : NodeId)
  | secondConstant
  | danglingFanin (consumer target : NodeId)
  | unlistedFanout (consumer target : NodeId)
  | outputWithFanouts (output : NodeId) (consumers : List NodeId)
  | missingFanout (node consumer : NodeId)
  | unusedFanout (node consumer : NodeId)
  | notAnInput (node : NodeId)
  | notAnOutput (node : NodeId)
  | cyclic (node : NodeId)
  | notEncoded (node : NodeId)
deriving DecidableEq, Repr

namespace Fault

/-- A set of ids in braces. -/
def braced (ids : List NodeId) : String :=
  "\x7b" ++ ", ".intercalate (ids.map toString) ++ "\x7d"

def message : Fault → String
  | selfMerge node => s!"cannot relink node {node} to itself"
  | directCycle victim survivor => s!"relinking {victim} to {survivor} would create a cycle"
  | notAFanin consumer target => s!"node {consumer} does not have fanin {target}"
  | notAFanout target consumer =>
    s!"failed to remove fanout {consumer} (not found) from node {target}"
  | notRemovable tag node => s!"refusing to remove {tag} node {node}"
  | stillUsed node consumer => s!"cannot remove node {node} still used by node {consumer}"
  | strayFanout node consumer => s!"node {node} lists {consumer} as fanout but is not its fanin"
  | misplaced key id => s!"incoherent node id: {key} in map vs {id} in node"
  | secondConstant => "invalid false node"
  | danglingFanin consumer target =>
    s!"edge of node {consumer} pointing at node {target} which is not in the AIG anymore"
  | unlistedFanout consumer target =>
    s!"node {consumer} uses {target} as a fanin, but is not one of its fanouts"
  | outputWithFanouts output consumers =>
    s!"output {output} is used as a fanin by {braced consumers}"
  | missingFanout node consumer => s!"fanout {consumer} of node {node} is no longer in the AIG"
  | unusedFanout node consumer =>
    s!"node {node} lists {consumer} as a fanout, but {consumer} does not use it"
  | notAnInput node => s!"input list refers to {node} which is not an input of the AIG"
  | notAnOutput node => s!"output list refers to {node} which is not an output of the AIG"
  | cyclic node => s!"the AIG is cyclic (node {node} reached from itself)"
  | notEncoded node => s!"node {node} has no CNF variable"

end Fault

/-- Why an operation on a circuit failed. -/
inductive Error where
  | duplicateId (id : NodeId)
  | reservedId
  | missingNode (id : NodeId)
  | outputAsFanin (id : NodeId)
  | idsExhausted (last : NodeId)
  | noFanin
  | invalid (fault : Fault)
  | oracle (reason : String)
  | io (cause : Unreadable)
  | source (error : SourceError)
deriving DecidableEq, Repr

namespace Error

def message : Error → String
  | duplicateId id => s!"a different node with id={id} already exists"
  | reservedId => "id=0 is for node False only"
  | missingNode id => s!"node with id={id} does not exist"
  | outputAsFanin id => s!"node {id} is an output and cannot be used as a fanin"
  | idsExhausted last => s!"no id left above {last} for a new output"
  | noFanin => "the node has no such fanin"
  | invalid fault =>
    s!"the AIG has reached an invalid state - this should not happen - error: {fault.message}"
  | oracle reason => s!"sat oracle failure: {reason}"
  | io cause => s!"io error: {cause.message}"
  | source error => error.message

end Error

end AndInverter
