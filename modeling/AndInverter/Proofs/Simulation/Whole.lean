import AndInverter.Proofs.Sequencing
import AndInverter.Proofs.WellFormed
import AndInverter.Simulation

/-! A pattern on a circuit as a whole. The steps of a simulation look up every node that they use,
and fail where one is missing. Here a missing node reads as low, so that nothing can fail. In a
well-formed circuit no node is missing, and the two are the same. -/

namespace AndInverter

namespace Circuit

/-- The value at the consumer's end of an edge. A missing node reads as low. -/
def signal (c : Circuit) (e : Edge) : Bool := (c.node? e.node).any (·.value) ^^ e.inverted

/-- The value of a node by the values of its fanins. An input has none of its own. -/
def valueOf? (c : Circuit) : Kind → Option Bool
  | .input _ => none
  | .constant | .undefined => some false
  | .output fanin => some (c.signal fanin)
  | .gate left right => some (c.signal left && c.signal right)

/-- Puts one bit of a pattern on an input. -/
def applyBit (c : Circuit) (id : NodeId) (bit : Bool) : Circuit :=
  c.update id fun n => n.record (bit ^^ n.kind == .input true)

/-- Puts bits on inputs, one after the other. -/
def applyBits (c : Circuit) (bits : List (NodeId × Bool)) : Circuit :=
  bits.foldl (fun c (id, bit) => c.applyBit id bit) c

/-- Computes the value of one node. -/
def settle (c : Circuit) (id : NodeId) : Circuit :=
  match (c.node? id).bind (c.valueOf? ·.kind) with
  | some value => c.update id (·.record value)
  | none => c

/-- Puts a pattern on the inputs, by ascending id, and settles the nodes of `order`. -/
def applyPattern (c : Circuit) (order : List NodeId) (pattern : List Bool) : Circuit :=
  order.foldl settle (c.applyBits (c.inputs.zip pattern))

/-- The values of the outputs, in order. -/
def outputValues (c : Circuit) : List Bool := c.outputs.map fun id => c.signal ⟨id, false⟩

theorem sameShape_record (c : Circuit) (id : NodeId) (value : Node → Bool) :
    c.SameShape (c.update id fun n => n.record (value n)) :=
  sameShape_update c id (fun _ => rfl) (fun _ => rfl) fun _ => rfl

theorem sameShape_settle (c : Circuit) (id : NodeId) : c.SameShape (c.settle id) := by
  unfold settle
  split
  · next value _ => exact sameShape_record c id fun _ => value
  · exact .refl c

variable {c d : Circuit} {id : NodeId} {order : List NodeId}

theorem readEdge_eq {e : Edge} (he : (c.kind? e.node).isSome = true) :
    c.readEdge e = .ok (c.signal e) := by
  rw [isSome_kind?, Option.isSome_iff_exists] at he
  obtain ⟨n, hn⟩ := he
  rw [readEdge, node_eq_ok_iff.2 hn, signal, hn]
  rfl

/-- That the right fanin of a gate is not looked at behind a low left one makes no difference. -/
theorem evaluate?_eq {kind : Kind} (h : ∀ e ∈ kind.fanins, (c.kind? e.node).isSome = true) :
    c.evaluate? kind = .ok (c.valueOf? kind) := by
  cases kind with
  | output fanin =>
    rw [evaluate?, readEdge_eq (h fanin List.mem_cons_self)]
    rfl
  | gate left right =>
    have hleft := readEdge_eq (h left List.mem_cons_self)
    have hright := readEdge_eq (h right (List.mem_cons_of_mem left List.mem_cons_self))
    rw [evaluate?, valueOf?, hleft, hright]
    cases c.signal left <;> rfl
  | _ => rfl

theorem WellFormed.readOutputs_eq (hc : c.WellFormed) : c.readOutputs = .ok c.outputValues := by
  refine mapM_eq_ok_map fun id hid => ?_
  obtain ⟨n, hn⟩ := Option.isSome_iff_exists.1 (isSome_kind? c id ▸ hc.isSome_of_mem_outputs hid)
  rw [node_eq_ok_iff.2 hn, signal, hn, Bool.xor_false]
  rfl

end Circuit

namespace Simulation

open Circuit

variable {c : Circuit} {id : NodeId} {order : List NodeId}

theorem setInput_eq (hid : (c.kind? id).isSome = true) (bit : Bool) :
    setInput id bit c = .ok () (c.applyBit id bit) := by
  rw [isSome_kind?, Option.isSome_iff_exists] at hid
  obtain ⟨n, hn⟩ := hid
  rw [setInput, Pass.step, node_eq_ok_iff.2 hn]
  rfl

theorem settleNode_eq (hc : c.WellFormed) (hid : (c.kind? id).isSome = true) :
    settleNode id c = .ok () (c.settle id) := by
  rw [isSome_kind?, Option.isSome_iff_exists] at hid
  obtain ⟨n, hn⟩ := hid
  have hvalue := evaluate?_eq (hc.present_fanins hn)
  rw [settleNode, Pass.step, node_eq_ok_iff.2 hn, settle, hn, Option.bind_some]
  simp only [Bind.bind, Except.bind, hvalue]
  cases c.valueOf? n.kind <;> rfl

/-- No step of a pattern fails in a well-formed circuit, and together they do what the pattern does
    as a whole. -/
theorem present_eq (hc : c.WellFormed) (horder : ∀ id ∈ order, (c.kind? id).isSome = true)
    (pattern : List Bool) : present order pattern c = .ok () (c.applyPattern order pattern) := by
  have hinputs : ((c.inputs.zip pattern).forM fun (id, bit) => setInput id bit) c =
      .ok () (c.applyBits (c.inputs.zip pattern)) ∧
        c.SameShape (c.applyBits (c.inputs.zip pattern)) := by
    refine estateM_forM_eq (SameShape.refl c) fun bit hbit d hd => ⟨setInput_eq ?_ bit.2, ?_⟩
    · rw [hd.kind?]
      exact hc.isSome_of_mem_inputs (List.of_mem_zip hbit).1
    · exact hd.trans (sameShape_record d bit.1 _)
  have hsettled : order.forM settleNode (c.applyBits (c.inputs.zip pattern)) =
      .ok () (c.applyPattern order pattern) ∧ c.SameShape (c.applyPattern order pattern) := by
    refine estateM_forM_eq hinputs.2 fun id hid d hd =>
      ⟨settleNode_eq (hd.wellFormed hc) ?_, hd.trans (sameShape_settle d id)⟩
    rw [hd.kind?]
    exact horder id hid
  have hget : (get : Pass Circuit) c = .ok c c := rfl
  rw [present, estateM_bind_of_ok hget, estateM_bind_of_ok hinputs.1, hsettled.1]

/-- The line of the log can be made in a well-formed circuit. -/
theorem logLine_eq (hc : c.WellFormed) (pattern : List Bool) :
    logLine pattern c = .ok s!"{bitsText pattern} {bitsText c.outputValues}\n" := by
  rw [logLine, hc.readOutputs_eq]
  rfl

end Simulation

end AndInverter
