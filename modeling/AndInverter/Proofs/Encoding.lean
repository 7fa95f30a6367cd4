import AndInverter.Circuit.Encoding
import AndInverter.Proofs.LiveOrder
import AndInverter.Proofs.Sequencing
import AndInverter.Proofs.Value
import AndInverter.Sat.Answer
import Mathlib.Logic.Function.Basic

open AndInverter.Sat

namespace AndInverter

namespace Sat

namespace Lit

@[simp]
theorem var_negateIf (l : Lit) (flip : Bool) : (l.negateIf flip).var = l.var := by
  cases flip
  · rfl
  · exact var_negate l

end Lit

/-- The clauses of a conjunction are about its result and its operands. -/
theorem Cnf.var_of_mem_andClauses {a b z l : Lit} {clause : Clause}
    (hclause : clause ∈ andClauses a b z) (hl : l ∈ clause) :
    l.var = z.var ∨ l.var = a.var ∨ l.var = b.var := by
  simp only [andClauses, List.mem_cons, List.not_mem_nil, or_false] at hclause
  obtain rfl | rfl | rfl := hclause
  · simp only [List.mem_cons, List.not_mem_nil, or_false] at hl
    obtain rfl | rfl | rfl := hl <;> simp
  · simp only [List.mem_cons, List.not_mem_nil, or_false] at hl
    obtain rfl | rfl := hl <;> simp
  · simp only [List.mem_cons, List.not_mem_nil, or_false] at hl
    obtain rfl | rfl := hl <;> simp

namespace Assignment

@[simp]
theorem lit_pos (s : Assignment) (v : Nat) : s.lit (.pos v) = s v := by
  simp [lit, Lit.pos]

theorem lit_negateIf (s : Assignment) (l : Lit) (flip : Bool) :
    s.lit (l.negateIf flip) = (s.lit l ^^ flip) := by
  cases flip
  · simp [Lit.negateIf]
  · simp [Lit.negateIf]

theorem Satisfies.congr {s t : Assignment} {clause : Clause}
    (h : ∀ l ∈ clause, s l.var = t l.var) (hs : s.Satisfies clause) : t.Satisfies clause := by
  obtain ⟨l, hl, htrue⟩ := hs
  exact ⟨l, hl, Engine.lit_congr (h l hl) ▸ htrue⟩

theorem satisfies_andClauses_iff {s : Assignment} {a b z : Lit} :
    (∀ clause ∈ Cnf.andClauses a b z, s.Satisfies clause) ↔ s.lit z = (s.lit a && s.lit b) := by
  simp only [Cnf.andClauses, List.mem_cons, List.not_mem_nil, or_false, Satisfies,
    forall_eq_or_imp, exists_eq_or_imp, lit_negate, Bool.not_eq_eq_eq_not, Bool.not_true,
    ↓existsAndEq, true_and, forall_eq]
  cases s.lit a <;> cases s.lit b <;> cases s.lit z <;> simp

theorem satisfies_xorClauses_iff {s : Assignment} {a b z : Lit} :
    (∀ clause ∈ Cnf.xorClauses a b z, s.Satisfies clause) ↔ s.lit z = (s.lit a ^^ s.lit b) := by
  simp only [Cnf.xorClauses, List.mem_cons, List.not_mem_nil, or_false, Satisfies,
    forall_eq_or_imp, exists_eq_or_imp, ↓existsAndEq, lit_negate, Bool.not_eq_eq_eq_not,
    Bool.not_true, true_and, forall_eq]
  cases s.lit a <;> cases s.lit b <;> cases s.lit z <;> simp

end Assignment

end Sat

namespace Circuit

/-- The variables of the encoded nodes have the values of the nodes. -/
def Matches (c : Circuit) (vars : Std.TreeMap NodeId Nat) (p : Stimulus) (s : Assignment) : Prop :=
  ∀ (id : NodeId) (v : Nat), vars[id]? = some v → s v = c.value p id

/-- The variables of the encoded inputs have the values that the inputs take. -/
def Supplies (c : Circuit) (vars : Std.TreeMap NodeId Nat) (p : Stimulus) (s : Assignment) : Prop :=
  ∀ (id : NodeId) (inverted : Bool) (v : Nat), c.kind? id = some (.input inverted) →
    vars[id]? = some v → s v = (p id ^^ inverted)

/-- The clauses have a model for every stimulus, and no models but the ones that the values of the
    nodes make. Variables beyond `count` are free. -/
structure Describes (c : Circuit) (vars : Std.TreeMap NodeId Nat) (count : Nat)
    (clauses : List Clause) : Prop where
  var_le : ∀ (id : NodeId) (v : Nat), vars[id]? = some v → v ≤ count
  lit_le : ∀ clause ∈ clauses, ∀ l ∈ clause, l.var ≤ count
  sound : ∀ (s : Assignment) (p : Stimulus), (∀ clause ∈ clauses, s.Satisfies clause) →
    c.Supplies vars p s → c.Matches vars p s
  complete : ∀ p : Stimulus, ∃ s : Assignment, (∀ clause ∈ clauses, s.Satisfies clause) ∧
    c.Matches vars p s

variable {c : Circuit} {vars : Std.TreeMap NodeId Nat} {count : Nat} {clauses new : List Clause}

/-- The stimulus under which the encoded inputs take the values of an assignment. -/
def stimulusFor (c : Circuit) (vars : Std.TreeMap NodeId Nat) (s : Assignment) : Stimulus := fun id =>
  match c.kind? id, vars[id]? with
  | some (.input inverted), some v => s v ^^ inverted
  | _, _ => false

theorem supplies_stimulusFor (c : Circuit) (vars : Std.TreeMap NodeId Nat) (s : Assignment) :
    c.Supplies vars (c.stimulusFor vars s) s := by
  intro id inverted v hkind hv
  simp [stimulusFor, hkind, hv]

namespace Describes

theorem empty (c : Circuit) : c.Describes ∅ 0 [] where
  var_le id v h := by simp at h
  lit_le clause h := nomatch h
  sound s p _ _ id v h := by simp at h
  complete p := ⟨fun _ => false, fun clause h => (nomatch h), fun id v h => by simp at h⟩

/-- The next variable may have any value. -/
theorem exists_extension (h : c.Describes vars count clauses) (p : Stimulus) (b : Bool) :
    ∃ s : Assignment, (∀ clause ∈ clauses, s.Satisfies clause) ∧ c.Matches vars p s ∧
      s (count + 1) = b := by
  obtain ⟨s, hs, hmatches⟩ := h.complete p
  have hold : ∀ v, v ≤ count → Function.update s (count + 1) b v = s v :=
    fun v hv => Function.update_of_ne (by omega) b s
  refine ⟨Function.update s (count + 1) b, fun clause hclause => ?_, fun id v hv => ?_,
    Function.update_self ..⟩
  · exact (hs clause hclause).congr fun l hl => (hold l.var (h.lit_le clause hclause l hl)).symm
  · rw [hold v (h.var_le id v hv)]
    exact hmatches id v hv

/-- Clauses that can always be satisfied by the next variable say nothing about the circuit. -/
theorem append (h : c.Describes vars count clauses) (b : Stimulus → Bool)
    (hle : ∀ clause ∈ new, ∀ l ∈ clause, l.var ≤ count + 1)
    (hnew : ∀ (p : Stimulus) (s : Assignment), c.Matches vars p s → s (count + 1) = b p →
      ∀ clause ∈ new, s.Satisfies clause) :
    c.Describes vars (count + 1) (clauses ++ new) where
  var_le id v hv := (h.var_le id v hv).trans (Nat.le_succ count)
  lit_le clause hclause l hl := by
    rcases List.mem_append.1 hclause with hold | hnew
    · exact (h.lit_le clause hold l hl).trans (Nat.le_succ count)
    · exact hle clause hnew l hl
  sound s p hs := h.sound s p fun clause hclause => hs clause (List.mem_append_left new hclause)
  complete p := by
    obtain ⟨s, hs, hmatches, hb⟩ := h.exists_extension p (b p)
    refine ⟨s, fun clause hclause => ?_, hmatches⟩
    rcases List.mem_append.1 hclause with hold | hadded
    · exact hs clause hold
    · exact hnew p s hmatches hb clause hadded

/-- The next variable is that of another node when the new clauses force its value, and nothing
    else. -/
theorem insert (h : c.Describes vars count clauses) {id : NodeId} (hfresh : id ∉ vars)
    (hle : ∀ clause ∈ new, ∀ l ∈ clause, l.var ≤ count + 1)
    (hsound : ∀ (p : Stimulus) (s : Assignment), c.Matches vars p s →
      (∀ clause ∈ new, s.Satisfies clause) →
      (∀ inverted, c.kind? id = some (.input inverted) → s (count + 1) = (p id ^^ inverted)) →
      s (count + 1) = c.value p id)
    (hcomplete : ∀ (p : Stimulus) (s : Assignment), c.Matches vars p s →
      s (count + 1) = c.value p id → ∀ clause ∈ new, s.Satisfies clause) :
    c.Describes (vars.insert id (count + 1)) (count + 1) (clauses ++ new) := by
  have hlookup : ∀ (other : NodeId) (v : Nat), (vars.insert id (count + 1))[other]? = some v ↔
      id = other ∧ v = count + 1 ∨ id ≠ other ∧ vars[other]? = some v := by
    intro other v
    rw [Std.TreeMap.getElem?_insert]
    simp only [Std.compare_eq_iff_eq]
    split <;> simp_all [eq_comm]
  have happend := h.append (fun p => c.value p id) hle hcomplete
  have hmatches : ∀ (p : Stimulus) (s : Assignment), c.Matches vars p s →
      s (count + 1) = c.value p id → c.Matches (vars.insert id (count + 1)) p s := by
    intro p s hs hid other v hv
    rcases (hlookup other v).1 hv with ⟨rfl, rfl⟩ | ⟨_, hv⟩
    · exact hid
    · exact hs other v hv
  refine ⟨?_, happend.lit_le, ?_, ?_⟩
  · intro other v hv
    rcases (hlookup other v).1 hv with ⟨_, rfl⟩ | ⟨_, hv⟩
    · exact Nat.le_refl _
    · exact happend.var_le other v hv
  · intro s p hs hsupplies
    have hold : c.Matches vars p s := by
      apply happend.sound s p hs
      intro other inverted v hkind hv
      refine hsupplies other inverted v hkind ((hlookup other v).2 (.inr ⟨?_, hv⟩))
      rintro rfl
      exact hfresh (Std.TreeMap.mem_iff_isSome_getElem?.2 (by simp [hv]))
    refine hmatches p s hold (hsound p s hold (fun clause hclause =>
      hs clause (List.mem_append_right clauses hclause)) fun inverted hkind => ?_)
    exact hsupplies id inverted _ hkind ((hlookup id _).2 (.inl ⟨rfl, rfl⟩))
  · intro p
    obtain ⟨s, hs, hold, hid⟩ := h.exists_extension p (c.value p id)
    refine ⟨s, fun clause hclause => ?_, hmatches p s hold hid⟩
    rcases List.mem_append.1 hclause with hclause | hclause
    · exact hs clause hclause
    · exact hcomplete p s hold hid clause hclause

end Describes

/-- The clauses of the encoding describe the circuit on the encoded nodes. -/
def DescribedBy (c : Circuit) (enc : Encoding) : Prop :=
  c.Describes enc.vars enc.cnf.varCount enc.cnf.clauses.toList

theorem varCount_foldl_add (clauses : List Clause) (f : Cnf) :
    (clauses.foldl Cnf.add f).varCount = f.varCount := by
  induction clauses generalizing f with
  | nil => rfl
  | cons clause clauses ih => exact ih (f.add clause)

theorem clauses_foldl_add (clauses : List Clause) (f : Cnf) :
    (clauses.foldl Cnf.add f).clauses.toList = f.clauses.toList ++ clauses := by
  induction clauses generalizing f with
  | nil => simp
  | cons clause clauses ih => simp [ih, Cnf.add]

/-- The new variable may be any that the clauses tie to the value of the node, for every stimulus,
    and to nothing else. -/
theorem DescribedBy.extend {enc : Encoding} (h : c.DescribedBy enc) {id : NodeId}
    {made : Lit → List Clause} (hfresh : id ∉ enc.vars)
    (hle : ∀ z : Lit, ∀ clause ∈ made z, ∀ l ∈ clause, l.var ≤ max enc.cnf.varCount z.var)
    (hsound : ∀ (p : Stimulus) (s : Assignment) (z : Lit), c.Matches enc.vars p s →
      (∀ clause ∈ made z, s.Satisfies clause) →
      (∀ inverted, c.kind? id = some (.input inverted) → s.lit z = (p id ^^ inverted)) →
      s.lit z = c.value p id)
    (hcomplete : ∀ (p : Stimulus) (s : Assignment) (z : Lit), c.Matches enc.vars p s →
      s.lit z = c.value p id → ∀ clause ∈ made z, s.Satisfies clause) :
    c.DescribedBy (enc.extend id made) := by
  have hvar : (Lit.pos (enc.cnf.varCount + 1)).var = enc.cnf.varCount + 1 := Lit.var_ofVar _ _
  unfold DescribedBy Encoding.extend Cnf.fresh
  dsimp only
  rw [varCount_foldl_add, clauses_foldl_add, hvar]
  refine Describes.insert h hfresh (fun clause hclause l hl => ?_) (fun p s hs hmade hinput => ?_)
    fun p s hs hvalue => ?_
  · have hbound := hle _ clause hclause l hl
    rwa [hvar, Nat.max_eq_right (Nat.le_succ _)] at hbound
  · have hlit := hsound p s (.pos (enc.cnf.varCount + 1)) hs hmade
    rw [Assignment.lit_pos] at hlit
    exact hlit hinput
  · exact hcomplete p s (.pos (enc.cnf.varCount + 1)) hs (by rw [Assignment.lit_pos, hvalue])

theorem edgeLit_eq {enc : Encoding} {e : Edge} {v : Nat} (hv : enc.vars[e.node]? = some v) :
    enc.edgeLit e = .ok ((Lit.pos v).negateIf e.inverted) := by
  simp [Encoding.edgeLit, Encoding.nodeLit, Encoding.lit?, hv, Bind.bind, Except.bind, pure,
    Except.pure]

theorem Matches.lit_edge {p : Stimulus} {s : Assignment} (h : c.Matches vars p s) {e : Edge}
    {v : Nat} (hv : vars[e.node]? = some v) :
    s.lit ((Lit.pos v).negateIf e.inverted) = e.signal (c.value p) := by
  rw [Assignment.lit_negateIf, Assignment.lit_pos, h e.node v hv, Edge.signal]

theorem mem_extend {enc : Encoding} {id other : NodeId} {made : Lit → List Clause} :
    other ∈ (enc.extend id made).vars ↔ other ∈ enc.vars ∨ other = id := by
  change other ∈ enc.vars.insert id _ ↔ _
  rw [Std.TreeMap.mem_insert, Std.compare_eq_iff_eq, or_comm, eq_comm]

theorem exists_of_mem {id : NodeId} (h : id ∈ vars) : ∃ v : Nat, vars[id]? = some v :=
  Option.isSome_iff_exists.1 (Std.TreeMap.mem_iff_isSome_getElem?.1 h)

namespace DescribedBy

variable {enc : Encoding} {id : NodeId}

/-- A node that is low under every stimulus has its variable denied. -/
theorem extend_low (h : c.DescribedBy enc) (hfresh : id ∉ enc.vars)
    (hlow : ∀ p, c.value p id = false) :
    c.DescribedBy (enc.extend id fun z => [[z.negate]]) := by
  refine h.extend hfresh (by simp) (fun p s z hs hmade _ => ?_) fun p s z hs hz => ?_
  · rw [hlow]
    simpa [Assignment.Satisfies] using hmade
  · simpa [Assignment.Satisfies, hlow] using hz

/-- The variable of a gate is tied to those of its two fanins, by the clauses of a conjunction. -/
theorem extend_gate (h : c.DescribedBy enc) (hfresh : id ∉ enc.vars) {left right : Edge} {u v : Nat}
    (hu : enc.vars[left.node]? = some u) (hv : enc.vars[right.node]? = some v)
    (hvalue : ∀ p, c.value p id = (left.signal (c.value p) && right.signal (c.value p))) :
    c.DescribedBy (enc.extend id (Cnf.andClauses ((Lit.pos u).negateIf left.inverted)
      ((Lit.pos v).negateIf right.inverted))) := by
  have hule := Describes.var_le h left.node u hu
  have hvle := Describes.var_le h right.node v hv
  refine h.extend hfresh (fun z clause hclause l hl => ?_) (fun p s z hs hmade _ => ?_)
    fun p s z hs hz => ?_
  · obtain heq | heq | heq := Cnf.var_of_mem_andClauses hclause hl
    · omega
    · rw [heq, Lit.var_negateIf, Lit.pos, Lit.var_ofVar]
      omega
    · rw [heq, Lit.var_negateIf, Lit.pos, Lit.var_ofVar]
      omega
  · rw [Assignment.satisfies_andClauses_iff, hs.lit_edge hu, hs.lit_edge hv] at hmade
    rw [hmade, hvalue]
  · rw [Assignment.satisfies_andClauses_iff, hs.lit_edge hu, hs.lit_edge hv, hz, hvalue]

/-- A node whose fanins are encoded can be encoded. -/
theorem encodeNode (h : c.DescribedBy enc) (hc : c.WellFormed) (hacyclic : c.Acyclic) {kind : Kind}
    (hkind : c.kind? id = some kind) (hfresh : id ∉ enc.vars)
    (hfanins : ∀ e ∈ kind.fanins, e.node ∈ enc.vars) :
    ∃ enc', enc.encodeNode id kind = .ok enc' ∧ c.DescribedBy enc' ∧
      ∀ other, other ∈ enc'.vars ↔ other ∈ enc.vars ∨ other = id ∧ kind.isOutput = false := by
  have hvalue := fun p => hc.value_eq (p := p) hacyclic hkind
  have hgrown : ∀ made, kind.isOutput = false → ∀ other, other ∈ (enc.extend id made).vars ↔
      other ∈ enc.vars ∨ other = id ∧ kind.isOutput = false :=
    fun _ hnot other => mem_extend.trans (by simp [hnot])
  cases kind with
  | constant => exact ⟨_, rfl, h.extend_low hfresh hvalue, hgrown _ rfl⟩
  | undefined => exact ⟨_, rfl, h.extend_low hfresh hvalue, hgrown _ rfl⟩
  | output fanin => exact ⟨enc, rfl, h, by simp [Kind.isOutput]⟩
  | input inverted =>
    refine ⟨_, rfl, h.extend hfresh (by simp) (fun p s z hs _ hinput => ?_) (by simp), hgrown _ rfl⟩
    rw [hinput inverted hkind, hvalue]
    rfl
  | gate left right =>
    obtain ⟨u, hu⟩ := exists_of_mem (hfanins left List.mem_cons_self)
    obtain ⟨v, hv⟩ := exists_of_mem (hfanins right (List.mem_cons_of_mem left List.mem_cons_self))
    refine ⟨_, ?_, h.extend_gate hfresh hu hv hvalue, hgrown _ rfl⟩
    rw [Encoding.encodeNode, edgeLit_eq hu, edgeLit_eq hv]
    rfl

end DescribedBy

/-- Of a longer list the nodes of the shorter one are encoded, and the new one unless it is an
    output. -/
theorem encoded_cons_iff {id other : NodeId} {kind : Kind} {ids : List NodeId}
    (hkind : c.kind? id = some kind) :
    (other ∈ id :: ids ∧ ∃ found, c.kind? other = some found ∧ found.isOutput = false) ↔
      (other ∈ ids ∧ ∃ found, c.kind? other = some found ∧ found.isOutput = false) ∨
        other = id ∧ kind.isOutput = false := by
  rw [List.mem_cons]
  constructor
  · rintro ⟨rfl | hother, found, hfound, houtput⟩
    · obtain rfl := Option.some.inj (hkind.symm.trans hfound)
      exact .inr ⟨rfl, houtput⟩
    · exact .inl ⟨hother, found, hfound, houtput⟩
  · rintro (⟨hother, hencoded⟩ | ⟨rfl, houtput⟩)
    · exact ⟨.inr hother, hencoded⟩
    · exact ⟨.inl rfl, kind, hkind, houtput⟩

/-- Nodes in a topological order can be encoded one after the other. The latest comes first in
    the list, so that the induction is on the last node encoded. -/
theorem foldlM_encodeNode (hc : c.WellFormed) (hacyclic : c.Acyclic) {ids : List NodeId}
    (htopological : c.Topological ids) (hnodup : ids.Nodup)
    (hpresent : ∀ id ∈ ids, (c.kind? id).isSome = true) :
    ∃ enc, ids.reverse.foldlM (fun enc id => do
        (enc : Encoding).encodeNode id (← c.node id).kind) Encoding.empty = .ok enc ∧
      c.DescribedBy enc ∧
      ∀ id, id ∈ enc.vars ↔ id ∈ ids ∧ ∃ kind, c.kind? id = some kind ∧ kind.isOutput = false := by
  induction ids with
  | nil => exact ⟨Encoding.empty, rfl, Describes.empty c, by simp [Encoding.empty]⟩
  | cons id earlier ih =>
    obtain ⟨hfresh, hnodup⟩ := List.nodup_cons.1 hnodup
    obtain ⟨enc, hfold, hdescribed, hmem⟩ := ih htopological.2 hnodup fun other hother =>
      hpresent other (List.mem_cons_of_mem id hother)
    obtain ⟨kind, hkind⟩ := Option.isSome_iff_exists.1 (hpresent id List.mem_cons_self)
    obtain ⟨n, hn, rfl⟩ := kind?_eq_some_iff.1 hkind
    obtain ⟨enc', hencode, hdescribed', hmem'⟩ := hdescribed.encodeNode hc hacyclic hkind
      (fun hid => hfresh ((hmem id).1 hid).1)
      fun e he => (hmem e.node).2 ⟨htopological.1 e.node ⟨n.kind, hkind, e, he, rfl⟩,
        hc.fanin hkind e he⟩
    refine ⟨enc', ?_, hdescribed', fun other => ?_⟩
    · rw [List.reverse_cons, List.foldlM_append, except_bind_eq_ok_iff]
      refine ⟨enc, hfold, ?_⟩
      rw [List.foldlM_cons, except_bind_eq_ok_iff]
      refine ⟨enc', ?_, rfl⟩
      rw [except_bind_eq_ok_iff]
      exact ⟨n, node_eq_ok_iff.2 hn, hencode⟩
    · rw [hmem', hmem, encoded_cons_iff hkind]

/-- The node is encoded: it is live, and not an output. -/
def Encoded (c : Circuit) (id : NodeId) : Prop :=
  c.Live id ∧ ∃ kind, c.kind? id = some kind ∧ kind.isOutput = false

/-- Without cycles a circuit can be encoded, and its encoding describes it. -/
theorem WellFormed.exists_encode (hc : c.WellFormed) (hacyclic : c.Acyclic) :
    ∃ enc, c.encode = .ok enc ∧ c.DescribedBy enc ∧ ∀ id, id ∈ enc.vars ↔ c.Encoded id := by
  obtain ⟨order, horder, hlive⟩ := hc.exists_liveOrder
  obtain ⟨enc, hfold, hdescribed, hmem⟩ := foldlM_encodeNode hc hacyclic
    (hlive.topological hacyclic) (List.nodup_reverse.2 hlive.nodup) fun id hid =>
      Live.isSome hc (hlive.mem_iff.1 (List.mem_reverse.1 hid))
  refine ⟨enc, ?_, hdescribed, fun id => ?_⟩
  · unfold encode
    rw [except_bind_eq_ok_iff]
    rw [List.reverse_reverse] at hfold
    exact ⟨order, horder, hfold⟩
  · rw [hmem, List.mem_reverse, hlive.mem_iff]
    rfl

end Circuit

end AndInverter
