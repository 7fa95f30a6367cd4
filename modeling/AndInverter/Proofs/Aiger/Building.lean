import AndInverter.Proofs.Aiger.Described
import AndInverter.Proofs.Building
import Mathlib.Algebra.Group.Nat.Defs

namespace AndInverter.Aiger

open Circuit (ComposedOf Completes)
open Edit (CannotDrive Grown)

/-- What a line declares and one call adds. -/
inductive Declaration where
  | input (id : NodeId)
  | gate (line : GateLine)
deriving DecidableEq

namespace Declaration

variable {c : Circuit} {entries : List (NodeId × Kind)} {known : List NodeId}

def id : Declaration → NodeId
  | input id => id
  | gate line => line.id

def kind : Declaration → Kind
  | input _ => .input false
  | gate line => .gate line.left line.right

theorem isOutput_kind (declaration : Declaration) : declaration.kind.isOutput = false := by
  cases declaration <;> rfl

def entry (declaration : Declaration) : NodeId × Kind := (declaration.id, declaration.kind)

def call : Declaration → Operation
  | input id => .addInput id
  | gate line => .addGate line.id line.left line.right

/-- The call succeeds if its id is new and what it reads is there. -/
theorem perform_call (declaration : Declaration)
    (hfanins : ∀ e ∈ declaration.kind.fanins, ¬ CannotDrive c e.node) (hzero : declaration.id ≠ 0)
    (hfresh : c.kind? declaration.id = none) :
    ∃ d, declaration.call.perform c = (.ok (), d) ∧
      Grown c declaration.id declaration.kind d := by
  have hid : ¬ (declaration.id = 0 ∨ (c.kind? declaration.id).isSome = true) := by
    simp [hzero, hfresh]
  cases declaration with
  | input id =>
    obtain ⟨d, hadd⟩ := (Edit.attach_succeeds_iff c id (.input false)).2 hid
    refine ⟨d, ?_, Edit.grown_of_attach hadd nofun⟩
    rw [call, Operation.perform, Circuit.addInput, hadd]
    rfl
  | gate line =>
    have hleft := hfanins line.left List.mem_cons_self
    have hright := hfanins line.right (List.mem_cons_of_mem _ List.mem_cons_self)
    obtain ⟨d, hadd⟩ := Edit.addGate_succeeds_iff.2 ⟨hleft, hright, hid⟩
    obtain ⟨hattach, hsources⟩ := Circuit.of_addGate hadd
    have hperform : call (.gate line) = .addGate line.id line.left line.right := rfl
    refine ⟨d, ?_, Edit.grown_of_attach hattach fun e he => ?_⟩
    · rw [hperform, Operation.perform]
      exact congrArg (Operation.attempt · c) hadd
    · obtain ⟨source, hsource, _⟩ := hsources e he
      rw [hsource]
      rfl

/-- Each declaration reads only what is known when its turn comes. -/
def Ready : List NodeId → List Declaration → Prop
  | _, [] => True
  | known, declaration :: rest =>
    (∀ e ∈ declaration.kind.fanins, e.node ∈ known) ∧ Ready (declaration.id :: known) rest

theorem Ready.append {first second : List Declaration} (hfirst : Ready known first)
    (hsecond : Ready ((first.map id).reverse ++ known) second) : Ready known (first ++ second) := by
  induction first generalizing known with
  | nil => exact hsecond
  | cons declaration first ih =>
    refine ⟨hfirst.1, ih hfirst.2 ?_⟩
    rwa [List.map_cons, List.reverse_cons, List.append_assoc] at hsecond

theorem ready_inputs (ids known : List NodeId) : Ready known (ids.map .input) := by
  induction ids generalizing known with
  | nil => trivial
  | cons id ids ih => exact ⟨nofun, ih _⟩

/-- Gates are ready by ascending rank, if the rank ascends along every edge between them. -/
theorem ready_gates {rank : NodeId → Nat} {gates : List GateLine}
    (hsorted : gates.Pairwise fun a b => rank a.id ≤ rank b.id)
    (hfanins : ∀ gate ∈ gates, ∀ e ∈ (Kind.gate gate.left gate.right).fanins,
      e.node ∈ known ∨ ∃ other ∈ gates, other.id = e.node ∧ rank other.id < rank gate.id) :
    Ready known (gates.map .gate) := by
  induction gates generalizing known with
  | nil => trivial
  | cons gate gates ih =>
    obtain ⟨hleast, hrest⟩ := List.pairwise_cons.1 hsorted
    refine ⟨fun e he => ?_, ih hrest fun later hlater e he => ?_⟩
    · refine (hfanins gate List.mem_cons_self e he).resolve_right ?_
      rintro ⟨other, hother, _, hlt⟩
      rcases List.mem_cons.1 hother with rfl | hother
      · exact Nat.lt_irrefl _ hlt
      · exact Nat.not_le_of_lt hlt (hleast other hother)
    · rcases hfanins later (List.mem_cons_of_mem _ hlater) e he with hknown | hgate
      · exact .inl (List.mem_cons_of_mem _ hknown)
      · obtain ⟨other, hother, hid, hlt⟩ := hgate
        rcases List.mem_cons.1 hother with rfl | hother
        · exact .inl (hid ▸ List.mem_cons_self)
        · exact .inr ⟨other, hother, hid, hlt⟩

/-- Declarations that come when they are ready are all added. -/
theorem Ready.completes {build : List Declaration} (hready : Ready known build)
    (hc : c.ComposedOf entries) (hknown : ∀ id ∈ known, ¬ CannotDrive c id)
    (hnodup : (build.map id).Nodup)
    (hnew : ∀ declaration ∈ build, declaration.id ≠ 0 ∧ c.kind? declaration.id = none) :
    ∃ d, c.Completes (build.map call) d ∧ d.ComposedOf (entries ++ build.map entry) := by
  induction build generalizing c entries known with
  | nil => exact ⟨c, rfl, by simpa using hc⟩
  | cons declaration build ih =>
    obtain ⟨hreads, hready⟩ := hready
    obtain ⟨⟨hzero, hfresh⟩, hnew⟩ := List.forall_mem_cons.1 hnew
    rw [List.map_cons, List.nodup_cons] at hnodup
    obtain ⟨d, hstep, hgrown⟩ := declaration.perform_call (fun e he => hknown _ (hreads e he))
      hzero hfresh
    have hwell : d.WellFormed := by
      have hperformed := hc.wellFormed.perform declaration.call
      rwa [hstep] at hperformed
    have hd := hc.grown hgrown hfresh hwell
    have hmade : ¬ CannotDrive d declaration.id := by
      rw [Edit.not_cannotDrive_iff]
      exact ⟨declaration.kind, by rw [hgrown.kind?, if_pos rfl], declaration.isOutput_kind⟩
    obtain ⟨f, hrun, hf⟩ := ih hready hd
      (List.forall_mem_cons.2 ⟨hmade, fun id hid =>
        Circuit.not_cannotDrive_of_grown hgrown hfresh (hknown id hid)⟩) hnodup.2 fun other hother => by
        have hne : other.id ≠ declaration.id := fun heq =>
          hnodup.1 (heq ▸ List.mem_map_of_mem hother)
        rw [hgrown.kind?, if_neg hne]
        exact hnew other hother
    refine ⟨f, ⟨d, hstep, hrun⟩, ?_⟩
    rwa [List.map_cons, List.append_cons]

theorem isOutput_eq_false {build : List Declaration} {id : NodeId} {kind : Kind}
    (hc : c.ComposedOf (build.map entry)) (hkind : c.kind? id = some kind) :
    kind.isOutput = false := by
  rcases hc.kind?_iff.1 hkind with ⟨_, rfl⟩ | hmem
  · rfl
  · obtain ⟨declaration, _, heq⟩ := List.mem_map.1 hmem
    cases heq
    exact declaration.isOutput_kind

/-- The declared nodes and the constant can be read. -/
theorem exists_source_iff {build : List Declaration} {id : NodeId}
    (hc : c.ComposedOf (build.map entry)) :
    (∃ kind, c.kind? id = some kind ∧ kind.isOutput = false) ↔
      id = 0 ∨ id ∈ build.map Declaration.id := by
  constructor
  · rintro ⟨kind, hkind, _⟩
    refine (hc.kind?_iff.1 hkind).imp And.left fun hmem => ?_
    obtain ⟨declaration, hdeclaration, heq⟩ := List.mem_map.1 hmem
    cases heq
    exact List.mem_map_of_mem hdeclaration
  · intro hid
    have hkind : ∃ kind, c.kind? id = some kind := by
      rcases hid with rfl | hmem
      · exact ⟨.constant, hc.kind?_iff.2 (.inl ⟨rfl, rfl⟩)⟩
      · obtain ⟨declaration, hdeclaration, rfl⟩ := List.mem_map.1 hmem
        exact ⟨declaration.kind, hc.kind?_iff.2 (.inr (List.mem_map_of_mem hdeclaration))⟩
    exact hkind.imp fun kind hkind => ⟨hkind, isOutput_eq_false hc hkind⟩

end Declaration

namespace Description

open Declaration (Ready)

variable {c : Circuit} {d : Description} {id : NodeId} {kind : Kind} {build : List Declaration}

/-- The declarations in the order of their lines. -/
def declarations (d : Description) : List Declaration :=
  d.inputIds.map .input ++ d.gates.map .gate

/-- The nodes that the lines declare, outputs included. -/
def entries (d : Description) : List (NodeId × Kind) :=
  d.declarations.map (·.entry) ++
    (d.outputs.zipIdx (d.bound.toNat + 1)).map fun entry => (UInt64.ofNat entry.2, .output entry.1)

/-- The calls that add the declarations in the given order, and then the outputs in that of their
    lines. -/
def calls (d : Description) (build : List Declaration) : List Operation :=
  build.map (·.call) ++ d.outputs.map .addOutput

/-- The edges that gates and outputs read. -/
def reads (d : Description) : List Edge :=
  d.outputs ++ d.gates.flatMap fun gate => [gate.left, gate.right]

/-- The description is complete and says nothing twice. -/
structure Proper (d : Description) : Prop where
  positive : ∀ e ∈ d.inputs, e.inverted = false
  unambiguous : d.Unambiguous
  declared : ∀ e ∈ d.reads, e.node = 0 ∨ e.node ∈ d.declarations.map (·.id)
  nonzero : 0 ∉ d.declarations.map (·.id)
  bound : d.bound = (d.declarations.map (·.id)).foldl max 0
  literal : ∀ id ∈ d.declarations.map (·.id), id.toNat < 2 ^ 63
  room : d.bound.toNat + d.outputs.length < 2 ^ 64
  symbols : ∀ symbol ∈ d.symbols, Text.IsName symbol.name ∧
    symbol.position < (if symbol.isInput then d.inputs else d.outputs).length
  acyclic : d.Acyclic

/-- All that is declared, each declaration behind those that it reads. -/
def InOrder (d : Description) (build : List Declaration) : Prop :=
  d.declarations.Perm build ∧ Ready [0] build

theorem mem_reads_of_gate {gate : GateLine} (hgate : gate ∈ d.gates) {e : Edge}
    (he : e ∈ [gate.left, gate.right]) : e ∈ d.reads :=
  List.mem_append_right _ (List.mem_flatMap.2 ⟨gate, hgate, he⟩)

theorem ids_declarations (d : Description) :
    d.declarations.map (·.id) = d.inputIds ++ d.gates.map (·.id) := by
  rw [declarations, List.map_append, List.map_map, List.map_map]
  simp [Function.comp_def, Declaration.id]

namespace Proper

theorem le_bound (hd : d.Proper) (hid : id = 0 ∨ id ∈ d.declarations.map (·.id)) :
    id ≤ d.bound := by
  rcases hid with rfl | hid
  · exact UInt64.zero_le
  · rw [hd.bound]
    exact (Circuit.le_foldl_max _ 0).2 id hid

theorem hasLiteral (hd : d.Proper) (hid : id = 0 ∨ id ∈ d.declarations.map (·.id)) :
    HasLiteral d.bound id := by
  refine ⟨hd.le_bound hid, ?_⟩
  rcases hid with rfl | hid
  · decide
  · have hlt := hd.literal id hid
    have hsize : UInt64.size = 2 * 2 ^ 63 := rfl
    omega

theorem nodup (hd : d.Proper) : (d.declarations.map (·.id)).Nodup := by
  rw [ids_declarations]
  exact hd.unambiguous.declared

/-- There is a text that says this. -/
theorem printable (hd : d.Proper) : d.Printable := by
  have hcount : d.inputs.length + d.gates.length < UInt64.size := by
    have hlength := Circuit.length_lt_size hd.nodup fun id hid => (hd.hasLiteral (.inr hid)).2
    simpa [declarations, inputIds] using hlength
  have hdeclared : ∀ {id}, id ∈ d.declarations.map (·.id) → id ≠ 0 ∧ HasLiteral d.bound id :=
    fun hid => ⟨fun heq => hd.nonzero (heq ▸ hid), hd.hasLiteral (.inr hid)⟩
  have hedge : ∀ {e : Edge}, e ∈ d.reads → HasLiteral d.bound e.node :=
    fun he => hd.hasLiteral (hd.declared _ he)
  refine ⟨fun e he => hdeclared ?_, fun e he => hedge (List.mem_append_left _ he),
    fun gate hgate => ?_, hd.symbols, hd.room, by omega, by omega⟩
  · rw [ids_declarations]
    exact List.mem_append_left _ (List.mem_map_of_mem he)
  · have hfanins : ∀ e ∈ [gate.left, gate.right], HasLiteral d.bound e.node := fun e he =>
      hedge (mem_reads_of_gate hgate he)
    have hid : gate.id ∈ d.declarations.map (·.id) := by
      rw [ids_declarations]
      exact List.mem_append_right _ (List.mem_map_of_mem hgate)
    exact ⟨(hdeclared hid).1, (hdeclared hid).2, hfanins _ List.mem_cons_self,
      hfanins _ (List.mem_cons_of_mem _ List.mem_cons_self)⟩

/-- An entry of the declarations is that of an input line or that of a gate line. -/
theorem mem_map_entry_iff : (id, kind) ∈ d.declarations.map (·.entry) ↔
    (id ∈ d.inputIds ∧ kind = .input false) ∨
      ∃ gate ∈ d.gates, gate.id = id ∧ kind = .gate gate.left gate.right := by
  simp only [declarations, List.mem_map, List.mem_append, or_and_right, exists_or,
    Declaration.entry, Prod.mk.injEq]
  refine or_congr ⟨?_, ?_⟩ ⟨?_, ?_⟩
  · rintro ⟨_, ⟨_, hmem, rfl⟩, rfl, rfl⟩
    exact ⟨hmem, rfl⟩
  · rintro ⟨hmem, rfl⟩
    exact ⟨_, ⟨id, hmem, rfl⟩, rfl, rfl⟩
  · rintro ⟨_, ⟨gate, hgate, rfl⟩, rfl, rfl⟩
    exact ⟨gate, hgate, rfl, rfl⟩
  · rintro ⟨gate, hgate, rfl, rfl⟩
    exact ⟨_, ⟨gate, hgate, rfl⟩, rfl, rfl⟩

/-- The outputs are numbered from the first id above the bound. -/
theorem mem_outputEntries_iff : (id, kind) ∈ (d.outputs.zipIdx (d.bound.toNat + 1)).map
    (fun entry => (UInt64.ofNat entry.2, Kind.output entry.1)) ↔
      ∃ driver, kind = .output driver ∧ d.Declares id (.output driver) := by
  simp only [List.mem_map, Prod.exists, List.mk_mem_zipIdx_iff_le_and_getElem?_sub,
    Prod.mk.injEq, Declares, outputId]
  constructor
  · rintro ⟨driver, number, ⟨hle, hdriver⟩, rfl, rfl⟩
    exact ⟨driver, rfl, _, hdriver, by rw [Nat.add_sub_cancel' hle]⟩
  · rintro ⟨driver, rfl, position, hdriver, rfl⟩
    exact ⟨driver, _, ⟨Nat.le_add_right _ position, by rwa [Nat.add_sub_cancel_left]⟩, rfl, rfl⟩

/-- The lines make of a node what they declare it to be, and no other node is anything. -/
theorem mem_entries_iff (hd : d.Proper) :
    (id, kind) ∈ d.entries ↔ kind ≠ .constant ∧ d.Declares id kind := by
  rw [entries, List.mem_append, mem_map_entry_iff, mem_outputEntries_iff]
  cases kind with
  | constant => simp
  | undefined => simp [Declares]
  | output driver => simp
  | input inverted =>
    rw [Declares, hd.unambiguous.input?_eq_some_iff]
    simp only [reduceCtorEq, and_false, exists_false, false_and, or_false, ne_eq, not_false_eq_true,
      true_and, and_true, Kind.input.injEq, inputIds, List.mem_map]
    constructor
    · rintro ⟨⟨e, he, rfl⟩, rfl⟩
      exact hd.positive e he ▸ he
    · intro hmem
      exact ⟨⟨_, hmem, rfl⟩, hd.positive _ hmem⟩
  | gate left right =>
    rw [Declares, hd.unambiguous.gate?_eq_some_iff]
    simp only [reduceCtorEq, and_false, false_and, exists_false, or_false, false_or, ne_eq,
      not_false_eq_true, true_and, and_true, Kind.gate.injEq]
    constructor
    · rintro ⟨gate, hgate, rfl, rfl, rfl⟩
      exact hgate
    · intro hmem
      exact ⟨_, hmem, rfl, rfl, rfl⟩

theorem mem_entries_of_mem {declaration : Declaration} (h : declaration ∈ d.declarations) :
    (declaration.id, declaration.kind) ∈ d.entries :=
  List.mem_append_left _ (List.mem_map_of_mem h)

/-- What a gate or an output reads is the constant, an input or a gate. -/
theorem not_undefined (hd : d.Proper) (h : d.Denotes c) : c.kind? id ≠ some .undefined := by
  intro hundefined
  obtain ⟨hzero, hinput, hgate, hused⟩ := h.undefined_iff.1 hundefined
  have hread : ∃ e ∈ d.reads, e.node = id := by
    rcases hused with ⟨driver, hdriver, hnode⟩ | ⟨consumer, gate, hfound, hnode⟩
    · exact ⟨driver, List.mem_append_left _ hdriver, hnode⟩
    · have hmem := (hd.unambiguous.gate?_eq_some_iff.1 hfound).1
      rcases hnode with hnode | hnode
      · exact ⟨gate.left, mem_reads_of_gate hmem List.mem_cons_self, hnode⟩
      · exact ⟨gate.right, mem_reads_of_gate hmem (List.mem_cons_of_mem _ List.mem_cons_self), hnode⟩
  obtain ⟨e, he, rfl⟩ := hread
  have hdeclared := (hd.declared e he).resolve_left hzero
  obtain ⟨declaration, hmem, hid⟩ := List.mem_map.1 hdeclared
  have hdeclares := (hd.mem_entries_iff.1 (mem_entries_of_mem hmem)).2
  rw [hid] at hdeclares
  cases declaration with
  | input id =>
    have hinput' : d.input? e.node = some ⟨e.node, false⟩ := hdeclares
    rw [hinput] at hinput'
    cases hinput'
  | gate line =>
    have hgate' : d.gate? e.node = some ⟨e.node, line.left, line.right⟩ := hdeclares
    rw [hgate] at hgate'
    cases hgate'

/-- A circuit that is read is made of what the description declares. -/
theorem composedOf (hd : d.Proper) (h : d.Denotes c) : c.ComposedOf d.entries where
  wellFormed := h.wellFormed
  kind?_iff := by
    intro id kind
    rw [hd.mem_entries_iff]
    cases kind with
    | constant => simp [h.wellFormed.constant_iff]
    | input inverted => simp [h.input_iff, Declares]
    | gate left right => simp [h.gate_iff, Declares]
    | output driver => simp [h.output_iff, Declares]
    | undefined => simp [hd.not_undefined h, Declares]
  tight := by
    rw [h.maxVar, hd.bound]
    refine (Edit.foldl_max_cases (d.declarations.map (·.id)) 0).imp_right fun hlast => ?_
    obtain ⟨declaration, hmem, hid⟩ := List.mem_map.1 hlast
    rw [← hid]
    have hdeclares := (hd.mem_entries_iff.1 (mem_entries_of_mem hmem)).2
    refine ⟨declaration.kind, ?_, declaration.isOutput_kind⟩
    cases declaration with
    | input id => exact h.input_iff.2 hdeclares
    | gate line => exact h.gate_iff.2 hdeclares

/-- Some text is read as a circuit that the description denotes. -/
theorem exists_denotes (hd : d.Proper) : ∃ c, d.Denotes c ∧ c.Acyclic := by
  have hdenotes := hd.printable.writtenIn_join.denotes
  exact ⟨_, hdenotes, hdenotes.acyclic_iff.2 hd.acyclic⟩

/-- The inputs may come first, and then the gates by ascending rank. -/
theorem exists_inOrder (hd : d.Proper) : ∃ build, d.InOrder build := by
  obtain ⟨c, hdenotes, hacyclic⟩ := hd.exists_denotes
  obtain ⟨rank, hranked, _⟩ := hdenotes.wellFormed.exists_ranked hacyclic
  let sorted := d.gates.mergeSort fun a b => decide (rank a.id ≤ rank b.id)
  have hperm : sorted.Perm d.gates := List.mergeSort_perm _ _
  have hsorted : sorted.Pairwise fun a b => rank a.id ≤ rank b.id := by
    have hpairs : sorted.Pairwise fun a b => decide (rank a.id ≤ rank b.id) = true := by
      refine List.pairwise_mergeSort (fun a b c hab hbc => ?_) (fun a b => ?_) d.gates
      · rw [decide_eq_true_eq] at hab hbc ⊢
        exact hab.trans hbc
      · rw [Bool.or_eq_true, decide_eq_true_eq, decide_eq_true_eq]
        exact Nat.le_total _ _
    exact hpairs.imp of_decide_eq_true
  refine ⟨d.inputIds.map .input ++ sorted.map .gate, (hperm.symm.map _).append_left _,
    (Declaration.ready_inputs _ _).append ?_⟩
  refine Declaration.ready_gates hsorted fun gate hgate e he => ?_
  have hgate := hperm.mem_iff.1 hgate
  have hknown : ∀ id, id = 0 ∨ id ∈ d.inputIds →
      id ∈ ((d.inputIds.map Declaration.input).map (·.id)).reverse ++ [0] := by
    intro id hid
    rw [List.map_map, List.mem_append, List.mem_reverse, List.mem_singleton]
    exact hid.symm.imp_left fun hid => List.mem_map.2 ⟨id, hid, rfl⟩
  rcases hd.declared e (mem_reads_of_gate hgate he) with hzero | hdeclared
  · exact .inl (hknown _ (.inl hzero))
  rw [ids_declarations, List.mem_append] at hdeclared
  rcases hdeclared with hinput | hother
  · exact .inl (hknown _ (.inr hinput))
  obtain ⟨other, hother, hid⟩ := List.mem_map.1 hother
  have hkind : c.kind? gate.id = some (.gate gate.left gate.right) :=
    hdenotes.gate_iff.2 (hd.unambiguous.gate?_eq_some_iff.2 ⟨hgate, rfl⟩)
  refine .inr ⟨other, hperm.mem_iff.2 hother, hid, ?_⟩
  exact hranked _ _ ⟨_, hkind, e, he, hid.symm⟩

theorem exists_source_iff (hperm : d.declarations.Perm build)
    (hc : c.ComposedOf (build.map (·.entry))) :
    (∃ kind, c.kind? id = some kind ∧ kind.isOutput = false) ↔
      id = 0 ∨ id ∈ d.declarations.map (·.id) := by
  rw [Declaration.exists_source_iff hc, (hperm.map Declaration.id).mem_iff]

/-- Once everything is declared, the bound has been reached. -/
theorem maxVar_eq_bound (hd : d.Proper) (hperm : d.declarations.Perm build)
    (hc : c.ComposedOf (build.map (·.entry))) : c.maxVar = d.bound := by
  refine UInt64.le_antisymm ?_ ?_
  · rcases hc.tight with hzero | hlast
    · rw [hzero]
      exact UInt64.zero_le
    · exact hd.le_bound ((exists_source_iff hperm hc).1 hlast)
  · rw [hd.bound]
    rcases Edit.foldl_max_cases (d.declarations.map (·.id)) 0 with hzero | hmem
    · rw [hzero]
      exact UInt64.zero_le
    · obtain ⟨kind, hkind, houtput⟩ := (exists_source_iff hperm hc).2 (.inr hmem)
      exact hc.wellFormed.id_le hkind houtput

/-- The calls succeed in any order in which every declaration is ready, and what they build is made
    of what the description declares. -/
theorem completes_calls (hd : d.Proper) (hbuild : d.InOrder build) :
    ∃ b entries, Circuit.empty.Completes (d.calls build) b ∧ b.ComposedOf entries ∧
      ∀ entry, entry ∈ entries ↔ entry ∈ d.entries := by
  obtain ⟨hperm, hready⟩ := hbuild
  have hids := hperm.map (·.id)
  have hknown : ∀ id ∈ [(0 : NodeId)], ¬ CannotDrive Circuit.empty id := by
    intro id hid
    rw [List.mem_singleton.1 hid, Edit.not_cannotDrive_iff]
    exact ⟨.constant, rfl, rfl⟩
  obtain ⟨b, hrun, hb⟩ := hready.completes Circuit.composedOf_empty hknown
    (hids.nodup_iff.1 hd.nodup) fun declaration hmem => by
      have hzero : declaration.id ≠ 0 := fun heq =>
        hd.nonzero (heq ▸ hids.mem_iff.2 (List.mem_map_of_mem hmem))
      rw [Circuit.kind?_empty, if_neg hzero]
      exact ⟨hzero, rfl⟩
  have hlast : b.lastId = d.bound := by
    rw [hb.wellFormed.toIndexed.lastId_eq fun _ _ => Declaration.isOutput_eq_false hb,
      hd.maxVar_eq_bound hperm hb]
  have hroom := hd.room
  have hsize : UInt64.size = 2 ^ 64 := rfl
  obtain ⟨f, houtputs, hf⟩ := hb.completes_addOutput d.outputs rfl
    (by rw [hlast]; omega) fun e he => by
      rw [Edit.not_cannotDrive_iff, exists_source_iff hperm hb]
      exact hd.declared e (List.mem_append_left _ he)
  refine ⟨f, _, hrun.append houtputs, hf, fun entry => ?_⟩
  rw [hlast, List.nil_append, entries, List.mem_append, List.mem_append,
    (hperm.map Declaration.entry).mem_iff]

/-- Lines that say what the description says are read without a warning. -/
theorem read_eq (hd : d.Proper) {text : ByteArray} (hwritten : d.WrittenIn (Text.lines text)) :
    ∃ c, read text = (.ok c, #[]) ∧ d.Denotes c := by
  refine ⟨_, Prod.ext (hwritten.read_eq_ok_iff.2 ⟨rfl, hd.acyclic⟩) ?_, hwritten.denotes⟩
  rw [hwritten.read_eq]
  exact hd.unambiguous.warnings_found hwritten.fits

end Proper

end Description

/-- Reading agrees with building. However the lines for inputs and gates are ordered, and in
    whatever order the calls add the same inputs and gates as long as each gate comes behind those
    that it reads, the circuits are equal. The outputs are added in the order of their lines. -/
theorem reading_agrees_with_building (d : Description) (hd : d.Proper) :
    (∃ text, d.WrittenIn (Text.lines text)) ∧ (∃ build, d.InOrder build) ∧
    ∀ text build, d.WrittenIn (Text.lines text) → d.InOrder build →
      ∃ c b, read text = (.ok c, #[]) ∧ Circuit.empty.Completes (d.calls build) b ∧
        c.Coincides b := by
  refine ⟨⟨_, hd.printable.writtenIn_join⟩, hd.exists_inOrder, fun text build htext hbuild => ?_⟩
  obtain ⟨c, hread, hdenotes⟩ := hd.read_eq htext
  obtain ⟨b, entries, hrun, hb, hsame⟩ := hd.completes_calls hbuild
  exact ⟨c, b, hread, hrun, (hd.composedOf hdenotes).coincides hb hsame⟩

/-- The inputs stand the wrong way round, and so do the gates, the first of which reads the second
    one. -/
def crossed : Description where
  bound := 4
  inputs := [⟨2, false⟩, ⟨1, false⟩]
  outputs := [⟨4, true⟩, ⟨3, false⟩]
  gates := [⟨4, ⟨3, false⟩, ⟨1, true⟩⟩, ⟨3, ⟨1, false⟩, ⟨2, false⟩⟩]
  symbols := [⟨false, 0, "y"⟩]

/-- Inputs come in any order, and a gate line may come before that of a gate that it reads. -/
theorem proper_crossed : crossed.Proper where
  positive := by decide
  unambiguous := ⟨by decide, by decide⟩
  declared := by decide
  nonzero := by decide
  bound := by decide
  literal := by simp [crossed, Description.declarations, Description.inputIds, Declaration.id]
  room := by decide
  symbols := by
    intro symbol hsymbol
    rw [List.mem_singleton.1 hsymbol]
    exact ⟨⟨by decide, by decide, by decide⟩, by decide⟩
  acyclic := by
    have hstep : ∀ {source consumer}, crossed.Feeds source consumer → source < consumer := by
      rintro source consumer ⟨gate, hgate, hnode⟩
      have hfound := (Description.gate?_eq_some_iff.1 hgate).2
      have hascends : ∀ gate ∈ crossed.gates, gate.left.node < gate.id ∧ gate.right.node < gate.id := by
        decide
      have hboth := hascends gate (List.mem_of_find?_eq_some hfound)
      rw [Description.id_eq_of_gate? hgate] at hboth
      rcases hnode with rfl | rfl
      · exact hboth.1
      · exact hboth.2
    have hpath : ∀ {source consumer}, Relation.TransGen crossed.Feeds source consumer →
        source < consumer := by
      intro source consumer hpath
      induction hpath with
      | single hfeeds => exact hstep hfeeds
      | tail _ hfeeds ih => exact UInt64.lt_trans ih (hstep hfeeds)
    exact fun id hcycle => UInt64.lt_irrefl id (hpath hcycle)

theorem reading_agrees_with_building_crossed : ∃ c b,
    read "aag 4 2 0 2 2\n4\n2\n9\n6\n8 6 3\n6 2 4\no0 y\n".toUTF8 = (.ok c, #[]) ∧
    Circuit.empty.Completes [.addInput 1, .addInput 2, .addGate 3 ⟨1, false⟩ ⟨2, false⟩,
      .addGate 4 ⟨3, false⟩ ⟨1, true⟩, .addOutput ⟨4, true⟩, .addOutput ⟨3, false⟩] b ∧
    c.Coincides b ∧ b.outputs = [5, 6] := by
  have htext : String.join (crossed.texts.map (· ++ "\n")) =
      "aag 4 2 0 2 2\n4\n2\n9\n6\n8 6 3\n6 2 4\no0 y\n" := by decide +kernel
  have hwritten := proper_crossed.printable.writtenIn_join
  rw [htext] at hwritten
  have hbuild : crossed.InOrder [.input 1, .input 2, .gate ⟨3, ⟨1, false⟩, ⟨2, false⟩⟩,
      .gate ⟨4, ⟨3, false⟩, ⟨1, true⟩⟩] := by
    refine ⟨by decide, ?_⟩
    simp [Declaration.Ready, Declaration.kind, Declaration.id, Kind.fanins]
  obtain ⟨c, b, hread, hrun, hcoincides⟩ :=
    (reading_agrees_with_building crossed proper_crossed).2.2 _ _ hwritten hbuild
  refine ⟨c, b, hread, hrun, hcoincides, ?_⟩
  rw [hrun.eq_after]
  decide +kernel

end AndInverter.Aiger
