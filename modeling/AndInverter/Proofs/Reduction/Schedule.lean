import AndInverter.Circuit.Reduction
import AndInverter.Proofs.Contraction
import AndInverter.Proofs.Sequencing

open AndInverter.Sat

namespace AndInverter

/-- A comparison of two nodes, and whether the oracle found them equal. -/
structure Comparison where
  first : NodeId
  other : NodeId
  equal : Bool

namespace Comparison

variable {log more : List Comparison}

/-- The merges that comparisons lead to, as pairs of victim and survivor. -/
def merges (log : List Comparison) : List (NodeId × NodeId) :=
  (log.filter (·.equal)).map fun comparison => (comparison.other, comparison.first)

/-- The nodes that were found to differ from the one they were compared with. -/
def left (log : List Comparison) : List NodeId := (log.filter (!·.equal)).map (·.other)

theorem merges_append : merges (log ++ more) = merges log ++ merges more := by
  simp [merges]

theorem left_sublist : (left log).Sublist (log.map (·.other)) := List.filter_sublist.map _

theorem mem_merges_iff {victim survivor : NodeId} :
    (victim, survivor) ∈ merges log ↔ ⟨survivor, victim, true⟩ ∈ log := by
  simp only [merges, List.mem_map, List.mem_filter, Prod.mk.injEq]
  constructor
  · rintro ⟨⟨_, _, _⟩, ⟨hmem, rfl⟩, rfl, rfl⟩
    exact hmem
  · intro hmem
    exact ⟨_, ⟨hmem, rfl⟩, rfl, rfl⟩

theorem victims_sublist : ((merges log).map (·.1)).Sublist (log.map (·.other)) := by
  rw [merges, List.map_map]
  exact List.filter_sublist.map _

theorem not_mem_left (hnodup : (log.map (·.other)).Nodup) {merge : NodeId × NodeId}
    (hmerge : merge ∈ merges log) : merge.1 ∉ left log := by
  intro hleft
  obtain ⟨kept, hkept, heq⟩ := List.mem_map.1 hleft
  obtain ⟨hmem, hdiffers⟩ := List.mem_filter.1 hkept
  have hequal := mem_merges_iff.1 hmerge
  obtain rfl := List.inj_on_of_nodup_map hnodup hmem hequal heq
  simp at hdiffers

end Comparison

namespace Reducer

variable {σ α β : Type} {oracle : Oracle σ}

/-- A run that consists of these comparisons, with these answers. -/
inductive Compares (oracle : Oracle σ) : Reduction σ → List Comparison → Reduction σ → Prop where
  | nil (r : Reduction σ) : Compares oracle r [] r
  | cons {r s t : Reduction σ} {comparison : Comparison} {log : List Comparison}
    (hfirst : compareNodes oracle comparison.first comparison.other r = .ok comparison.equal s)
    (hrest : Compares oracle s log t) : Compares oracle r (comparison :: log) t

namespace Compares

variable {r s t : Reduction σ} {log more : List Comparison}

theorem append (h : Compares oracle r log s) (hmore : Compares oracle s more t) :
    Compares oracle r (log ++ more) t := by
  induction h with
  | nil => exact hmore
  | cons hfirst _ ih => exact .cons hfirst (ih hmore)

/-- What each comparison keeps holds after the run. It may speak of the comparisons so far. -/
theorem invariant {P : List Comparison → Reduction σ → Prop} (h : Compares oracle r log s)
    (hstep : ∀ before, ∀ comparison ∈ log, ∀ r s, P before r →
      compareNodes oracle comparison.first comparison.other r = .ok comparison.equal s →
      P (before ++ [comparison]) s)
    (before : List Comparison) (hr : P before r) : P (before ++ log) s := by
  induction h generalizing before with
  | nil => rwa [List.append_nil]
  | @cons r s t comparison log hfirst _ ih =>
    have hnext := hstep before comparison List.mem_cons_self r s hr hfirst
    rw [← List.singleton_append, ← List.append_assoc]
    exact ih (fun before other hother =>
      hstep before other (List.mem_cons_of_mem comparison hother)) _ hnext

end Compares

/-- Every run of the steps consists of comparisons. When the steps return a value, it and the
    comparisons are as `Allowed` says. Otherwise a comparison has failed that could have been
    followed by others to this end. -/
def Follows (oracle : Oracle σ) (x : Reducer σ α) (Allowed : α → List Comparison → Prop) : Prop :=
  ∀ r, match x r with
    | .ok a s => ∃ log, Allowed a log ∧ Compares oracle r log s
    | .error failure s => ∃ log next t, (∃ a more, Allowed a (log ++ next :: more)) ∧
        Compares oracle r log t ∧
        compareNodes oracle next.first next.other t = .error failure s

namespace Follows

variable {x : Reducer σ α} {A : α → List Comparison → Prop} {B : β → List Comparison → Prop}

theorem pure {a : α} (h : A a []) : Follows oracle (Pure.pure a) A := fun r => ⟨[], h, .nil r⟩

theorem mono {A' : α → List Comparison → Prop} (hx : Follows oracle x A)
    (h : ∀ a log, A a log → A' a log) : Follows oracle x A' := by
  intro r
  have hrun := hx r
  split at hrun
  · obtain ⟨log, hlog, hcompares⟩ := hrun
    exact ⟨log, h _ _ hlog, hcompares⟩
  · obtain ⟨log, next, t, ⟨a, more, hlog⟩, hcompares⟩ := hrun
    exact ⟨log, next, t, ⟨a, more, h _ _ hlog⟩, hcompares⟩

/-- The comparisons of one step come before those of the next, and a run that breaks off keeps to
    the schedule as far as it went. -/
theorem bind {f : α → Reducer σ β} (hx : Follows oracle x A)
    (hf : ∀ a log, A a log → Follows oracle (f a) fun b more => B b (log ++ more))
    (hmore : ∀ a log, A a log → ∃ b more, B b (log ++ more)) : Follows oracle (x >>= f) B := by
  intro r
  have hrun := hx r
  cases hresult : x r with
  | error failure s =>
    rw [hresult] at hrun
    rw [estateM_bind_of_error hresult]
    obtain ⟨log, next, t, ⟨a, more, hlog⟩, hcompares⟩ := hrun
    obtain ⟨b, rest, hrest⟩ := hmore a _ hlog
    refine ⟨log, next, t, ⟨b, more ++ rest, ?_⟩, hcompares⟩
    rwa [List.append_assoc, List.cons_append] at hrest
  | ok a s =>
    rw [hresult] at hrun
    rw [estateM_bind_of_ok hresult]
    obtain ⟨log, hlog, hcompares⟩ := hrun
    have hsecond := hf a log hlog s
    split at hsecond
    · obtain ⟨more, hmore, hcomparesMore⟩ := hsecond
      exact ⟨log ++ more, hmore, hcompares.append hcomparesMore⟩
    · obtain ⟨more, next, t, ⟨b, rest, hrest⟩, hcomparesMore, hfails⟩ := hsecond
      refine ⟨log ++ more, next, t, ⟨b, rest, ?_⟩, hcompares.append hcomparesMore, hfails⟩
      rwa [List.append_assoc]

theorem compareNodes (oracle : Oracle σ) (first other : NodeId) :
    Follows oracle (compareNodes oracle first other) fun equal log => log = [⟨first, other, equal⟩] := by
  intro r
  cases hresult : Reducer.compareNodes oracle first other r with
  | ok equal s => exact ⟨_, rfl, .cons hresult (.nil s)⟩
  | error failure s => exact ⟨[], ⟨first, other, true⟩, r, ⟨true, [], rfl⟩, .nil r, hresult⟩

end Follows

/-- The comparisons of one node with each of the others in turn. -/
structure Round (first : NodeId) (rest : List NodeId) (log : List Comparison) : Prop where
  others : log.map (·.other) = rest
  first : ∀ comparison ∈ log, comparison.first = first

namespace Round

variable {first : NodeId} {rest : List NodeId} {log : List Comparison}

theorem cons (h : Round first rest log) (other : NodeId) (equal : Bool) :
    Round first (other :: rest) (⟨first, other, equal⟩ :: log) :=
  ⟨by rw [List.map_cons, h.others], List.forall_mem_cons.2 ⟨rfl, h.first⟩⟩

theorem exists_log (first : NodeId) (rest : List NodeId) : ∃ log, Round first rest log := by
  induction rest with
  | nil => exact ⟨[], rfl, nofun⟩
  | cons other rest ih =>
    obtain ⟨log, hlog⟩ := ih
    exact ⟨_, hlog.cons other true⟩

theorem left_sublist (h : Round first rest log) : (Comparison.left log).Sublist rest :=
  h.others ▸ Comparison.left_sublist

theorem follows (first : NodeId) (rest : List NodeId) :
    Follows oracle (mergeEqual oracle first rest) fun kept log =>
      Round first rest log ∧ kept = Comparison.left log := by
  induction rest with
  | nil => exact .pure ⟨⟨rfl, nofun⟩, rfl⟩
  | cons other rest ih =>
    rw [mergeEqual_cons]
    refine (Follows.compareNodes oracle first other).bind ?_ ?_
    · rintro equal _ rfl
      cases equal with
      | true => exact ih.mono fun kept log ⟨hround, hkept⟩ => ⟨hround.cons other true, hkept⟩
      | false =>
        refine ih.bind (fun kept log ⟨hround, hkept⟩ => .pure ?_) fun kept log ⟨hround, hkept⟩ => ?_
        · rw [List.append_nil]
          exact ⟨hround.cons other false, congrArg (other :: ·) hkept⟩
        · refine ⟨_, [], ?_, rfl⟩
          rw [List.append_nil]
          exact hround.cons other false
    · rintro equal _ rfl
      obtain ⟨log, hround⟩ := exists_log first rest
      exact ⟨_, log, hround.cons other equal, rfl⟩

theorem of_mem_merges (h : Round first rest log) {merge : NodeId × NodeId}
    (hmem : merge ∈ Comparison.merges log) : merge.1 ∈ rest ∧ merge.2 = first := by
  have hcompared := Comparison.mem_merges_iff.1 hmem
  exact ⟨h.others ▸ List.mem_map_of_mem hcompared, h.first _ hcompared⟩

theorem oneStep (h : Round first rest log) (hfresh : first ∉ rest) (hnodup : rest.Nodup) :
    Circuit.OneStep (Comparison.merges log) where
  nodup := hnodup.sublist (h.others ▸ Comparison.victims_sublist)
  final one hone other hother := by
    rw [(h.of_mem_merges hone).2]
    exact fun heq => hfresh (heq ▸ (h.of_mem_merges hother).1)

end Round

/-- The comparisons within a group: a round with the first node, then the same for the nodes that
    are left. -/
inductive Rounds : List NodeId → List Comparison → Prop where
  | nil : Rounds [] []
  | cons {first : NodeId} {rest : List NodeId} {log more : List Comparison}
    (hround : Round first rest log) (hmore : Rounds (Comparison.left log) more) :
    Rounds (first :: rest) (log ++ more)

namespace Rounds

variable {group : List NodeId} {log : List Comparison}

theorem exists_log (group : List NodeId) : ∃ log, Rounds group log := by
  induction hn : group.length using Nat.strong_induction_on generalizing group with
  | _ n ih =>
    cases group with
    | nil => exact ⟨[], .nil⟩
    | cons first rest =>
      obtain ⟨log, hround⟩ := Round.exists_log first rest
      have hshort := hround.left_sublist.length_le
      rw [List.length_cons] at hn
      obtain ⟨more, hmore⟩ := ih _ (by omega) (Comparison.left log) rfl
      exact ⟨_, .cons hround hmore⟩

theorem follows {rounds : Nat} (hrounds : group.length ≤ rounds) :
    Follows oracle (reduceGroup oracle rounds group) fun _ log => Rounds group log := by
  induction rounds generalizing group with
  | zero =>
    obtain rfl := List.length_eq_zero_iff.1 (Nat.le_zero.1 hrounds)
    exact .pure .nil
  | succ rounds ih =>
    cases group with
    | nil => exact .pure .nil
    | cons first rest =>
      refine (Round.follows first rest).bind ?_ ?_
      · rintro _ log ⟨hround, rfl⟩
        have hshort := hround.left_sublist.length_le
        rw [List.length_cons] at hrounds
        exact (ih (by omega)).mono fun _ more hmore => .cons hround hmore
      · rintro _ log ⟨hround, rfl⟩
        obtain ⟨more, hmore⟩ := exists_log (Comparison.left log)
        exact ⟨(), more, .cons hround hmore⟩

/-- A node is compared with nodes behind it only. -/
theorem sublist (h : Rounds group log) {comparison : Comparison} (hmem : comparison ∈ log) :
    [comparison.first, comparison.other].Sublist group := by
  induction h with
  | nil => cases hmem
  | @cons first rest log more hround _ ih =>
    rcases List.mem_append.1 hmem with hmem | hmem
    · have hother : comparison.other ∈ rest := hround.others ▸ List.mem_map_of_mem hmem
      rw [hround.first comparison hmem]
      exact (List.singleton_sublist.2 hother).cons_cons first
    · exact ((ih hmem).trans hround.left_sublist).cons first

theorem of_mem_merges (h : Rounds group log) {merge : NodeId × NodeId}
    (hmem : merge ∈ Comparison.merges log) : merge.1 ∈ group ∧ merge.2 ∈ group := by
  have hsublist := h.sublist (Comparison.mem_merges_iff.1 hmem)
  exact ⟨hsublist.subset (by simp), hsublist.subset (by simp)⟩

/-- A victim is not compared again, and what it was merged into is no victim later. -/
theorem oneStep (h : Rounds group log) (hnodup : group.Nodup) :
    Circuit.OneStep (Comparison.merges log) := by
  induction h with
  | nil => exact ⟨List.nodup_nil, nofun⟩
  | @cons first rest log more hround hmore ih =>
    obtain ⟨hfresh, hnodup⟩ := List.nodup_cons.1 hnodup
    rw [Comparison.merges_append]
    refine (hround.oneStep hfresh hnodup).append (ih (hnodup.sublist hround.left_sublist)) ?_
    intro one hone other hother
    obtain ⟨hvictim, hsurvivor⟩ := hmore.of_mem_merges hother
    have hgone := Comparison.not_mem_left (hround.others ▸ hnodup) hone
    rw [(hround.of_mem_merges hone).2]
    refine ⟨?_, ?_, ?_⟩
    · exact fun heq => hgone (heq ▸ hvictim)
    · exact fun heq => hgone (heq ▸ hsurvivor)
    · exact fun heq => hfresh (heq ▸ hround.left_sublist.subset hvictim)

end Rounds

/-- The comparisons of a reduction, group by group. -/
inductive Schedule : List (List NodeId) → List Comparison → Prop where
  | nil : Schedule [] []
  | cons {group : List NodeId} {groups : List (List NodeId)} {log more : List Comparison}
    (hgroup : Rounds group log) (hgroups : Schedule groups more) :
    Schedule (group :: groups) (log ++ more)

namespace Schedule

variable {groups : List (List NodeId)} {log : List Comparison}

theorem exists_log (groups : List (List NodeId)) : ∃ log, Schedule groups log := by
  induction groups with
  | nil => exact ⟨[], .nil⟩
  | cons group groups ih =>
    obtain ⟨log, hlog⟩ := Rounds.exists_log group
    obtain ⟨more, hmore⟩ := ih
    exact ⟨_, .cons hlog hmore⟩

/-- The reduction of the groups keeps to the schedule, whatever the oracle answers. -/
theorem follows (oracle : Oracle σ) (groups : List (List NodeId)) :
    Follows oracle (reduceGroups oracle groups) fun _ log => Schedule groups log := by
  induction groups with
  | nil => exact .pure .nil
  | cons group groups ih =>
    have hgroup : Follows oracle (reduceGroup oracle group.length group) fun _ log => Rounds group log :=
      Rounds.follows le_rfl
    refine hgroup.bind (f := fun _ => reduceGroups oracle groups) ?_ ?_
    · exact fun _ log hlog => ih.mono fun _ more hmore => .cons hlog hmore
    · intro _ log hlog
      obtain ⟨more, hmore⟩ := exists_log groups
      exact ⟨(), more, .cons hlog hmore⟩

theorem exists_sublist (h : Schedule groups log) {comparison : Comparison} (hmem : comparison ∈ log) :
    ∃ group ∈ groups, [comparison.first, comparison.other].Sublist group := by
  induction h with
  | nil => cases hmem
  | cons hgroup _ ih =>
    rcases List.mem_append.1 hmem with hmem | hmem
    · exact ⟨_, List.mem_cons_self, hgroup.sublist hmem⟩
    · obtain ⟨group, hgroup, hsublist⟩ := ih hmem
      exact ⟨group, List.mem_cons_of_mem _ hgroup, hsublist⟩

theorem of_mem_merges (h : Schedule groups log) {merge : NodeId × NodeId}
    (hmem : merge ∈ Comparison.merges log) :
    merge.1 ∈ groups.flatten ∧ merge.2 ∈ groups.flatten := by
  obtain ⟨group, hgroup, hsublist⟩ := h.exists_sublist (Comparison.mem_merges_iff.1 hmem)
  exact ⟨List.mem_flatten.2 ⟨group, hgroup, hsublist.subset (by simp)⟩,
    List.mem_flatten.2 ⟨group, hgroup, hsublist.subset (by simp)⟩⟩

/-- Groups that have no node in common do not interfere. -/
theorem oneStep (h : Schedule groups log) (hnodup : groups.flatten.Nodup) :
    Circuit.OneStep (Comparison.merges log) := by
  induction h with
  | nil => exact ⟨List.nodup_nil, nofun⟩
  | cons hgroup hgroups ih =>
    rw [List.flatten_cons, List.nodup_append] at hnodup
    obtain ⟨hnodup, hnodupRest, hdisjoint⟩ := hnodup
    rw [Comparison.merges_append]
    refine (hgroup.oneStep hnodup).append (ih hnodupRest) fun one hone other hother => ?_
    obtain ⟨hvictim, hsurvivor⟩ := hgroup.of_mem_merges hone
    obtain ⟨hvictim', hsurvivor'⟩ := hgroups.of_mem_merges hother
    exact ⟨(hdisjoint _ hvictim _ hvictim').symm, (hdisjoint _ hvictim _ hsurvivor').symm,
      hdisjoint _ hsurvivor _ hvictim'⟩

end Schedule

end Reducer

end AndInverter
