import AndInverter.Proofs.Grouping
import AndInverter.Proofs.Reduction.Transcript
import Mathlib.Data.Sym.Sym2

open AndInverter.Sat

namespace AndInverter

namespace Comparison

variable {log more : List Comparison}

/-- The two nodes, in no order. -/
def pair (comparison : Comparison) : Sym2 NodeId := s(comparison.first, comparison.other)

/-- The nodes that were merged away. -/
def victims (log : List Comparison) : List NodeId := (merges log).map (·.1)

/-- Once merged away, a node is not compared again. -/
def Final (log : List Comparison) : Prop :=
  log.Pairwise fun earlier later =>
    earlier.equal = true → later.first ≠ earlier.other ∧ later.other ≠ earlier.other

theorem victims_append : victims (log ++ more) = victims log ++ victims more := by
  rw [victims, merges_append, List.map_append]
  rfl

theorem mem_victims_of_mem {first other : NodeId} (h : ⟨first, other, true⟩ ∈ log) :
    other ∈ victims log := List.mem_map.2 ⟨(other, first), mem_merges_iff.2 h, rfl⟩

theorem mem_left_iff {id : NodeId} : id ∈ left log ↔ ∃ first, ⟨first, id, false⟩ ∈ log := by
  simp only [left, List.mem_map, List.mem_filter]
  constructor
  · rintro ⟨⟨first, _, _ | _⟩, ⟨hmem, hequal⟩, rfl⟩
    · exact ⟨first, hmem⟩
    · cases hequal
  · rintro ⟨first, hmem⟩
    exact ⟨_, ⟨hmem, rfl⟩, rfl⟩

/-- A comparison either merges or leaves a node. -/
theorem length_eq (log : List Comparison) : log.length = (merges log).length + (left log).length := by
  rw [merges, left, List.length_map, List.length_map, ← List.length_eq_length_filter_add]

end Comparison

namespace Reducer

open Comparison

namespace Round

variable {first : NodeId} {rest : List NodeId} {log : List Comparison}

theorem pairs (h : Round first rest log) : log.map Comparison.pair = rest.map (s(first, ·)) := by
  rw [← h.others, List.map_map]
  refine List.map_congr_left fun comparison hmem => ?_
  rw [Comparison.pair, h.first comparison hmem]
  rfl

theorem nodup_pairs (h : Round first rest log) (hnodup : rest.Nodup) :
    (log.map Comparison.pair).Nodup := by
  rw [h.pairs]
  exact hnodup.map fun a b hab => Sym2.congr_right.1 hab

theorem final (h : Round first rest log) (hfresh : first ∉ rest) (hnodup : rest.Nodup) :
    Comparison.Final log := by
  rw [← h.others] at hnodup
  refine (List.pairwise_map.1 hnodup).imp_of_mem fun {earlier later} hearlier hlater hne _ => ?_
  refine ⟨fun heq => hfresh ?_, Ne.symm hne⟩
  rw [← h.first later hlater, heq, ← h.others]
  exact List.mem_map_of_mem hearlier

/-- What a round leaves are the nodes it did not merge away, in their order. -/
theorem left_eq (h : Round first rest log) (hnodup : rest.Nodup) :
    left log = rest.filter (· ∉ victims log) := by
  rw [left, ← h.others, List.filter_map]
  congr 1
  refine List.filter_congr fun comparison hmem => ?_
  obtain ⟨a, b, equal⟩ := comparison
  rw [Function.comp_apply, Bool.eq_iff_iff, decide_eq_true_iff]
  cases equal with
  | true => exact iff_of_false (by simp) fun hstays => hstays (mem_victims_of_mem hmem)
  | false =>
    refine iff_of_true rfl fun hvictim => ?_
    obtain ⟨merge, hmerge, rfl⟩ := List.mem_map.1 hvictim
    exact not_mem_left (h.others ▸ hnodup) hmerge (mem_left_iff.2 ⟨a, hmem⟩)

/-- The first node was compared with each of the others, and differs from those that stay. -/
theorem mem_of_stays (h : Round first rest log) {id : NodeId} (hid : id ∈ rest)
    (hstays : id ∉ victims log) : ⟨first, id, false⟩ ∈ log := by
  rw [← h.others] at hid
  obtain ⟨⟨a, b, equal⟩, hmem, rfl⟩ := List.mem_map.1 hid
  obtain rfl : a = first := h.first _ hmem
  cases equal with
  | false => exact hmem
  | true => exact (hstays (mem_victims_of_mem hmem)).elim

end Round

namespace Rounds

variable {group : List NodeId} {log : List Comparison}

theorem mem_of_mem_pair (h : Rounds group log) {comparison : Comparison} (hmem : comparison ∈ log)
    {id : NodeId} (hid : id ∈ comparison.pair) : id ∈ group := by
  have hsubset := (h.sublist hmem).subset
  rcases Sym2.mem_iff.1 hid with rfl | rfl
  · exact hsubset (by simp)
  · exact hsubset (by simp)

/-- No two nodes are compared twice, in whatever order. -/
theorem nodup_pairs (h : Rounds group log) (hnodup : group.Nodup) :
    (log.map Comparison.pair).Nodup := by
  induction h with
  | nil => exact List.nodup_nil
  | @cons first rest log more hround hmore ih =>
    obtain ⟨hfresh, hnodup⟩ := List.nodup_cons.1 hnodup
    rw [List.map_append, List.nodup_append]
    refine ⟨hround.nodup_pairs hnodup, ih (hnodup.sublist hround.left_sublist), ?_⟩
    intro pair hpair other hother heq
    rw [hround.pairs] at hpair
    obtain ⟨id, _, rfl⟩ := List.mem_map.1 hpair
    obtain ⟨comparison, hmem, rfl⟩ := List.mem_map.1 hother
    have hfirst : first ∈ comparison.pair := heq ▸ Sym2.mem_mk_left first id
    exact hfresh (hround.left_sublist.subset (hmore.mem_of_mem_pair hmem hfirst))

/-- A gate that gets a victim is never made one later on, for its round ends with it left out. -/
theorem final (h : Rounds group log) (hnodup : group.Nodup) : Comparison.Final log := by
  induction h with
  | nil => exact List.Pairwise.nil
  | @cons first rest log more hround hmore ih =>
    obtain ⟨hfresh, hnodup⟩ := List.nodup_cons.1 hnodup
    refine List.pairwise_append.2 ⟨hround.final hfresh hnodup,
      ih (hnodup.sublist hround.left_sublist), ?_⟩
    intro earlier hearlier later hlater hequal
    obtain ⟨a, b, equal⟩ := earlier
    obtain rfl : equal = true := hequal
    have hgone := not_mem_left (hround.others ▸ hnodup) (mem_merges_iff.2 hearlier)
    have hsubset := (hmore.sublist hlater).subset
    refine ⟨?_, ?_⟩
    · rintro rfl
      exact hgone (hsubset (by simp))
    · rintro rfl
      exact hgone (hsubset (by simp))

/-- Two nodes that are not merged away were compared, and found to differ. -/
theorem mem_of_stay (h : Rounds group log) (hnodup : group.Nodup) {a b : NodeId}
    (hab : [a, b].Sublist group) (ha : a ∉ victims log) (hb : b ∉ victims log) :
    ⟨a, b, false⟩ ∈ log := by
  induction h with
  | nil => cases hab
  | @cons first rest log more hround hmore ih =>
    obtain ⟨hfresh, hnodup⟩ := List.nodup_cons.1 hnodup
    rw [victims_append, List.mem_append, not_or] at ha hb
    rw [List.mem_append]
    -- The first node meets all others in this round. Two of the others stay for the next rounds.
    cases hab with
    | cons_cons _ hb' => exact .inl (hround.mem_of_stays (List.singleton_sublist.1 hb') hb.1)
    | cons _ hab =>
      have hfiltered := hab.filter (· ∉ victims log)
      rw [← hround.left_eq hnodup, List.filter_cons_of_pos (by simpa using ha.1),
        List.filter_cons_of_pos (by simpa using hb.1), List.filter_nil] at hfiltered
      exact .inr (ih (hnodup.sublist hround.left_sublist) hfiltered ha.2 hb.2)

end Rounds

namespace Schedule

variable {groups : List (List NodeId)} {log : List Comparison}

theorem mem_flatten_of_mem_pair (h : Schedule groups log) {comparison : Comparison}
    (hmem : comparison ∈ log) {id : NodeId} (hid : id ∈ comparison.pair) : id ∈ groups.flatten := by
  obtain ⟨group, hgroup, hsublist⟩ := h.exists_sublist hmem
  refine List.mem_flatten.2 ⟨group, hgroup, ?_⟩
  rcases Sym2.mem_iff.1 hid with rfl | rfl
  · exact hsublist.subset (by simp)
  · exact hsublist.subset (by simp)

/-- Groups are disjoint, so no pair comes up in two of them. -/
theorem nodup_pairs (h : Schedule groups log) (hnodup : groups.flatten.Nodup) :
    (log.map Comparison.pair).Nodup := by
  induction h with
  | nil => exact List.nodup_nil
  | @cons group groups log more hgroup hgroups ih =>
    rw [List.flatten_cons, List.nodup_append] at hnodup
    obtain ⟨hnodup, hnodupRest, hdisjoint⟩ := hnodup
    rw [List.map_append, List.nodup_append]
    refine ⟨hgroup.nodup_pairs hnodup, ih hnodupRest, ?_⟩
    intro pair hpair other hother heq
    obtain ⟨comparison, hmem, rfl⟩ := List.mem_map.1 hpair
    obtain ⟨comparison', hmem', rfl⟩ := List.mem_map.1 hother
    have hfirst : comparison.first ∈ comparison.pair := Sym2.mem_mk_left _ _
    exact hdisjoint _ (hgroup.mem_of_mem_pair hmem hfirst) _
      (hgroups.mem_flatten_of_mem_pair hmem' (heq ▸ hfirst)) rfl

theorem final (h : Schedule groups log) (hnodup : groups.flatten.Nodup) :
    Comparison.Final log := by
  induction h with
  | nil => exact List.Pairwise.nil
  | @cons group groups log more hgroup hgroups ih =>
    rw [List.flatten_cons, List.nodup_append] at hnodup
    obtain ⟨hnodup, hnodupRest, hdisjoint⟩ := hnodup
    refine List.pairwise_append.2 ⟨hgroup.final hnodup, ih hnodupRest, ?_⟩
    intro earlier hearlier later hlater _
    have hother := hgroup.mem_of_mem_pair hearlier (Sym2.mem_mk_right _ _)
    exact ⟨(hdisjoint _ hother _ (hgroups.mem_flatten_of_mem_pair hlater
      (Sym2.mem_mk_left _ _))).symm, (hdisjoint _ hother _ (hgroups.mem_flatten_of_mem_pair hlater
      (Sym2.mem_mk_right _ _))).symm⟩

/-- Two gates of a group that both stay have been compared, and found different. -/
theorem mem_of_stay (h : Schedule groups log) (hnodup : groups.flatten.Nodup)
    {group : List NodeId} (hgroup : group ∈ groups) {a b : NodeId} (hab : [a, b].Sublist group)
    (ha : a ∉ victims log) (hb : b ∉ victims log) : ⟨a, b, false⟩ ∈ log := by
  induction h with
  | nil => cases hgroup
  | @cons first groups log more hfirst hgroups ih =>
    rw [List.flatten_cons, List.nodup_append] at hnodup
    rw [victims_append, List.mem_append, not_or] at ha hb
    rw [List.mem_append]
    rcases List.mem_cons.1 hgroup with rfl | hgroup
    · exact .inl (hfirst.mem_of_stay hnodup.1 hab ha.1 hb.1)
    · exact .inr (ih hnodup.2.1 hgroup ha.2 hb.2)

/-- Groups that have no node in common are not mixed. -/
theorem mem_iff (h : Schedule groups log) (hnodup : groups.flatten.Nodup) {comparison : Comparison}
    (hmem : comparison ∈ log) {group : List NodeId} (hgroup : group ∈ groups) :
    comparison.first ∈ group ↔ comparison.other ∈ group := by
  obtain ⟨home, hhome, hsublist⟩ := h.exists_sublist hmem
  have hfirst : comparison.first ∈ home := hsublist.subset (by simp)
  have hother : comparison.other ∈ home := hsublist.subset (by simp)
  have heq : ∀ {id}, id ∈ home → id ∈ group → home = group := by
    intro id hid hid'
    have : Std.Symm (@List.Disjoint NodeId) := ⟨fun _ _ h => h.symm⟩
    by_contra hne
    exact (List.nodup_flatten.1 hnodup).2.forall hhome hgroup hne hid hid'
  constructor
  · exact fun hin => heq hfirst hin ▸ hother
  · exact fun hin => heq hother hin ▸ hfirst

end Schedule

/-- What the comparisons of a reduction come to, for groups that have no node in common: none is
    made twice; each is of two nodes of one group, the first before the other; the nodes that were
    not merged away were all compared with each other, and differ; a node is merged away once, and
    is not compared afterwards. -/
structure Covers (groups : List (List NodeId)) (log : List Comparison) : Prop where
  once : (log.map Comparison.pair).Nodup
  within : ∀ comparison ∈ log, ∃ group ∈ groups, [comparison.first, comparison.other].Sublist group
  unmixed : ∀ comparison ∈ log, ∀ group ∈ groups, comparison.first ∈ group ↔ comparison.other ∈ group
  complete : ∀ group ∈ groups, ∀ a b, [a, b].Sublist group → a ∉ victims log → b ∉ victims log →
    ⟨a, b, false⟩ ∈ log
  victims : (victims log).Nodup
  final : Final log

theorem Schedule.covers {groups : List (List NodeId)} {log : List Comparison}
    (h : Schedule groups log) (hnodup : groups.flatten.Nodup) : Covers groups log where
  once := h.nodup_pairs hnodup
  within _ hmem := h.exists_sublist hmem
  unmixed _ hmem _ hgroup := h.mem_iff hnodup hmem hgroup
  complete _ hgroup _ _ hab := h.mem_of_stay hnodup hgroup hab
  victims := (h.oneStep hnodup).nodup
  final := h.final hnodup

end Reducer

theorem Encoding.nodup_groups (enc : Encoding) {classes : Classes}
    (h : classes.candidates.flatten.Nodup) : (enc.groups classes).flatten.Nodup := by
  rw [groups, ← List.filter_flatten]
  exact h.filter _

namespace Circuit

variable {σ : Type} {c d : Circuit} {oracle : Oracle σ} {start s : σ} {report : ReductionReport}

theorem exists_encode_of_reduceWith (h : c.reduceWith oracle start = (.ok report, d, s)) :
    ∃ enc, c.encode = .ok enc := by
  unfold Circuit.reduceWith at h
  split at h
  · cases h
  · next enc hencode => exact ⟨enc, hencode⟩

/-- A reduction that succeeds has asked about the pairs of each group without gaps and without
    repetitions, whatever the answers were, and its report counts them: the merges are the pairs
    found equal, the first taking in the second, and the others are the pairs that differ. -/
theorem reduceWith_covers {σ : Type} (ops : List Operation) (oracle : Oracle σ) (start : σ)
    {report : ReductionReport} {d : Circuit} {s : σ}
    (h : (empty.after ops).reduceWith oracle start = (.ok report, d, s)) :
    ∃ enc log, (empty.after ops).encode = .ok enc ∧
      (empty.after ops).reduceWith oracle.recorded (start, []) =
        (.ok report, d, s, enc.transcript log) ∧
      Reducer.Covers (enc.groups (empty.after ops).classes) log ∧
      (∀ victim survivor, (victim, survivor) ∈ report.merges ↔ ⟨survivor, victim, true⟩ ∈ log) ∧
      report.merges = Comparison.merges log ∧
      report.queries = log.length ∧
      report.queries = report.merges.length + report.disproved := by
  have hc := wellFormed_after ops
  obtain ⟨enc, hencode⟩ := exists_encode_of_reduceWith h
  obtain ⟨result, e, t, calls, hrecorded, hreduce, hending⟩ := hc.exists_ending hencode oracle start
  rw [h] at hreduce
  cases hreduce
  cases hending with
  | @finished log _ _ hlog _ _ =>
    have hnodup := enc.nodup_groups (nodup_candidates_after ops)
    exact ⟨enc, log, hencode, hrecorded, hlog.covers hnodup, fun _ _ => Comparison.mem_merges_iff,
      rfl, rfl, Comparison.length_eq log⟩

/-- An oracle that refutes the first question only. -/
def fickle : Oracle Nat where
  add _ := pure ()
  solve _ := fun asked => .ok (asked != 0) (asked + 1)

/-- The second gate goes into the first, and the third is compared with the first alone. -/
theorem reduceWith_covers_row :
    ((empty.after row).reduceWith fickle 0).1 = .ok ⟨[(4, 3)], 1, 2⟩ ∧
      ∃ enc log, (empty.after row).encode = .ok enc ∧
        Reducer.Covers (enc.groups (empty.after row).classes) log ∧
        Comparison.merges log = [(4, 3)] ∧ log.length = 2 := by
  have hreport : ((empty.after row).reduceWith fickle 0).1 = .ok ⟨[(4, 3)], 1, 2⟩ := by
    decide +kernel
  refine ⟨hreport, ?_⟩
  generalize hreduce : (empty.after row).reduceWith fickle 0 = outcome at hreport
  obtain ⟨_, d, s⟩ := outcome
  obtain rfl := hreport
  obtain ⟨enc, log, hencode, _, hcovers, _, hmerges, hqueries, _⟩ :=
    reduceWith_covers row fickle 0 hreduce
  exact ⟨enc, log, hencode, hcovers, hmerges.symm, hqueries.symm⟩

end Circuit

end AndInverter
