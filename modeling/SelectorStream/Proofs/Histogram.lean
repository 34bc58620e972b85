/-
# `SelectorStream.Proofs.Histogram` — the histogram of a log

The histogram is counted call by call.  A step touches the count of one kind
(`Log.lookup_increment`), and gives a kind a count at its first call only, so that no kind
has two (`Log.nodup_keys_increment`).  From this follows what the counts are after any
calls (`Log.lookup_tally`).

The kinds are counted in the order in which they come, and sorted afterwards.  Sorting
moves entries and changes none, and histograms with the same counts are the same list
(`Log.histogram_ext`), so that order is lost:

    Log.histogram_accounts
-/
import Mathlib.Algebra.GroupWithZero.Nat
import Mathlib.Data.List.Induction
import Mathlib.Data.List.Nodup
import SelectorStream.Log

namespace SelectorStream

theorem Kind.rank_inj {a b : Kind} : a.rank = b.rank ↔ a = b :=
  List.idxOf_inj (mem_all a)

namespace Log

/-! ## One more of a kind -/

theorem lookup_increment (kind other : Kind) (counts : List (Kind × Nat)) :
    (increment kind counts).lookup other =
      if other = kind then some ((counts.lookup kind).getD 0 + 1) else counts.lookup other := by
  induction counts with
  | nil =>
      rw [increment, List.lookup_cons]
      by_cases same : other = kind
      · simp [same]
      · simp [same, beq_false_of_ne same]
  | cons entry rest ih =>
      obtain ⟨first, n⟩ := entry
      rw [increment]
      by_cases atFirst : first = kind
      · subst atFirst
        by_cases same : other = first
        · simp [same]
        · simp [List.lookup_cons, same, beq_false_of_ne same]
      · have apart : (kind == first) = false := beq_false_of_ne (Ne.symm atFirst)
        rw [if_neg atFirst, List.lookup_cons, ih]
        by_cases same : other = kind
        · subst same
          simp [List.lookup_cons, apart]
        · simp [List.lookup_cons, same]

theorem keys_increment (kind : Kind) (counts : List (Kind × Nat)) :
    (increment kind counts).map Prod.fst =
      if kind ∈ counts.map Prod.fst then counts.map Prod.fst
      else counts.map Prod.fst ++ [kind] := by
  induction counts with
  | nil => rfl
  | cons entry rest ih =>
      obtain ⟨first, n⟩ := entry
      rw [increment]
      by_cases atFirst : first = kind
      · simp [atFirst]
      · rw [if_neg atFirst, List.map_cons, List.map_cons, ih]
        by_cases later : kind ∈ rest.map Prod.fst
        · rw [if_pos later, if_pos (List.mem_cons_of_mem _ later)]
        · rw [if_neg later, if_neg (List.not_mem_cons_of_ne_of_not_mem (Ne.symm atFirst) later),
            List.cons_append]

theorem nodup_keys_increment (kind : Kind) {counts : List (Kind × Nat)}
    (nodup : (counts.map Prod.fst).Nodup) : ((increment kind counts).map Prod.fst).Nodup := by
  rw [keys_increment]
  split
  · exact nodup
  · rename_i absent
    exact nodup.append (List.nodup_singleton kind) (List.disjoint_singleton.mpr absent)

theorem sum_increment (kind : Kind) (counts : List (Kind × Nat)) :
    ((increment kind counts).map Prod.snd).sum = (counts.map Prod.snd).sum + 1 := by
  induction counts with
  | nil => rfl
  | cons entry rest ih =>
      obtain ⟨first, n⟩ := entry
      rw [increment]
      split
      · simp only [List.map_cons, List.sum_cons]
        omega
      · simp only [List.map_cons, List.sum_cons, ih]
        omega

/-! ## Counting kinds one after the other -/

/-- How often a kind occurs, if it occurs. -/
def count? (kinds : List Kind) (kind : Kind) : Option Nat :=
  if kind ∈ kinds then some (kinds.count kind) else none

theorem count?_eq_some_iff {kinds : List Kind} {kind : Kind} {n : Nat} :
    count? kinds kind = some n ↔ kind ∈ kinds ∧ n = kinds.count kind := by
  rw [count?, Option.ite_none_right_eq_some, Option.some.injEq, eq_comm]

theorem getD_count? (kinds : List Kind) (kind : Kind) :
    (count? kinds kind).getD 0 = kinds.count kind := by
  rw [count?]
  split
  · rfl
  · rename_i absent
    exact (List.count_eq_zero.mpr absent).symm

theorem count?_concat (past : List Kind) (last kind : Kind) :
    count? (past ++ [last]) kind =
      if kind = last then some (past.count last + 1) else count? past kind := by
  by_cases same : kind = last
  · simp [count?, same]
  · simp [count?, List.count_append, same, Ne.symm same]

theorem tally_concat (past : List Kind) (last : Kind) :
    tally (past ++ [last]) = increment last (tally past) :=
  List.foldl_concat _ _ _ _

theorem lookup_tally (kinds : List Kind) (kind : Kind) :
    (tally kinds).lookup kind = count? kinds kind := by
  induction kinds using List.reverseRecOn generalizing kind with
  | nil => rfl
  | append_singleton past last ih =>
      rw [tally_concat, lookup_increment, ih last, ih kind, getD_count?, count?_concat]

theorem nodup_keys_tally (kinds : List Kind) : ((tally kinds).map Prod.fst).Nodup := by
  induction kinds using List.reverseRecOn with
  | nil => exact List.nodup_nil
  | append_singleton past last ih =>
      rw [tally_concat]
      exact nodup_keys_increment last ih

theorem sum_tally (kinds : List Kind) : ((tally kinds).map Prod.snd).sum = kinds.length := by
  induction kinds using List.reverseRecOn with
  | nil => rfl
  | append_singleton past last ih =>
      rw [tally_concat, sum_increment, ih, List.length_append, List.length_singleton]

/-! ## Counts in another order -/

theorem mem_iff_lookup_eq_some {counts : List (Kind × Nat)}
    (nodup : (counts.map Prod.fst).Nodup) (kind : Kind) (n : Nat) :
    (kind, n) ∈ counts ↔ counts.lookup kind = some n := by
  rw [List.lookup_eq_some_iff]
  constructor
  · intro hMem
    obtain ⟨before, after, rfl⟩ := List.mem_iff_append.mp hMem
    refine ⟨before, after, rfl, fun entry hEntry => ?_⟩
    rw [List.map_append, List.nodup_append] at nodup
    have apart := nodup.2.2 entry.1 (List.mem_map_of_mem hEntry) kind List.mem_cons_self
    exact bne_iff_ne.mpr (Ne.symm apart)
  · rintro ⟨before, after, rfl, _⟩
    exact List.mem_append_cons_self

theorem lookup_eq_of_perm {counts counts' : List (Kind × Nat)} (perm : counts.Perm counts')
    (nodup : (counts.map Prod.fst).Nodup) (kind : Kind) :
    counts.lookup kind = counts'.lookup kind := by
  have nodup' := (perm.map Prod.fst).nodup_iff.mp nodup
  ext n
  rw [← mem_iff_lookup_eq_some nodup, ← mem_iff_lookup_eq_some nodup', perm.mem_iff]

theorem histogram_perm_tally (log : Log) : log.histogram.Perm (tally log.kinds) :=
  List.mergeSort_perm _ _

theorem nodup_keys_histogram (log : Log) : (log.histogram.map Prod.fst).Nodup :=
  (log.histogram_perm_tally.map Prod.fst).nodup_iff.mpr (nodup_keys_tally log.kinds)

theorem lookup_histogram (log : Log) (kind : Kind) :
    log.histogram.lookup kind = count? log.kinds kind := by
  rw [lookup_eq_of_perm log.histogram_perm_tally log.nodup_keys_histogram, lookup_tally]

theorem sum_histogram (log : Log) : (log.histogram.map Prod.snd).sum = log.size := by
  rw [(log.histogram_perm_tally.map Prod.snd).sum_nat, sum_tally, size_eq_length_toList]
  simp only [kinds, events, List.length_map]

theorem pairwise_rank_histogram (log : Log) :
    log.histogram.Pairwise fun a b => a.1.rank ≤ b.1.rank := by
  have hTrans : ∀ a b c : Kind × Nat, decide (a.1.rank ≤ b.1.rank) = true →
      decide (b.1.rank ≤ c.1.rank) = true → decide (a.1.rank ≤ c.1.rank) = true := by
    simp only [decide_eq_true_eq]
    exact fun a b c => Nat.le_trans
  have hTotal : ∀ a b : Kind × Nat,
      (decide (a.1.rank ≤ b.1.rank) || decide (b.1.rank ≤ a.1.rank)) = true := by
    simp only [Bool.or_eq_true, decide_eq_true_eq]
    exact fun a b => Nat.le_total _ _
  exact (List.pairwise_mergeSort hTrans hTotal (tally log.kinds)).imp of_decide_eq_true

/-- Histograms that give every kind the same count are one list. -/
theorem histogram_ext {log log' : Log}
    (same : ∀ kind, log.histogram.lookup kind = log'.histogram.lookup kind) :
    log.histogram = log'.histogram := by
  have sameEntries (kind : Kind) (n : Nat) :
      (kind, n) ∈ log.histogram ↔ (kind, n) ∈ log'.histogram := by
    rw [mem_iff_lookup_eq_some log.nodup_keys_histogram,
      mem_iff_lookup_eq_some log'.nodup_keys_histogram, same]
  have perm : log.histogram.Perm log'.histogram :=
    (List.perm_ext_iff_of_nodup (.of_map _ log.nodup_keys_histogram)
      (.of_map _ log'.nodup_keys_histogram)).mpr fun entry => sameEntries entry.1 entry.2
  refine perm.eq_of_pairwise ?_ log.pairwise_rank_histogram log'.pairwise_rank_histogram
  rintro ⟨kind, n⟩ ⟨kind', n'⟩ hMem hMem' hle hle'
  obtain rfl : kind = kind' := Kind.rank_inj.mp (Nat.le_antisymm hle hle')
  rw [mem_iff_lookup_eq_some log.nodup_keys_histogram, same] at hMem
  rw [mem_iff_lookup_eq_some log'.nodup_keys_histogram, hMem] at hMem'
  rw [Option.some.inj hMem']

/-! ## The histogram of a log -/

def countOf (log : Log) (kind : Kind) : Nat :=
  (log.histogram.lookup kind).getD 0

theorem countOf_eq_count (log : Log) (kind : Kind) : log.countOf kind = log.kinds.count kind := by
  rw [countOf, lookup_histogram, getD_count?]

def append (log more : Log) : Log :=
  ⟨log.entries.pushAll more.toList⟩

theorem kinds_append (log more : Log) : (log.append more).kinds = log.kinds ++ more.kinds := by
  simp only [append, kinds, events, toList, Trail.toList_pushAll, List.map_append]

theorem count_kinds (log : Log) (kind : Kind) :
    log.kinds.count kind = log.toList.countP fun entry => entry.event.kind = kind := by
  rw [kinds, events, List.map_map, List.count_eq_countP, List.countP_map]
  rfl

theorem mem_histogram_iff (log : Log) (kind : Kind) (n : Nat) :
    (kind, n) ∈ log.histogram ↔ kind ∈ log.kinds ∧ n = log.kinds.count kind := by
  rw [mem_iff_lookup_eq_some log.nodup_keys_histogram, lookup_histogram, count?_eq_some_iff]

theorem histogram_eq_of_perm {log log' : Log} (perm : log.toList.Perm log'.toList) :
    log.histogram = log'.histogram := by
  have hKinds : log.kinds.Perm log'.kinds := (perm.map Entry.event).map Event.kind
  refine histogram_ext fun kind => ?_
  simp only [lookup_histogram, count?, hKinds.mem_iff, hKinds.count_eq]

/-- The histogram is an exact account of the calls.

It has an entry for a kind exactly if the kind occurs, one only, and the entry says how
many calls were of that kind, accepted or not; it never says zero.  The counts add up to
the size of the log.  When the calls of another log follow, its counts are added, kind by
kind.  In which order the calls came makes no difference. -/
theorem histogram_accounts (log : Log) :
    (∀ kind n, (kind, n) ∈ log.histogram ↔ kind ∈ log.kinds ∧ n = log.kinds.count kind) ∧
    (log.histogram.map Prod.fst).Nodup ∧
    (∀ kind, log.kinds.count kind = log.toList.countP fun entry => entry.event.kind = kind) ∧
    (∀ entry ∈ log.histogram, entry.2 ≠ 0) ∧
    (log.histogram.map Prod.snd).sum = log.size ∧
    (∀ more kind, (log.append more).countOf kind = log.countOf kind + more.countOf kind) ∧
    ∀ other : Log, other.toList.Perm log.toList → other.histogram = log.histogram := by
  refine ⟨log.mem_histogram_iff, log.nodup_keys_histogram, log.count_kinds, ?_,
    log.sum_histogram, ?_, fun other perm => histogram_eq_of_perm perm⟩
  · rintro ⟨kind, n⟩ hEntry
    obtain ⟨occurs, rfl⟩ := (log.mem_histogram_iff kind n).mp hEntry
    exact Nat.ne_of_gt (List.count_pos_iff.mpr occurs)
  · intro more kind
    rw [countOf_eq_count, countOf_eq_count, countOf_eq_count, kinds_append, List.count_append]

/-- A rejected call counts like the others, and the calls may have come in another order. -/
theorem histogram_of_three_calls :
    let log : Log := .ofList [⟨0, .init, true⟩, ⟨1, .selector, true⟩, ⟨2, .init, false⟩]
    let other : Log := .ofList [⟨2, .init, false⟩, ⟨0, .init, true⟩, ⟨1, .selector, true⟩]
    other.toList.Perm log.toList ∧ other.histogram = log.histogram ∧
      (.init, 2) ∈ log.histogram ∧ (log.histogram.map Prod.snd).sum = 3 := by
  intro log other
  have hPerm : other.toList.Perm log.toList := by decide
  obtain ⟨hMem, _, _, _, hSum, _, hOrder⟩ := histogram_accounts log
  exact ⟨hPerm, hOrder other hPerm, (hMem .init 2).mpr (by decide), hSum⟩

end Log

end SelectorStream
