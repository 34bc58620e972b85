/-
# `SelectorStream.Proofs.Stamps` — recorders that share a clock

A bench holds recorders on one clock.  Recorders are made, called and copied, and
the clock is ticked, in any order; a copy goes on by itself, but on the same
clock.  `Bench.perform` carries out one operation and says which stamp it took,
and `Bench.Reaches` are the histories of a bench.

`Bench.Moves` lists what an operation can do, and everything after it argues from
that list.  `Bench.Kept` is the invariant: what the clock has given out, what the
logs hold, and that the two agree as long as nothing is copied.

    Bench.stamps_never_lost
-/
import SelectorStream.Proofs.Course

namespace SelectorStream

def Recorder.stamps (r : Recorder) : List Nat :=
  r.log.toList.map Entry.stamp

/-! ## Operations -/

/-- What can be done on a bench.  Recorders go by their number. -/
inductive Operation where
  | create (faults : List (Kind × Nat))
  | call (i : Nat) (event : Event)
  | tick
  | copy (i : Nat)

namespace Operation

def takesStamp : Operation → Bool
  | .call _ _ | .tick => true
  | .create _ | .copy _ => false

def recorder? : Operation → Option Nat
  | .call i _ | .copy i => some i
  | .create _ | .tick => none

end Operation

structure Bench where
  clock : String
  recorders : List Recorder
  clocks : Clocks

namespace Bench

def fresh (clock : String) : Bench where
  clock := clock
  recorders := []
  clocks := Clocks.start {} clock

def now (b : Bench) : Nat :=
  b.clocks.now b.clock

/-- Carries out an operation: the stamp it took, if it took one, and the bench
after it.  The stamp of a call is the one that it left in the log.  There is no
result when no recorder has the number. -/
def perform (b : Bench) : Operation → Option (Option Nat × Bench)
  | .create faults =>
    some (none, { b with recorders := b.recorders ++ [Recorder.withFaults b.clock faults] })
  | .call i e =>
    b.recorders[i]?.map fun r =>
      let called := r.receive e b.clocks
      (called.state.stamps.getLast?,
        { b with recorders := b.recorders.set i called.state, clocks := called.world })
  | .tick =>
    let (stamp, clocks) := b.clocks.tick b.clock
    some (some stamp, { b with clocks })
  | .copy i => b.recorders[i]?.map fun r => (none, { b with recorders := b.recorders ++ [r] })

/-- Operations one after the other, each with the stamp it took, lead from one
bench to another. -/
inductive Reaches (start : Bench) : List (Operation × Option Nat) → Bench → Prop where
  | start : Reaches start [] start
  | next {past : List (Operation × Option Nat)} {b after : Bench} {stamp : Option Nat}
    (operation : Operation) : Reaches start past b →
    b.perform operation = some (stamp, after) → Reaches start (past ++ [(operation, stamp)]) after

def ticked (past : List (Operation × Option Nat)) : List Nat :=
  past.filterMap fun
    | (.tick, stamp) => stamp
    | _ => none

/-! ## One operation -/

inductive Moves (b : Bench) : Operation → Option Nat → Bench → Prop where
  | create {faults : List (Kind × Nat)} {r : Recorder} : r.clock = b.clock → r.stamps = [] →
    Moves b (.create faults) none { b with recorders := b.recorders ++ [r] }
  | call {i : Nat} {e : Event} {r r' : Recorder} {accepted : Bool} {clocks : Clocks} :
    b.recorders[i]? = some r → r'.clock = r.clock →
    r'.log.toList = r.log.toList ++ [⟨b.now, e, accepted⟩] →
    clocks.now b.clock = b.now + 1 →
    Moves b (.call i e) (some b.now) { b with recorders := b.recorders.set i r', clocks }
  | tick {clocks : Clocks} : clocks.now b.clock = b.now + 1 →
    Moves b .tick (some b.now) { b with clocks }
  | copy {i : Nat} {r : Recorder} : b.recorders[i]? = some r →
    Moves b (.copy i) none { b with recorders := b.recorders ++ [r] }

theorem stamps_of_entry {r r' : Recorder} {n : Nat} {e : Event} {accepted : Bool}
    (h : r'.log.toList = r.log.toList ++ [⟨n, e, accepted⟩]) : r'.stamps = r.stamps ++ [n] := by
  rw [Recorder.stamps, h, List.map_append]
  rfl

theorem moves_of_perform {b after : Bench} (hClock : ∀ r ∈ b.recorders, r.clock = b.clock)
    {operation : Operation} {stamp : Option Nat}
    (h : b.perform operation = some (stamp, after)) : b.Moves operation stamp after := by
  cases operation with
  | create faults =>
      obtain ⟨rfl, rfl⟩ := Prod.mk.inj (Option.some.inj h)
      exact .create rfl rfl
  | call i e =>
      obtain ⟨r, hr, hCalled⟩ := Option.map_eq_some_iff.mp h
      have hOwn : r.clock = b.clock := hClock r (List.mem_of_getElem? hr)
      obtain ⟨accepted, hEntry⟩ := r.exists_entry e b.clocks
      rw [hOwn] at hEntry
      obtain ⟨hStamp, rfl⟩ := Prod.mk.inj hCalled
      have hTaken : stamp = some b.now := by
        rw [← hStamp, stamps_of_entry hEntry, List.getLast?_concat]
        rfl
      rw [hTaken]
      refine .call hr rfl hEntry ?_
      show (b.clocks.tick r.clock).2.now b.clock = _
      rw [hOwn, Clocks.now_tick_self]
      rfl
  | tick =>
      obtain ⟨hStamp, rfl⟩ := Prod.mk.inj (Option.some.inj h)
      have hTaken : stamp = some b.now := by
        rw [← hStamp, Clocks.now_start]
        rfl
      rw [hTaken]
      exact .tick (b.clocks.now_tick_self b.clock)
  | copy i =>
      obtain ⟨r, hr, hCopied⟩ := Option.map_eq_some_iff.mp h
      obtain ⟨rfl, rfl⟩ := Prod.mk.inj hCopied
      exact .copy hr

theorem exists_perform {b : Bench} {operation : Operation}
    (h : ∀ i ∈ operation.recorder?, i < b.recorders.length) :
    ∃ stamp after, b.perform operation = some (stamp, after) := by
  cases operation with
  | create faults => exact ⟨_, _, rfl⟩
  | call i e =>
      have hr := List.getElem?_eq_getElem (h i rfl)
      exact ⟨_, _, Option.map_eq_some_iff.mpr ⟨_, hr, rfl⟩⟩
  | tick => exact ⟨_, _, rfl⟩
  | copy i =>
      have hr := List.getElem?_eq_getElem (h i rfl)
      exact ⟨_, _, Option.map_eq_some_iff.mpr ⟨_, hr, rfl⟩⟩

namespace Moves

variable {b after : Bench} {operation : Operation} {stamp : Option Nat}

/-- An operation that takes a stamp takes the reading of the clock, which moves
on by one. -/
theorem stamp_eq (moves : b.Moves operation stamp after) :
    stamp = (if operation.takesStamp then some b.now else none) ∧
      after.now = b.now + if operation.takesStamp then 1 else 0 := by
  cases moves with
  | create _ _ => exact ⟨rfl, rfl⟩
  | call _ _ _ hNow => exact ⟨rfl, hNow⟩
  | tick hNow => exact ⟨rfl, hNow⟩
  | copy _ => exact ⟨rfl, rfl⟩

theorem recorder_eq (moves : b.Moves operation stamp after) {j : Nat}
    (hOther : ∀ e, operation ≠ .call j e) (hj : j < b.recorders.length) :
    after.recorders[j]? = b.recorders[j]? := by
  cases moves with
  | create _ _ => exact List.getElem?_append_left hj
  | @call i e r r' accepted clocks hr _ _ _ =>
      have hne : i ≠ j := fun h => hOther e (h ▸ rfl)
      exact List.getElem?_set_ne hne
  | tick _ => rfl
  | copy _ => exact List.getElem?_append_left hj

theorem entry {i : Nat} {e : Event} (moves : b.Moves (.call i e) stamp after) :
    ∃ r r' accepted, b.recorders[i]? = some r ∧ after.recorders[i]? = some r' ∧
      r'.log.toList = r.log.toList ++ [⟨b.now, e, accepted⟩] := by
  cases moves with
  | @call _ _ r r' accepted clocks hr _ hEntry _ =>
      have hi : i < b.recorders.length := (List.getElem?_eq_some_iff.mp hr).1
      exact ⟨r, r', accepted, hr, List.getElem?_set_self hi, hEntry⟩

theorem copied {i : Nat} (moves : b.Moves (.copy i) stamp after) :
    after.recorders[b.recorders.length]? = b.recorders[i]? := by
  cases moves with
  | copy hr => rw [hr]; exact List.getElem?_concat_length

end Moves

/-! ## What is kept -/

/-- What holds of a bench with a history. -/
structure Kept (past : List (Operation × Option Nat)) (b : Bench) : Prop where
  clock : ∀ r ∈ b.recorders, r.clock = b.clock
  taken : past.filterMap Prod.snd = List.range b.now
  count : b.now = past.countP fun done => done.1.takesStamp
  logs : ∀ r ∈ b.recorders, r.stamps.Pairwise (· < ·) ∧ ∀ stamp ∈ r.stamps, stamp < b.now
  /-- Without copies every stamp is in one place. -/
  shared : (∀ i stamp, (.copy i, stamp) ∉ past) →
    (b.recorders.flatMap Recorder.stamps ++ ticked past).Perm (List.range b.now)

/-- A recorder with one more stamp adds this stamp to those of its row. -/
theorem perm_flatMap_set {r r' : Recorder} {n : Nat} (h : r'.stamps = r.stamps ++ [n]) :
    ∀ (row : List Recorder) (i : Nat), row[i]? = some r →
      ((row.set i r').flatMap Recorder.stamps).Perm (row.flatMap Recorder.stamps ++ [n]) := by
  intro row
  induction row with
  | nil => intro i hr; cases hr
  | cons first row ih =>
      intro i hr
      cases i with
      | zero =>
          obtain rfl := Option.some.inj hr
          rw [List.set_cons_zero, List.flatMap_cons, List.flatMap_cons, h, List.append_assoc,
            List.append_assoc]
          exact List.perm_append_comm.append_left _
      | succ i =>
          rw [List.set_cons_succ, List.flatMap_cons, List.flatMap_cons, List.append_assoc]
          exact (ih i hr).append_left _

theorem kept_fresh (clock : String) : Kept [] (fresh clock) := by
  have hNow : (fresh clock).now = 0 := Clocks.now_start {} clock clock
  refine ⟨List.forall_mem_nil _, ?_, hNow, List.forall_mem_nil _, fun _ => ?_⟩
  · rw [hNow]
    rfl
  · rw [hNow]
    exact .nil

section Step

open scoped List

variable {past : List (Operation × Option Nat)} {b after : Bench} {operation : Operation}
  {stamp : Option Nat}

theorem taken_concat (kept : Kept past b) (moves : b.Moves operation stamp after) :
    (past ++ [(operation, stamp)]).filterMap Prod.snd = List.range after.now ∧
      after.now = (past ++ [(operation, stamp)]).countP fun done => done.1.takesStamp := by
  obtain ⟨rfl, hNow⟩ := moves.stamp_eq
  rw [List.filterMap_append, kept.taken, List.countP_append, ← kept.count, List.countP_singleton,
    hNow]
  cases operation.takesStamp with
  | true => exact ⟨List.range_succ.symm, rfl⟩
  | false => exact ⟨List.append_nil _, rfl⟩

theorem logs_after (kept : Kept past b) (moves : b.Moves operation stamp after) :
    ∀ r ∈ after.recorders, r.stamps.Pairwise (· < ·) ∧ ∀ taken ∈ r.stamps, taken < after.now := by
  intro other hm
  have hNow := moves.stamp_eq.2
  have earlier : other ∈ b.recorders →
      other.stamps.Pairwise (· < ·) ∧ ∀ taken ∈ other.stamps, taken < after.now := fun hm => by
    obtain ⟨hIncreasing, hBelow⟩ := kept.logs other hm
    exact ⟨hIncreasing, fun taken ht => hNow ▸ Nat.lt_add_right _ (hBelow taken ht)⟩
  cases moves with
  | create _ hNew =>
      rcases List.mem_append.mp hm with hm | hm
      · exact earlier hm
      · rw [List.mem_singleton.mp hm, hNew]
        exact ⟨.nil, List.forall_mem_nil _⟩
  | @call i e r r' accepted clocks hr _ hEntry hClocks =>
      rcases List.mem_or_eq_of_mem_set hm with hm | rfl
      · exact earlier hm
      · obtain ⟨hIncreasing, hBelow⟩ := kept.logs r (List.mem_of_getElem? hr)
        rw [stamps_of_entry hEntry]
        refine ⟨List.pairwise_append.mpr ⟨hIncreasing, List.pairwise_singleton _ _, ?_⟩, ?_⟩
        · intro taken ht last hLast
          rw [List.mem_singleton.mp hLast]
          exact hBelow taken ht
        · intro taken ht
          rw [hNow]
          rcases List.mem_append.mp ht with ht | ht
          · exact Nat.lt_succ_of_lt (hBelow taken ht)
          · rw [List.mem_singleton.mp ht]
            exact Nat.lt_succ_self _
  | tick _ => exact earlier hm
  | copy hr =>
      rcases List.mem_append.mp hm with hm | hm
      · exact earlier hm
      · exact earlier (List.mem_singleton.mp hm ▸ List.mem_of_getElem? hr)

theorem shared_concat (kept : Kept past b) (moves : b.Moves operation stamp after)
    (h : ∀ i taken, (.copy i, taken) ∉ past ++ [(operation, stamp)]) :
    (after.recorders.flatMap Recorder.stamps ++ ticked (past ++ [(operation, stamp)])).Perm
      (List.range after.now) := by
  have before := kept.shared fun i taken hm => h i taken (List.mem_append_left _ hm)
  have hNow := moves.stamp_eq.2
  rw [ticked, List.filterMap_append, ← ticked]
  cases moves with
  | @create faults r _ hNew =>
      rw [List.flatMap_append, List.flatMap_singleton, hNew, List.append_nil]
      exact (List.append_nil (ticked past)).symm ▸ before
  | @call i e r r' accepted clocks hr _ hEntry _ =>
      have added := perm_flatMap_set (stamps_of_entry hEntry) b.recorders i hr
      rw [hNow]
      calc (b.recorders.set i r').flatMap Recorder.stamps ++ (ticked past ++ [])
          _ = (b.recorders.set i r').flatMap Recorder.stamps ++ ticked past := by
            rw [List.append_nil]
          _ ~ b.recorders.flatMap Recorder.stamps ++ [b.now] ++ ticked past :=
            added.append_right _
          _ ~ b.recorders.flatMap Recorder.stamps ++ ticked past ++ [b.now] := by
            rw [List.append_assoc, List.append_assoc]
            exact List.perm_append_comm.append_left _
          _ ~ List.range b.now ++ [b.now] := before.append_right _
          _ = List.range (b.now + 1) := List.range_succ.symm
  | tick _ =>
      rw [hNow]
      calc b.recorders.flatMap Recorder.stamps ++ (ticked past ++ [b.now])
          _ = b.recorders.flatMap Recorder.stamps ++ ticked past ++ [b.now] :=
            (List.append_assoc _ _ _).symm
          _ ~ List.range b.now ++ [b.now] := before.append_right _
          _ = List.range (b.now + 1) := List.range_succ.symm
  | copy _ => exact absurd List.mem_concat_self (h _ none)

theorem Kept.perform (kept : Kept past b) (h : b.perform operation = some (stamp, after)) :
    Kept (past ++ [(operation, stamp)]) after := by
  have moves := moves_of_perform kept.clock h
  obtain ⟨hTaken, hCount⟩ := taken_concat kept moves
  refine ⟨?_, hTaken, hCount, logs_after kept moves, shared_concat kept moves⟩
  cases moves with
  | create hClock _ =>
      intro other hm
      rcases List.mem_append.mp hm with hm | hm
      · exact kept.clock other hm
      · exact List.mem_singleton.mp hm ▸ hClock
  | call hr hClock _ _ =>
      intro other hm
      rcases List.mem_or_eq_of_mem_set hm with hm | rfl
      · exact kept.clock other hm
      · exact hClock.trans (kept.clock _ (List.mem_of_getElem? hr))
  | tick _ => exact kept.clock
  | copy hr =>
      intro other hm
      rcases List.mem_append.mp hm with hm | hm
      · exact kept.clock other hm
      · exact kept.clock other (List.mem_singleton.mp hm ▸ List.mem_of_getElem? hr)

end Step

theorem kept_of_reaches {clock : String} {past : List (Operation × Option Nat)} {b : Bench}
    (reaches : (fresh clock).Reaches past b) : Kept past b := by
  induction reaches with
  | start => exact kept_fresh clock
  | next _ _ hPerform ih => exact ih.perform hPerform

/-- Stamps are never lost and never repeated.

Any number of recorders, with any faults, share a new clock; they are made, called
and copied and the clock is ticked, in any order.  Then the stamps taken are 0,
1, 2 and so on in the order of the operations, and the reading of the clock is
the number of calls and ticks.  In each log, those of copies included, the stamps
increase and are below the reading, and as long as nothing is copied the stamps
of all logs and of the ticks are those given out, once each.

Whatever the next operation is, as long as its recorder is there, it takes the
reading of the clock as its stamp if it is a call or a tick, and none otherwise.
A call leaves one entry with that stamp, a copy is like its original, and every
recorder that is not called stays as it is. -/
theorem stamps_never_lost {clock : String} {past : List (Operation × Option Nat)} {b : Bench}
    (reaches : (fresh clock).Reaches past b) :
    past.filterMap Prod.snd = List.range b.now ∧
      (b.now = past.countP fun done => done.1.takesStamp) ∧
      (∀ r ∈ b.recorders, r.stamps.Pairwise (· < ·) ∧ ∀ stamp ∈ r.stamps, stamp < b.now) ∧
      ((∀ i stamp, (.copy i, stamp) ∉ past) →
        (b.recorders.flatMap Recorder.stamps ++ ticked past).Perm (List.range b.now)) ∧
      ∀ operation : Operation, (∀ i ∈ operation.recorder?, i < b.recorders.length) →
        ∃ stamp after, b.perform operation = some (stamp, after) ∧
          stamp = (if operation.takesStamp then some b.now else none) ∧
          (after.now = b.now + if operation.takesStamp then 1 else 0) ∧
          (∀ i e, operation = .call i e → ∃ r r' accepted, b.recorders[i]? = some r ∧
            after.recorders[i]? = some r' ∧
            r'.log.toList = r.log.toList ++ [⟨b.now, e, accepted⟩]) ∧
          (∀ i, operation = .copy i →
            after.recorders[b.recorders.length]? = b.recorders[i]?) ∧
          ∀ j < b.recorders.length, (∀ e, operation ≠ .call j e) →
            after.recorders[j]? = b.recorders[j]? := by
  have kept := kept_of_reaches reaches
  refine ⟨kept.taken, kept.count, kept.logs, kept.shared, fun operation hThere => ?_⟩
  obtain ⟨stamp, after, hPerform⟩ := exists_perform hThere
  have moves := moves_of_perform kept.clock hPerform
  obtain ⟨hStamp, hNow⟩ := moves.stamp_eq
  refine ⟨stamp, after, hPerform, hStamp, hNow, ?_, ?_, fun j hj hOther =>
    moves.recorder_eq hOther hj⟩
  · rintro i e rfl
    exact moves.entry
  · rintro i rfl
    exact moves.copied

/-- Two recorders, one of which rejects its first call, and a tick between the
calls: each of the three stamps is in one place, and the next call takes 3. -/
theorem stamps_of_two_recorders :
    ∃ past b, (fresh "main").Reaches past b ∧
      b.recorders.map Recorder.stamps = [[0], [2]] ∧ ticked past = [1] ∧
      (b.recorders.flatMap Recorder.stamps ++ ticked past).Perm (List.range b.now) ∧
      ∃ after, b.perform (.call 1 .selector) = some (some 3, after) ∧
        after.recorders.map Recorder.stamps = [[0], [2, 3]] := by
  have bare : (fresh "main").Reaches [] (fresh "main") := .start
  have made := (bare.next (.create []) rfl).next (.create [(.init, 1)]) rfl
  have reaches := ((made.next (.call 0 .init) rfl).next .tick rfl).next (.call 1 .init) rfl
  obtain ⟨_, _, _, hShared, hNext⟩ := stamps_never_lost reaches
  obtain ⟨_, after, hPerform, rfl, _⟩ := hNext (.call 1 .selector) (by rintro _ ⟨⟩; decide)
  have hAfter := (Prod.mk.inj (Option.some.inj hPerform)).2
  refine ⟨_, _, reaches, rfl, rfl, hShared ?_, after, hPerform, hAfter ▸ rfl⟩
  intro i stamp hm
  simp at hm

end Bench

end SelectorStream
