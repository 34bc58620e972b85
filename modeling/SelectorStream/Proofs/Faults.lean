/-
# `SelectorStream.Proofs.Faults` — which calls a recorder rejects

Every fault of a recorder counts the calls of its kind by itself, the rejected ones
included.  So its counter is the number of such calls (`Recorder.faults_after`), and
it fires when this number is the one it was given, which happens once or never
(`Recorder.firings_withFaults`).

What the clocks read has no part in this.  `Recorder.after` lets every call find
clocks of its own, and the answers are the same whatever they are.  A copy that
shares its clock with others therefore answers as its original would have.

    Recorder.rejects_chosen_calls
-/
import SelectorStream.Proofs.Stamps

namespace SelectorStream

/-! ## Calls of a kind -/

def occurrences (kind : Kind) (calls : List (Event × Clocks)) : Nat :=
  calls.countP fun call => call.1.kind = kind

theorem occurrences_cons (kind : Kind) (e : Event) (clocks : Clocks)
    (calls : List (Event × Clocks)) :
    occurrences kind ((e, clocks) :: calls) =
      occurrences kind calls + if e.kind = kind then 1 else 0 := by
  simp [occurrences, List.countP_cons]

theorem occurrences_eq_of_events_eq {calls calls' : List (Event × Clocks)}
    (h : calls.map Prod.fst = calls'.map Prod.fst) (kind : Kind) :
    occurrences kind calls = occurrences kind calls' := by
  have hCount : ∀ calls : List (Event × Clocks),
      occurrences kind calls = (calls.map Prod.fst).countP fun e => e.kind = kind := by
    intro calls
    rw [List.countP_map]
    rfl
  rw [hCount, hCount, h]

/-! ## Recorders after calls -/

theorem Fault.observe_eq (kind : Kind) (fault : Fault) :
    fault.observe kind =
      { fault with seen := fault.seen + if kind = fault.kind then 1 else 0 } := by
  by_cases h : kind = fault.kind <;> simp [observe, h, eq_comm]

namespace Recorder

/-- A recorder after calls.  Each call finds the clocks as they are at that time,
others may have moved them meanwhile. -/
def after (r : Recorder) : List (Event × Clocks) → Recorder
  | [] => r
  | (e, clocks) :: rest => (r.receive e clocks).state.after rest

def answers (r : Recorder) : List (Event × Clocks) → List (Answer Rejection)
  | [] => []
  | (e, clocks) :: rest =>
    let called := r.receive e clocks
    called.answer :: called.state.answers rest

/-- In how many of the calls the fault with a number fires. -/
def firings (k : Nat) (r : Recorder) : List (Event × Clocks) → Nat
  | [] => 0
  | (e, clocks) :: rest =>
    let called := r.receive e clocks
    called.state.firings k rest + if called.state.faults[k]?.any (Fault.fires e.kind) then 1 else 0

theorem after_append (r : Recorder) (calls later : List (Event × Clocks)) :
    r.after (calls ++ later) = (r.after calls).after later := by
  induction calls generalizing r with
  | nil => rfl
  | cons call rest ih => exact ih _

theorem clock_after (r : Recorder) (calls : List (Event × Clocks)) :
    (r.after calls).clock = r.clock := by
  induction calls generalizing r with
  | nil => rfl
  | cons call rest ih => exact ih _

theorem faults_after (r : Recorder) (calls : List (Event × Clocks)) :
    (r.after calls).faults =
      r.faults.map fun fault =>
        { fault with seen := fault.seen + occurrences fault.kind calls } := by
  induction calls generalizing r with
  | nil => exact (List.map_id' r.faults).symm
  | cons call rest ih =>
      obtain ⟨e, clocks⟩ := call
      rw [after, ih]
      show (r.faults.map (Fault.observe e.kind)).map _ = _
      rw [List.map_map]
      refine List.map_congr_left fun fault _ => ?_
      simp only [Function.comp_apply, Fault.observe_eq, occurrences_cons]
      rw [Nat.add_assoc, Nat.add_comm (occurrences fault.kind rest)]

theorem log_after (r : Recorder) (calls : List (Event × Clocks)) :
    (r.after calls).log.events = r.log.events ++ calls.map Prod.fst ∧
      (r.after calls).log.toList.map Entry.accepted =
        r.log.toList.map Entry.accepted ++ (r.answers calls).map Except.isOk := by
  induction calls generalizing r with
  | nil => exact ⟨(List.append_nil _).symm, (List.append_nil _).symm⟩
  | cons call rest ih =>
      obtain ⟨e, clocks⟩ := call
      obtain ⟨hEvents, hAccepted⟩ := ih (r.receive e clocks).state
      have hEntry := r.toList_log_receive e clocks
      constructor
      · rw [after, hEvents, Log.events, hEntry, List.map_append, List.append_assoc]
        rfl
      · rw [after, hAccepted, hEntry, List.map_append, List.append_assoc]
        rfl

/-! ## Faults that fire -/

theorem answer_receive (e : Event) (r : Recorder) (clocks : Clocks) :
    (r.receive e clocks).answer =
      if ∃ fault ∈ r.faults, fault.kind = e.kind ∧ fault.seen + 1 = fault.occurrence then
        .error (.unsupported e.kind)
      else .ok () := by
  have hFires : (r.faults.map (Fault.observe e.kind)).any (Fault.fires e.kind) = true ↔
      ∃ fault ∈ r.faults, fault.kind = e.kind ∧ fault.seen + 1 = fault.occurrence := by
    simp only [List.any_map, List.any_eq_true, Function.comp_apply, Fault.observe_eq, Fault.fires,
      Bool.and_eq_true, decide_eq_true_eq]
    refine exists_congr fun fault => and_congr_right fun _ => and_congr_right fun h => ?_
    rw [if_pos h.symm]
  simp only [receive]
  exact if_congr hFires rfl rfl

/-- A recorder with given faults rejects a call exactly if one of them names its kind
and its number among the calls of that kind. -/
theorem answer_after (clock : String) (faults : List (Kind × Nat)) (past : List (Event × Clocks))
    (e : Event) (clocks : Clocks) :
    (((withFaults clock faults).after past).receive e clocks).answer =
      if (e.kind, occurrences e.kind past + 1) ∈ faults then .error (.unsupported e.kind)
      else .ok () := by
  rw [answer_receive, faults_after]
  refine if_congr ?_ rfl rfl
  simp only [withFaults, List.map_map, List.mem_map, Function.comp_apply, Prod.exists]
  constructor
  · rintro ⟨_, ⟨kind, n, hm, rfl⟩, hKind, hCount⟩
    rw [Nat.zero_add] at hCount
    rw [← hKind, hCount]
    exact hm
  · intro hm
    exact ⟨_, ⟨_, _, hm, rfl⟩, rfl, by simp⟩

theorem firings_eq {r : Recorder} {k : Nat} {fault : Fault} (h : r.faults[k]? = some fault)
    (calls : List (Event × Clocks)) :
    r.firings k calls =
      if fault.seen < fault.occurrence ∧
          fault.occurrence ≤ fault.seen + occurrences fault.kind calls then 1 else 0 := by
  induction calls generalizing r fault with
  | nil =>
      have hNever : ¬ (fault.seen < fault.occurrence ∧
          fault.occurrence ≤ fault.seen + occurrences fault.kind []) := by
        simp only [occurrences, List.countP_nil]
        omega
      rw [if_neg hNever]
      rfl
  | cons call rest ih =>
      obtain ⟨e, clocks⟩ := call
      have hNext : (r.receive e clocks).state.faults[k]? = some (fault.observe e.kind) := by
        show (r.faults.map (Fault.observe e.kind))[k]? = _
        rw [List.getElem?_map, h]
        rfl
      simp only [firings, ih hNext, hNext, Option.any_some, Fault.observe_eq, Fault.fires,
        occurrences_cons, Bool.and_eq_true, decide_eq_true_eq]
      by_cases hKind : e.kind = fault.kind
      · simp only [hKind, if_true, true_and]
        split_ifs <;> omega
      · simp only [hKind, Ne.symm hKind, if_false, false_and, Nat.add_zero]

theorem firings_withFaults (clock : String) {faults : List (Kind × Nat)} {k : Nat} {kind : Kind}
    {n : Nat} (h : faults[k]? = some (kind, n)) (calls : List (Event × Clocks)) :
    (withFaults clock faults).firings k calls =
      if 1 ≤ n ∧ n ≤ occurrences kind calls then 1 else 0 := by
  have hFault : (withFaults clock faults).faults[k]? = some { kind, occurrence := n } := by
    show (faults.map _)[k]? = _
    rw [List.getElem?_map, h]
    rfl
  rw [firings_eq hFault]
  simp only [Nat.zero_add, Nat.succ_le_iff]

/-! ## Copies -/

/-- Recorders with the same faults answer the same calls alike, whatever their logs hold
and their clocks read. -/
theorem answer_eq_of_faults_eq {r r' : Recorder} (h : r.faults = r'.faults)
    {calls calls' : List (Event × Clocks)} (hEvents : calls.map Prod.fst = calls'.map Prod.fst)
    (e : Event) (clocks clocks' : Clocks) :
    ((r.after calls).receive e clocks).answer = ((r'.after calls').receive e clocks').answer := by
  have hFaults : (r.after calls).faults = (r'.after calls').faults := by
    rw [faults_after, faults_after, h]
    refine List.map_congr_left fun fault _ => ?_
    rw [occurrences_eq_of_events_eq hEvents]
  rw [answer_receive, answer_receive, hFaults]

end Recorder

def Operation.heardBy? (j : Nat) : Operation → Option Event
  | .call i e => if i = j then some e else none
  | .create _ | .tick | .copy _ => none

namespace Bench

theorem recorder_of_perform {b after : Bench} {operation : Operation} {stamp : Option Nat}
    (h : b.perform operation = some (stamp, after)) {j : Nat} {r : Recorder}
    (hr : b.recorders[j]? = some r) :
    after.recorders[j]? =
      some (r.after ((operation.heardBy? j).toList.map fun e => (e, b.clocks))) := by
  have hj : j < b.recorders.length := (List.getElem?_eq_some_iff.mp hr).1
  cases operation with
  | create faults =>
      obtain ⟨rfl, rfl⟩ := Prod.mk.inj (Option.some.inj h)
      exact (List.getElem?_append_left hj).trans hr
  | call i e =>
      obtain ⟨own, hOwn, hCalled⟩ := Option.map_eq_some_iff.mp h
      obtain ⟨_, rfl⟩ := Prod.mk.inj hCalled
      by_cases hSame : i = j
      · subst hSame
        obtain rfl := Option.some.inj (hOwn.symm.trans hr)
        rw [Operation.heardBy?, if_pos rfl]
        exact List.getElem?_set_self hj
      · rw [Operation.heardBy?, if_neg hSame]
        exact (List.getElem?_set_ne hSame).trans hr
  | tick =>
      obtain ⟨_, rfl⟩ := Prod.mk.inj (Option.some.inj h)
      exact hr
  | copy i =>
      obtain ⟨own, _, hCopied⟩ := Option.map_eq_some_iff.mp h
      obtain ⟨_, rfl⟩ := Prod.mk.inj hCopied
      exact (List.getElem?_append_left hj).trans hr

theorem recorder_of_reaches {start b : Bench} {done : List (Operation × Option Nat)}
    (reaches : start.Reaches done b) {j : Nat} {r : Recorder}
    (hr : start.recorders[j]? = some r) :
    ∃ calls, calls.map Prod.fst = done.filterMap (fun step => step.1.heardBy? j) ∧
      b.recorders[j]? = some (r.after calls) := by
  induction reaches with
  | start => exact ⟨[], rfl, hr⟩
  | @next past b after stamp operation _ hPerform ih =>
      obtain ⟨calls, hEvents, hb⟩ := ih
      refine ⟨calls ++ (operation.heardBy? j).toList.map fun e => (e, b.clocks), ?_, ?_⟩
      · rw [List.map_append, hEvents, List.filterMap_append]
        cases hHeard : operation.heardBy? j <;> simp [hHeard]
      · rw [Recorder.after_append]
        exact recorder_of_perform hPerform hb

theorem exists_copy {b : Bench} {i : Nat} {r : Recorder} (hr : b.recorders[i]? = some r) :
    ∃ copied, b.perform (.copy i) = some (none, copied) ∧
      ∀ done later, copied.Reaches done later → ∃ calls,
        calls.map Prod.fst = done.filterMap (fun step => step.1.heardBy? b.recorders.length) ∧
          later.recorders[b.recorders.length]? = some (r.after calls) := by
  refine ⟨{ b with recorders := b.recorders ++ [r] }, Option.map_eq_some_iff.mpr ⟨r, hr, rfl⟩,
    fun done later reaches => ?_⟩
  exact recorder_of_reaches reaches List.getElem?_concat_length

end Bench

namespace Recorder

/-- A recorder rejects the calls that its faults choose, and no others.

It is made with any faults and gets any calls, while its clock may be moved by others.
Then its log has one entry for each call, in order, with the event and the outcome.  A
call is rejected, as unsupported, exactly if some fault names its kind and its number
among the calls of that kind, the rejected ones included.  Each fault fires once, when
its number comes, or never; the number zero never comes.

A copy that is made on a bench at any time answers as its original would have: whatever
is done on the bench since, its answer to a call depends on its own calls only. -/
theorem rejects_chosen_calls (clock : String) (faults : List (Kind × Nat))
    (past : List (Event × Clocks)) :
    let made := withFaults clock faults
    let before := made.after past
    before.log.events = past.map Prod.fst ∧
      before.log.toList.map Entry.accepted = (made.answers past).map Except.isOk ∧
      (∀ e clocks,
        let called := before.receive e clocks
        (called.answer =
          if (e.kind, occurrences e.kind past + 1) ∈ faults then .error (.unsupported e.kind)
          else .ok ()) ∧
        called.state.log.toList =
          before.log.toList ++ [⟨clocks.now clock, e, called.answer.isOk⟩]) ∧
      (∀ (k : Nat) (kind : Kind) (n : Nat), faults[k]? = some (kind, n) →
        made.firings k past = if 1 ≤ n ∧ n ≤ occurrences kind past then 1 else 0) ∧
      ∀ (b : Bench) (i : Nat), b.recorders[i]? = some before →
        ∃ copied, b.perform (.copy i) = some (none, copied) ∧
          ∀ done later, copied.Reaches done later →
            ∃ copy, later.recorders[b.recorders.length]? = some copy ∧
              ∀ calls : List (Event × Clocks),
                calls.map Prod.fst =
                  done.filterMap (fun step => step.1.heardBy? b.recorders.length) →
                ∀ e clocks clocks',
                  (copy.receive e clocks).answer =
                    ((before.after calls).receive e clocks').answer := by
  intro made before
  obtain ⟨hEvents, hAccepted⟩ := log_after made past
  refine ⟨hEvents, hAccepted, fun e clocks => ⟨?_, ?_⟩,
    fun k kind n h => firings_withFaults clock h past, fun b i hBefore => ?_⟩
  · exact answer_after clock faults past e clocks
  · rw [toList_log_receive, clock_after]
    rfl
  · obtain ⟨copied, hCopied, hLater⟩ := Bench.exists_copy hBefore
    refine ⟨copied, hCopied, fun done later reaches => ?_⟩
    obtain ⟨own, hOwn, hCopy⟩ := hLater done later reaches
    refine ⟨_, hCopy, fun calls hCalls e clocks clocks' => ?_⟩
    exact answer_eq_of_faults_eq rfl (hOwn.trans hCalls.symm) e clocks clocks'

/-- The first call is rejected and counts all the same, so the third one is the next to be
rejected; the call of another kind between them does not count. -/
example :
    let faults := [(.filter .identifier, 1), (.filter .identifier, 3), (.filter .styleClass, 0)]
    let id := Event.filter (.identifier "a")
    let stream := [id, id, .filter (.styleClass "b"), id, id]
    ((withFaults "main" faults).answers (stream.map fun e => (e, {}))).map Except.isOk =
      [false, true, true, false, true] := by
  decide

end Recorder

end SelectorStream
