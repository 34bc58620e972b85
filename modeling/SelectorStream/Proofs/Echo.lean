/-
# `SelectorStream.Proofs.Echo` — the logs of two recorders under one tee

Two recorders on one clock stand under a tee that nobody else shares the clock with.
What the primary side accepts goes to the secondary side at once, so the secondary log
is an echo of the primary one: the accepted entries, in order, each with the next stamp.
`Log.Echoes` says this, and a call keeps it whatever the recorders reject
(`Twinned.deliver`).

An echo is as long as its original exactly if nothing was rejected.  As `Log.isBefore`
compares logs entry by entry, this decides how the two logs compare:

    Relay.isBefore_iff_primary_accepts
-/
import Mathlib.Data.List.Induction
import SelectorStream.Proofs.Journal
import SelectorStream.Proofs.Precedence
import SelectorStream.Recorder

namespace SelectorStream

/-! ## Logs and their echoes -/

namespace Log

/-- A log repeats what another one says was accepted, each entry one stamp later. -/
def Echoes (theirs ours : Log) : Prop :=
  theirs.toList.map (fun entry => (entry.event, entry.stamp)) =
    (ours.toList.filter Entry.accepted).map fun entry => (entry.event, entry.stamp + 1)

namespace Echoes

variable {ours theirs : Log}

theorem length_eq_iff (echoes : theirs.Echoes ours) :
    ours.toList.length = theirs.toList.length ↔ ∀ entry ∈ ours.toList, entry.accepted = true := by
  have hLength := congrArg List.length echoes
  rw [List.length_map, List.length_map] at hLength
  rw [hLength, eq_comm, List.length_filter_eq_length_iff]

theorem isBefore_iff (echoes : theirs.Echoes ours) :
    ours.isBefore theirs = true ↔ ∀ entry ∈ ours.toList, entry.accepted = true := by
  constructor
  · intro h
    exact echoes.length_eq_iff.mp ((isBefore_iff_forall₂ _ _).mp h).length_eq
  · intro hAll
    have hEntries := echoes
    rw [Echoes, List.filter_eq_self.mpr hAll] at hEntries
    have hPairs : List.Forall₂ Eq (ours.toList.map fun entry => (entry.event, entry.stamp + 1))
        (theirs.toList.map fun entry => (entry.event, entry.stamp)) := by
      rw [List.forall₂_eq_eq_eq]
      exact hEntries.symm
    rw [List.forall₂_map_left_iff, List.forall₂_map_right_iff] at hPairs
    rw [isBefore_iff_forall₂]
    refine hPairs.imp fun entry echo hEcho => ?_
    obtain ⟨hEvent, hStamp⟩ := Prod.mk.inj hEcho
    exact ⟨hEvent, hStamp ▸ Nat.lt_succ_self _⟩

theorem isBefore_self_iff (echoes : theirs.Echoes ours) :
    theirs.isBefore ours = true ↔ ours.toList = [] ∧ theirs.toList = [] := by
  constructor
  · intro h
    have hLength := ((isBefore_iff_forall₂ _ _).mp h).length_eq
    have hBefore := echoes.isBefore_iff.mpr (echoes.length_eq_iff.mp hLength.symm)
    exact eq_nil_of_isBefore_isBefore hBefore h
  · rintro ⟨hOurs, hTheirs⟩
    rw [isBefore_iff_forall₂, hOurs, hTheirs]
    exact .nil

theorem push_rejected (echoes : theirs.Echoes ours) {ours' : Log} {n : Nat} {e : Event}
    (h : ours'.toList = ours.toList ++ [⟨n, e, false⟩]) : theirs.Echoes ours' := by
  rw [Echoes, h, List.filter_append, List.filter_singleton]
  exact echoes.trans (congrArg _ (List.append_nil _).symm)

theorem push_accepted (echoes : theirs.Echoes ours) {ours' theirs' : Log} {n : Nat} {e : Event}
    {accepted : Bool} (h : ours'.toList = ours.toList ++ [⟨n, e, true⟩])
    (h' : theirs'.toList = theirs.toList ++ [⟨n + 1, e, accepted⟩]) : theirs'.Echoes ours' := by
  rw [Echoes, h, h', List.filter_append, List.filter_singleton, List.map_append, List.map_append,
    show theirs.toList.map _ = _ from echoes]
  rfl

end Echoes

end Log

/-! ## Two recorders under a tee -/

def outcomesOf {E : Type} (i : Nat) (journal : List (Receipt E)) : List (Event × Bool) :=
  (journal.filter fun receipt => receipt.receiver = i).map fun receipt =>
    (receipt.event, receipt.answer.isOk)

theorem outcomesOf_append {E : Type} (i : Nat) (past calls : List (Receipt E)) :
    outcomesOf i (past ++ calls) = outcomesOf i past ++ outcomesOf i calls := by
  simp [outcomesOf]

namespace Relay

/-- A tee over two recorders on one clock.  The primary log agrees with the journal, and
the secondary log is an echo of it. -/
inductive Twinned (clock : String) : Relay Recorder → List (Receipt Rejection) → Prop where
  | intro {guard : Pass} {primary secondary : Recorder} {entries : List (Receipt Rejection)} :
    primary.clock = clock → secondary.clock = clock →
    primary.log.toList.map (fun entry => (entry.event, entry.accepted)) = outcomesOf 0 entries →
    secondary.log.Echoes primary.log →
    Twinned clock (.tee guard (.leaf primary) (.leaf secondary)) entries

theorem outcomes_receive (r : Recorder) (e : Event) (clocks : Clocks)
    {past : List (Receipt Rejection)}
    (h : r.log.toList.map (fun entry => (entry.event, entry.accepted)) = outcomesOf 0 past) :
    (r.receive e clocks).state.log.toList.map (fun entry => (entry.event, entry.accepted)) =
      outcomesOf 0 (past ++ receiptsFrom (.leaf r) 0 e clocks) := by
  rw [Recorder.toList_log_receive, List.map_append, h, outcomesOf_append, receiptsFrom_leaf]
  rfl

/-- A call keeps the secondary log an echo, whoever rejects it. -/
theorem Twinned.deliver {clock : String} {tee : Relay Recorder} {entries : List (Receipt Rejection)}
    (twinned : Twinned clock tee entries) (e : Event) (clocks : Clocks) :
    Twinned clock (Relay.deliver e tee clocks).state (entries ++ tee.receipts e clocks) := by
  obtain @⟨guard, primary, secondary, _, hPrimary, hSecondary, hLog, echoes⟩ := twinned
  cases hAccept : guard.accept e.kind with
  | error violation =>
      rw [deliver_tee_of_refused hAccept, receipts, receiptsFrom_tee_of_refused hAccept,
        List.append_nil]
      exact ⟨hPrimary, hSecondary, hLog, echoes⟩
  | ok next =>
      have hEntry := primary.toList_log_receive e clocks
      have hOutcome := outcomes_receive primary e clocks hLog
      cases hFirst : (Relay.deliver e (.leaf primary) clocks).answer with
      | error rejection =>
          rw [show (primary.receive e clocks).answer = _ from hFirst] at hEntry
          rw [(deliver_tee_of_rejected hAccept hFirst _).2.1, receipts,
            receiptsFrom_tee_of_rejected hAccept hFirst]
          exact ⟨hPrimary, hSecondary, hOutcome, echoes.push_rejected hEntry⟩
      | ok _ =>
          rw [show (primary.receive e clocks).answer = _ from hFirst] at hEntry
          rw [(deliver_tee_of_accepted hAccept hFirst _).2.1, receipts,
            receiptsFrom_tee_of_accepted hAccept hFirst]
          have hNow : (clocks.tick primary.clock).2.now secondary.clock =
              clocks.now primary.clock + 1 := by
            rw [hSecondary, ← hPrimary, Clocks.now_tick_self]
          have hEcho := secondary.toList_log_receive e (clocks.tick primary.clock).2
          rw [hNow] at hEcho
          refine ⟨hPrimary, hSecondary, ?_, echoes.push_accepted hEntry hEcho⟩
          -- What the secondary side writes down is not about the primary side.
          rw [← List.append_assoc, outcomesOf_append, ← hOutcome]
          exact (List.append_nil _).symm

theorem twinned_run (clock : String) (faults faults' : List (Kind × Nat)) (clocks : Clocks)
    (stream : List Event) :
    let tee : Relay Recorder :=
      pair (.leaf (.withFaults clock faults)) (.leaf (.withFaults clock faults'))
    Twinned clock (Receiver.run stream tee clocks).1 (tee.journal stream clocks) := by
  intro tee
  induction stream using List.reverseRecOn with
  | nil => exact ⟨rfl, rfl, rfl, rfl⟩
  | append_singleton past e ih =>
      rw [Receiver.run_concat, journal_concat]
      exact ih.deliver e _

theorem forall_accepted_iff {r : Recorder} {entries : List (Receipt Rejection)}
    (h : r.log.toList.map (fun entry => (entry.event, entry.accepted)) = outcomesOf 0 entries) :
    (∀ entry ∈ r.log.toList, entry.accepted = true) ↔
      ∀ e rejection, ⟨0, e, .error rejection⟩ ∉ entries := by
  have hPairs : (∀ entry ∈ r.log.toList, entry.accepted = true) ↔
      ∀ outcome ∈ outcomesOf 0 entries, outcome.2 = true := by
    rw [← h, List.forall_mem_map]
  rw [hPairs]
  constructor
  · intro hAll e rejection hm
    have hOutcome : (e, false) ∈ outcomesOf 0 entries :=
      List.mem_map.mpr ⟨_, List.mem_filter.mpr ⟨hm, rfl⟩, rfl⟩
    cases hAll _ hOutcome
  · intro hNone outcome hm
    obtain ⟨⟨i, e, answer⟩, hReceipt, rfl⟩ := List.mem_map.mp hm
    obtain ⟨hReceipt, hNumber⟩ := List.mem_filter.mp hReceipt
    obtain rfl : i = 0 := of_decide_eq_true hNumber
    cases answer with
    | ok _ => rfl
    | error rejection => exact absurd hReceipt (hNone e rejection)

/-- When the log of one side of a tee is before that of the other.

The sides are recorders on one clock, with any faults.  Whatever stream is sent and
whatever the secondary side rejects, the primary log is before the secondary one exactly
if the primary side has rejected nothing that it got, and the secondary log is before the
primary one only if both are empty. -/
theorem isBefore_iff_primary_accepts (clock : String) (faults faults' : List (Kind × Nat))
    (clocks : Clocks) (stream : List Event) :
    let tee : Relay Recorder :=
      pair (.leaf (.withFaults clock faults)) (.leaf (.withFaults clock faults'))
    ∃ primary secondary, (Receiver.run stream tee clocks).1.leaves = [primary, secondary] ∧
      (primary.log.isBefore secondary.log = true ↔
        ∀ e rejection, ⟨0, e, .error rejection⟩ ∉ tee.journal stream clocks) ∧
      (secondary.log.isBefore primary.log = true ↔
        primary.log.toList = [] ∧ secondary.log.toList = []) := by
  intro tee
  have twinned : Twinned clock (Receiver.run stream tee clocks).1 (tee.journal stream clocks) :=
    twinned_run clock faults faults' clocks stream
  generalize (Receiver.run stream tee clocks).1 = state at twinned ⊢
  obtain @⟨guard, primary, secondary, _, _, _, hLog, echoes⟩ := twinned
  exact ⟨primary, secondary, rfl, echoes.isBefore_iff.trans (forall_accepted_iff hLog),
    echoes.isBefore_self_iff⟩

/-- Two events that the primary side accepts, the second of which the secondary side
rejects: both logs have two entries, and the primary one is before the other. -/
theorem isBefore_of_rejected_selector :
    let tee : Relay Recorder := pair (.leaf (.withFaults "main" []))
      (.leaf (.withFaults "main" [(.selector, 1)]))
    let stream : List Event := [.init, .selector]
    let clocks := Clocks.start {} "main"
    (∀ e rejection, ⟨0, e, .error rejection⟩ ∉ tee.journal stream clocks) ∧
      ∃ primary secondary, (Receiver.run stream tee clocks).1.leaves = [primary, secondary] ∧
        primary.log.toList = [⟨0, .init, true⟩, ⟨2, .selector, true⟩] ∧
        secondary.log.toList = [⟨1, .init, true⟩, ⟨3, .selector, false⟩] ∧
        primary.log.isBefore secondary.log = true ∧
        ¬ secondary.log.isBefore primary.log = true := by
  intro tee stream clocks
  have hEntries : tee.journal stream clocks =
      [⟨0, .init, .ok ()⟩, ⟨1, .init, .ok ()⟩, ⟨0, .selector, .ok ()⟩,
        ⟨1, .selector, .error (.unsupported .selector)⟩] := rfl
  have hAccepts : ∀ e rejection, ⟨0, e, .error rejection⟩ ∉ tee.journal stream clocks := by
    intro e rejection h
    rw [hEntries] at h
    simp at h
  obtain ⟨primary, secondary, hLeaves, hBefore, hAfter⟩ :=
    isBefore_iff_primary_accepts "main" [] [(.selector, 1)] clocks stream
  have hPrimary : primary.log.toList = [⟨0, .init, true⟩, ⟨2, .selector, true⟩] := by
    obtain rfl : _ = primary := (List.cons.inj hLeaves).1
    rfl
  have hSecondary : secondary.log.toList = [⟨1, .init, true⟩, ⟨3, .selector, false⟩] := by
    obtain rfl : _ = secondary := (List.cons.inj (List.cons.inj hLeaves).2).1
    rfl
  refine ⟨hAccepts, primary, secondary, hLeaves, hPrimary, hSecondary, hBefore.mpr hAccepts, ?_⟩
  intro h
  have hNone := (hAfter.mp h).1
  rw [hPrimary] at hNone
  cases hNone

end Relay

end SelectorStream
