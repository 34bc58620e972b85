/-
# `SelectorStream.Proofs.Replay` — where a replay leaves the receivers

A replay stops at the first event that is rejected.  In a tree of fresh tees
all guards are the same pass up to that event, since every receiver has
accepted everything, so no guard but the root's can be what stops it.

    Relay.replay_stops_in_step
        all receivers have got the same events; of the one that ended the
        replay, those up to the one that rejected it got it as well
-/
import SelectorStream.Proofs.Grouping

namespace SelectorStream

/-! ## Journals of streams that are accepted -/

theorem receivedBy_flatMap_agreed {E : Type} {count k : Nat} (hk : k < count) (past : List Event) :
    receivedBy k (past.flatMap (agreedFrom 0 · count) : List (Receipt E)) = past := by
  induction past with
  | nil => rfl
  | cons e past ih =>
      rw [List.flatMap_cons, receivedBy_append, receivedBy_agreedFrom_zero, if_pos hk, ih]
      rfl

theorem acceptedBy_flatMap_agreed {E : Type} {count k : Nat} (hk : k < count) (past : List Event) :
    acceptedBy k (past.flatMap (agreedFrom 0 · count) : List (Receipt E)) = past := by
  induction past with
  | nil => rfl
  | cons e past ih =>
      rw [List.flatMap_cons, acceptedBy_append, acceptedBy_agreedFrom_zero, if_pos hk, ih]
      rfl

variable {E L W : Type} [OfViolation E] [Receiver E L W]

namespace Relay

/-! ## Journals of a replay -/

def replayJournal (relay : Relay L) (stream : List Event) (w : W) : List (Receipt E) :=
  (replay stream (relay.number 0) (Journaled.mk (E := E) w [])).world.journal

theorem replay_number (stream : List Event) : ∀ (relay : Relay L) (w : W) (past : List (Receipt E)),
    replay stream (relay.number 0) (Journaled.mk w past) =
      let last := replay stream relay w
      ⟨last.answer, last.state.number 0,
        ⟨last.world, past ++ relay.replayJournal stream w⟩, last.notices⟩ := by
  induction stream with
  | nil =>
      intro relay w past
      simp [replay_nil, replayJournal]
  | cons e rest ih =>
      intro relay w past
      cases hCalled : (deliver e relay w).answer with
      | error rejection =>
          have stop : ∀ past, replay (e :: rest) (relay.number 0) (Journaled.mk w past) =
              deliver e (relay.number 0) (Journaled.mk w past) := fun past =>
            replay_cons_of_error (by rw [deliver_number]; exact hCalled) rest
          simp only [replayJournal, stop, replay_cons_of_error hCalled, deliver_number,
            List.nil_append]
      | ok _ =>
          have step : ∀ past, replay (e :: rest) (relay.number 0) (Journaled.mk w past) = _ :=
            fun past => replay_cons_of_ok (by rw [deliver_number]; exact hCalled) rest
          have entries : relay.replayJournal (e :: rest) w = relay.receipts e w ++
              (deliver e relay w).state.replayJournal rest (deliver e relay w).world := by
            rw [replayJournal, step]
            simp only [deliver_number, ih, List.nil_append]
            rfl
          rw [step, entries, replay_cons_of_ok hCalled]
          simp only [deliver_number, ih, List.append_assoc]
          rfl

theorem replayJournal_cons_of_ok {e : Event} {relay : Relay L} {w : W}
    (h : (deliver e relay w).answer = .ok ()) (rest : List Event) :
    relay.replayJournal (e :: rest) w = relay.receipts e w ++
      (deliver e relay w).state.replayJournal rest (deliver e relay w).world := by
  rw [replayJournal, replay_cons_of_ok (by rw [deliver_number]; exact h)]
  simp only [deliver_number, replay_number, List.nil_append]
  rfl

theorem replayJournal_cons_of_error {e : Event} {relay : Relay L} {w : W} {rejection : E}
    (h : (deliver e relay w).answer = .error rejection) (rest : List Event) :
    relay.replayJournal (e :: rest) w = relay.receipts e w := by
  rw [replayJournal, replay_cons_of_error (by rw [deliver_number]; exact h)]
  rfl

/-! ## The call that ends a replay -/

/-- Why a call of an event ends a replay, how many of `count` leaves it reaches
before that, and what they write down. -/
inductive Stops (root : Relay L) (count : Nat) (e : Event) :
    Nat → E → List (Receipt E) → Prop where
  | refused {violation : Violation} :
    root.refusal? e.kind = some violation → Stops root count e 0 (ofViolation violation) []
  /-- The root admits the event, and the last leaf that it reaches rejects it. -/
  | rejected {i : Nat} {rejection : E} :
    root.refusal? e.kind = none → i < count →
      Stops root count e (i + 1) rejection (agreedFrom 0 e i ++ [⟨i, e, .error rejection⟩])

namespace Stops

variable {root : Relay L} {count reached : Nat} {e : Event} {rejection : E}
  {calls : List (Receipt E)}

theorem reached_le (stops : Stops root count e reached rejection calls) : reached ≤ count := by
  cases stops with
  | refused _ => exact Nat.zero_le _
  | rejected _ hi => exact hi

theorem receivedBy (stops : Stops root count e reached rejection calls) (k : Nat) :
    SelectorStream.receivedBy k calls = if k < reached then [e] else [] := by
  cases stops with
  | refused _ => rfl
  | @rejected i _ _ _ =>
      rw [receivedBy_append, receivedBy_agreedFrom_zero]
      by_cases hk : i = k
      · subst hk
        simp [SelectorStream.receivedBy]
      · have : k < i + 1 ↔ k < i := by omega
        simp [SelectorStream.receivedBy, hk, this]

theorem acceptedBy (stops : Stops root count e reached rejection calls) (k : Nat) :
    SelectorStream.acceptedBy k calls = if k + 1 < reached then [e] else [] := by
  cases stops with
  | refused _ => rfl
  | rejected _ _ =>
      rw [acceptedBy_append, acceptedBy_agreedFrom_zero]
      simp [SelectorStream.acceptedBy, Except.isOk, Except.toBool]

/-- Nothing is written down after the rejection. -/
theorem getLast? (stops : Stops root count e reached rejection calls) (past : List (Receipt E))
    {i : Nat} (h : reached = i + 1) :
    (past ++ calls).getLast? = some ⟨i, e, .error rejection⟩ := by
  cases stops with
  | refused _ => cases h
  | rejected _ _ =>
      obtain rfl := Nat.succ.inj h
      rw [← List.append_assoc, List.getLast?_concat]

theorem reached_eq_zero_iff (stops : Stops root count e reached rejection calls) :
    reached = 0 ↔ ∃ violation, root.refusal? e.kind = some violation := by
  cases stops with
  | refused h => exact ⟨fun _ => ⟨_, h⟩, fun _ => rfl⟩
  | rejected h _ => simp [h]

theorem rejection_eq (stops : Stops root count e reached rejection calls) {violation : Violation}
    (h : root.refusal? e.kind = some violation) : rejection = ofViolation violation := by
  cases stops with
  | refused h' => rw [Option.some.inj (h'.symm.trans h)]
  | rejected h' _ =>
      rw [h'] at h
      cases h

end Stops

/-! ## Replays over fresh trees -/

theorem exists_guarded_deliver {relay : Relay L} {pass : Pass} (guarded : relay.Guarded pass)
    {e : Event} (h : relay.refusal? e.kind = none) (w : W) :
    relay.Admits e.kind ∧ ∃ next,
      (deliver e relay w).answer = .ok () → (deliver e relay w).state.Guarded next := by
  cases relay with
  | leaf l => exact ⟨fun guard hg => (by cases hg), pass, fun _ => guarded⟩
  | tee root primary secondary =>
      obtain ⟨next, hAccept⟩ := accept_of_refusal?_eq_none h rfl
      rw [guarded root List.mem_cons_self] at hAccept
      refine ⟨fun guard hg => ⟨next, ?_⟩, next, guarded_deliver hAccept _ w guarded⟩
      rw [guarded guard hg]
      exact hAccept

theorem deliver_guarded {relay : Relay L} {pass : Pass} (guarded : relay.Guarded pass)
    (e : Event) (w : W) :
    let called := deliver e relay w
    let count := relay.leaves.length
    (called.answer = .ok () ∧ relay.receipts e w = agreedFrom 0 e count ∧
        ∃ next, called.state.Guarded next) ∨
      ∃ reached rejection, called.answer = .error rejection ∧
        Stops relay count e reached rejection (relay.receipts e w) := by
  intro called count
  cases hRefusal : relay.refusal? e.kind with
  | some violation =>
      obtain ⟨hAnswer, _, _, hCalls⟩ := deliver_of_refusal hRefusal w
      rw [hCalls]
      exact .inr ⟨0, _, hAnswer, .refused hRefusal⟩
  | none =>
      obtain ⟨admits, next, hNext⟩ := exists_guarded_deliver guarded hRefusal w
      rcases failFast_of_admits admits w with ⟨hCalls, hOk⟩ | ⟨i, hi, rejection, hCalls, hAnswer⟩
      · exact .inl ⟨hOk, hCalls, next, hNext hOk⟩
      · rw [hCalls]
        exact .inr ⟨i + 1, rejection, hAnswer, .rejected hRefusal hi⟩

/-- A replay over such a tree: every leaf gets all of the stream and accepts it,
or it does so with the events before one that stops the replay. -/
theorem replay_guarded (stream : List Event) : ∀ (relay : Relay L) (pass : Pass) (w : W),
    relay.Guarded pass →
    let last := replay stream relay w
    let entries := relay.replayJournal stream w
    let count := relay.leaves.length
    (last.answer = .ok () ∧ entries = stream.flatMap (agreedFrom 0 · count)) ∨
      ∃ past e rest reached rejection calls, stream = past ++ e :: rest ∧
        last.answer = .error rejection ∧
        Stops (replay past relay w).state count e reached rejection calls ∧
        entries = past.flatMap (agreedFrom 0 · count) ++ calls := by
  induction stream with
  | nil => intro relay pass w _; exact .inl ⟨rfl, rfl⟩
  | cons e rest ih =>
      intro relay pass w guarded last entries count
      rcases deliver_guarded guarded e w with
        ⟨hOk, hCalls, next, hNext⟩ | ⟨reached, rejection, hError, hStops⟩
      · have hLast : last = _ := replay_cons_of_ok hOk rest
        have hEntries : entries = _ := replayJournal_cons_of_ok hOk rest
        have hCount : (deliver e relay w).state.leaves.length = count :=
          length_leaves_deliver e relay w
        rw [hLast, hEntries, hCalls]
        rcases ih (deliver e relay w).state next (deliver e relay w).world hNext with
          ⟨hAnswer, hRest⟩ | ⟨past, e', rest', reached, rejection, calls, rfl, hAnswer, hStops, hRest⟩
        · rw [hRest, hCount]
          exact .inl ⟨hAnswer, rfl⟩
        · rw [hCount] at hRest hStops
          refine .inr ⟨e :: past, e', rest', reached, rejection, calls, rfl, hAnswer, ?_, ?_⟩
          · rw [replay_cons_of_ok hOk]
            exact hStops
          · rw [hRest, List.flatMap_cons, List.append_assoc]
      · have hLast : last = _ := replay_cons_of_error hError rest
        have hEntries : entries = _ := replayJournal_cons_of_error hError rest
        rw [hLast, hEntries]
        exact .inr ⟨[], e, rest, reached, rejection, _, rfl, hError, hStops, rfl⟩

/-- A replay over a tree of fresh tees leaves the receivers in step.

Either it sends all of the stream and every receiver accepts it.  Or it ends
with one event: every receiver has got exactly the events before it and has
accepted them, and the event itself was got by the first `reached` receivers
and by no other, of which the last rejected it, and that is the answer.  It
reached none if and only if the root turned it away. -/
theorem replay_stops_in_step (relay : Relay L) (fresh : relay.Guarded .fresh) (w : W)
    (stream : List Event) :
    let answer := (replay stream relay w).answer
    let entries := relay.replayJournal stream w
    let count := relay.leaves.length
    (answer = .ok () ∧
        ∀ k < count, receivedBy k entries = stream ∧ acceptedBy k entries = stream) ∨
      ∃ past e rest rejection, stream = past ++ e :: rest ∧ answer = .error rejection ∧
        let root := (replay past relay w).state
        ∃ reached ≤ count,
          (∀ k < count,
            receivedBy k entries = past ++ (if k < reached then [e] else []) ∧
              acceptedBy k entries = past ++ (if k + 1 < reached then [e] else [])) ∧
          (∀ i, reached = i + 1 → entries.getLast? = some ⟨i, e, .error rejection⟩) ∧
          (reached = 0 ↔ ∃ violation, root.refusal? e.kind = some violation) ∧
          ∀ violation, root.refusal? e.kind = some violation →
            rejection = ofViolation violation := by
  intro answer entries count
  rcases replay_guarded stream relay .fresh w fresh with
    ⟨hOk, hEntries⟩ | ⟨past, e, rest, reached, rejection, calls, hStream, hError, hStops, hEntries⟩
  · replace hEntries : entries = _ := hEntries
    refine .inl ⟨hOk, fun k hk => ?_⟩
    rw [hEntries]
    exact ⟨receivedBy_flatMap_agreed hk stream, acceptedBy_flatMap_agreed hk stream⟩
  · replace hEntries : entries = _ := hEntries
    rw [hEntries]
    refine .inr ⟨past, e, rest, rejection, hStream, hError, reached, hStops.reached_le,
      fun k hk => ⟨?_, ?_⟩, fun i => hStops.getLast? _, hStops.reached_eq_zero_iff,
      fun violation => hStops.rejection_eq⟩
    · rw [receivedBy_append, receivedBy_flatMap_agreed hk, hStops.receivedBy]
    · rw [acceptedBy_append, acceptedBy_flatMap_agreed hk, hStops.acceptedBy]

/-- The second of three receivers rejects the first `class`, which is the third
event: it is the last receiver that is reached, and the third one has got the two
events before. -/
theorem replay_stops_at_second_leaf :
    let a := Relay.leaf (.recorder { clock := "main" })
    let b := Relay.leaf (.recorder (.withFaults "main" [(.filter .styleClass, 1)]))
    let c := Relay.leaf .sink
    let relay : Relay Endpoint := pair a (pair b c)
    let e := Event.filter (.styleClass "x")
    let stream := [.init, .selector, e, .close]
    let clocks := Clocks.start {} "main"
    let entries := relay.replayJournal stream clocks
    let rejection := Rejection.unsupported (.filter .styleClass)
    relay.Guarded .fresh ∧ (replay stream relay clocks).answer = .error rejection ∧
      entries.getLast? = some ⟨1, e, .error rejection⟩ ∧
      ∀ k < 3,
        receivedBy k entries = [.init, .selector] ++ (if k < 2 then [e] else []) ∧
          acceptedBy k entries = [.init, .selector] ++ (if k + 1 < 2 then [e] else []) := by
  intro a b c relay e stream clocks entries rejection
  have fresh : relay.Guarded .fresh := by simp [Guarded, relay, a, b, c, pair, guards]
  have hError : (replay stream relay clocks).answer = .error rejection := rfl
  have hLast : entries.getLast? = some ⟨1, e, .error rejection⟩ := rfl
  have hFirst : receivedBy 0 entries = [.init, .selector, e] := rfl
  have hThird : receivedBy 2 entries = [.init, .selector] := rfl
  refine ⟨fresh, hError, hLast, ?_⟩
  rcases replay_stops_in_step relay fresh clocks stream with
    ⟨hOk, _⟩ | ⟨past, stop, rest, _, _, _, reached, _, hLeaves, hStop, hNone, _⟩
  · rw [hError] at hOk
    cases hOk
  · have hPast : past ++ (if 2 < reached then [stop] else []) = [.init, .selector] :=
      (hLeaves 2 (by decide)).1.symm.trans hThird
    cases reached with
    | zero =>
        -- Then the first receiver would have got no more than the third.
        have hSame := (hLeaves 0 (by decide)).1.symm.trans hFirst
        cases hPast.symm.trans hSame
    | succ i =>
        obtain ⟨rfl, rfl, _⟩ := Receipt.mk.inj (Option.some.inj (hLast.symm.trans (hStop i rfl)))
        obtain rfl : past = [.init, .selector] := by simpa using hPast
        exact hLeaves

end Relay

end SelectorStream
