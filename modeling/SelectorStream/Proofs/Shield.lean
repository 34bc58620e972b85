/-
# `SelectorStream.Proofs.Shield` — a validator in front of another receiver

A tee over a validator and a receiver has two passes: its guard, and the pass
of the validator.  They move together until the validator meets a breach of the
grammar.  Then they part: the guard stays inside the bracket and goes on asking
the validator, and the validator, being faulted, rejects whatever comes.

`Abreast` is the invariant that says so.  It is enough for the main statement,

    Relay.shield_passes_accepted
        the receiver gets what a validator alone would have accepted

whatever the receiver itself rejects.
-/
import SelectorStream.Proofs.Broadcast
import SelectorStream.Proofs.Verdicts

namespace SelectorStream

/-- A validator whose pass is the guard's, until it is faulted. -/
def Abreast (guard : Pass) (v : Validator) : Prop :=
  v.pass = guard ∨ v.pass.phase = .faulted

namespace Abreast

variable {guard : Pass} {v : Validator} {e : Event}

theorem settle (h : Abreast guard v) (e : Event) :
    Abreast (guard.settle e.kind) (v.check e).2 := by
  rcases h with rfl | hFaulted
  · rcases v.check_cases e with ⟨_, hAccept, hCheck⟩ | ⟨_, _, _, _, hFaulted⟩ |
      ⟨_, hAccept, _, hPass⟩
    · rw [Pass.settle_of_error hAccept, hCheck]
      exact .inl rfl
    · exact .inr hFaulted
    · rw [Pass.settle_of_ok hAccept]
      exact .inl hPass
  · obtain ⟨_, hCheck⟩ := Validator.check_of_ended (.inr hFaulted) e
    rw [hCheck]
    exact .inr hFaulted

/-- What the guard refuses, the validator refuses too, and in the same words if
it is not faulted. -/
theorem check_of_refused (h : Abreast guard v) {violation : Violation}
    (hAccept : guard.accept e.kind = .error violation) :
    ∃ own, v.check e = (.error own, v) ∧ (v.pass.phase ≠ .faulted → own = violation) := by
  rcases h with rfl | hFaulted
  · exact ⟨violation, Validator.check_of_refused hAccept, fun _ => rfl⟩
  · obtain ⟨own, hCheck⟩ := Validator.check_of_ended (.inr hFaulted) e
    exact ⟨own, hCheck, fun h => absurd hFaulted h⟩

end Abreast

/-! ## The tee

The validator stands on the primary side, so its answers are the tee's unless
it accepts; then the other side has the last word. -/

namespace Relay

variable {E X W : Type} [OfViolation E] [Receiver E X W]

def shield (guard : Pass) (v : Validator) (x : X) : Relay (Checker E ⊕ X) :=
  .tee guard (.leaf (.inl ⟨v⟩)) (.leaf (.inr x))

section Call

variable {guard : Pass} {v : Validator} {e : Event}

/-- One call.  Guard and validator stay abreast, the receiver gets the event
exactly if the validator accepts it, and as long as nothing is faulted the
answer is the validator's, unless the receiver rejects the event. -/
theorem deliver_shield (h : Abreast guard v) (e : Event) (x : X) (w : W) :
    let called := deliver e (shield (E := E) guard v x) w
    let calls := receipts (shield (E := E) guard v x) e w
    (∃ x', called.state = shield (guard.settle e.kind) (v.check e).2 x') ∧
      receivedBy 1 calls = v.accepted [e] ∧
      (v.pass.phase ≠ .faulted → (∀ rejection, ⟨1, e, .error rejection⟩ ∉ calls) →
        called.answer = (v.check e).1.mapError ofViolation) := by
  intro called calls
  cases hAccept : guard.accept e.kind with
  | error violation =>
      obtain ⟨own, hCheck, hOwn⟩ := h.check_of_refused hAccept
      have hCalled : called = _ := deliver_tee_of_refused hAccept
      have hCalls : calls = [] := receiptsFrom_tee_of_refused hAccept
      refine ⟨⟨x, ?_⟩, ?_, fun healthy _ => ?_⟩
      · rw [hCalled, hCheck, Pass.settle_of_error hAccept]
        rfl
      · rw [hCalls, Validator.accepted_of_error (congrArg Prod.fst hCheck)]
        rfl
      · rw [hCalled, hCheck, hOwn healthy]
        rfl
  | ok next =>
      rw [Pass.settle_of_ok hAccept]
      have hPrimary : (deliver e (.leaf (.inl ⟨v⟩) : Relay (Checker E ⊕ X)) w).answer =
        (v.check e).1.mapError ofViolation := rfl
      cases hVerdict : (v.check e).1 with
      | error violation =>
          rw [hVerdict] at hPrimary
          obtain ⟨hAnswer, hState, _⟩ := deliver_tee_of_rejected hAccept hPrimary (.leaf (.inr x))
          have hCalls : calls = _ := receiptsFrom_tee_of_rejected hAccept hPrimary (.leaf (.inr x))
          refine ⟨⟨x, hState⟩, ?_, fun _ _ => hAnswer⟩
          rw [hCalls, Validator.accepted_of_error hVerdict]
          rfl
      | ok _ =>
          rw [hVerdict] at hPrimary
          obtain ⟨hAnswer, hState, _⟩ := deliver_tee_of_accepted hAccept hPrimary (.leaf (.inr x))
          have hCalls : calls = _ := receiptsFrom_tee_of_accepted hAccept hPrimary (.leaf (.inr x))
          refine ⟨⟨_, hState⟩, ?_, fun _ notRejected => ?_⟩
          · rw [hCalls, Validator.accepted_of_ok hVerdict]
            rfl
          · cases hSecondary : (Receiver.receive e x
              (deliver e (.leaf (.inl ⟨v⟩) : Relay (Checker E ⊕ X)) w).world).answer with
            | ok _ => exact hAnswer.trans hSecondary
            | error rejection =>
                refine absurd ?_ (notRejected rejection)
                rw [hCalls, receiptsFrom_leaf, receiptsFrom_leaf]
                exact List.mem_append_right _ (List.mem_singleton.mpr (by rw [← hSecondary]; rfl))

end Call

theorem run_shield (limits : Limits) (x : X) (w : W) (past : List Event) :
    let guard := Pass.fresh.follow (past.map Event.kind)
    let alone := (Validator.fresh limits).run past
    Abreast guard alone ∧ ∃ x',
      (Receiver.run past (shield (E := E) .fresh (.fresh limits) x) w).1 = shield guard alone x' := by
  induction past using List.reverseRecOn with
  | nil => exact ⟨.inl rfl, x, rfl⟩
  | append_singleton past e ih =>
      obtain ⟨abreast, x', hState⟩ := ih
      rw [List.map_append, List.map_singleton, Pass.follow_concat, Validator.run_append]
      refine ⟨abreast.settle e, ?_⟩
      rw [Receiver.run_concat]
      show ∃ x'', (deliver e (Receiver.run past _ w).1 _).state = _
      rw [hState]
      exact (deliver_shield abreast e x' _).1

theorem receivedBy_journal_shield (limits : Limits) (x : X) (w : W) (past : List Event) :
    receivedBy 1 (journal (shield (E := E) .fresh (.fresh limits) x) past w) =
      (Validator.fresh limits).accepted past := by
  induction past using List.reverseRecOn with
  | nil => rfl
  | append_singleton past e ih =>
      obtain ⟨abreast, x', hState⟩ := run_shield limits x w past
      rw [journal_concat, receivedBy_append, ih, hState, Validator.accepted_append]
      exact congrArg _ (deliver_shield abreast e x' _).2.1

/-- A validator on the primary side shields the other side.

The receiver gets, of any stream, what the validator by itself would accept:
all of it is accepted, nothing comes after a breach, and `close` only completes
it.  Up to the first breach the answers are the validator's too, but for the
events that the receiver rejects. -/
theorem shield_passes_accepted (limits : Limits) (x : X) (w : W) (past : List Event) (e : Event) :
    let tee : Relay (Checker E ⊕ X) :=
      pair (.leaf (.inl ⟨.fresh limits⟩)) (.leaf (.inr x))
    let before := Receiver.run past tee w
    let alone := (Validator.fresh limits).run past
    let seen := receivedBy 1 (tee.journal past w)
    seen = (Validator.fresh limits).accepted past ∧
      (Validator.fresh limits).Accepts seen ∧
      (∀ earlier later, seen = earlier ++ .close :: later →
        later = [] ∧ ((Validator.fresh limits).run seen).isComplete = true) ∧
      (∀ position breach, (alone.check e).1 = .error ⟨position, .breach breach⟩ →
        ∀ rest, receivedBy 1 (tee.journal (past ++ e :: rest) w) = seen) ∧
      ((∀ position breach, .error ⟨position, .breach breach⟩ ∉
          (Validator.fresh limits).verdicts past) →
        (∀ rejection, ⟨1, e, .error rejection⟩ ∉ before.1.receipts e before.2) →
        (deliver e before.1 before.2).answer = (alone.check e).1.mapError ofViolation) := by
  intro tee before alone seen
  have hSeen : seen = (Validator.fresh limits).accepted past :=
    receivedBy_journal_shield limits x w past
  have hAccepts : (Validator.fresh limits).Accepts seen := by
    rw [hSeen]
    exact Validator.accepts_accepted past _
  refine ⟨hSeen, hAccepts, fun earlier later hSplit => ?_, fun position breach hBreach rest => ?_,
    fun noBreach notRejected => ?_⟩
  · rw [hSplit] at hAccepts ⊢
    exact Validator.complete_of_accepts_close hAccepts
  · rw [hSeen]
    refine (receivedBy_journal_shield limits x w (past ++ e :: rest)).trans ?_
    have hFaulted := Validator.phase_check_of_breach hBreach
    rw [Validator.accepted_append]
    show _ ++ alone.accepted (e :: rest) = _
    simp only [Validator.accepted, hBreach, Validator.accepted_of_ended (.inr hFaulted),
      List.append_nil]
  · obtain ⟨abreast, x', hState⟩ := run_shield limits x w past
    have hBefore : before.1 = shield _ alone x' := hState
    have healthy : alone.pass.phase ≠ .faulted :=
      Validator.phase_run_ne_faulted past (.fresh limits) (fun h => by cases h) noBreach
    rw [hBefore] at notRejected ⊢
    exact (deliver_shield abreast e x' before.2).2.2 healthy notRejected

/-- A head after an identifier is a breach: the recorder behind the validator gets
neither the head nor what follows.  The answer of the tee is the validator's. -/
theorem shield_of_misplaced_head :
    let tee : Relay (Checker Rejection ⊕ Recorder) :=
      pair (.leaf (.inl ⟨.fresh {}⟩)) (.leaf (.inr { clock := "main" }))
    let past : List Event := [.init, .selector, .filter (.identifier "a")]
    let e := Event.head .universal
    let clocks : Clocks := {}
    let before := Receiver.run past tee clocks
    receivedBy 1 (tee.journal past clocks) = past ∧
      receivedBy 1 (tee.journal (past ++ [e, .selector]) clocks) = past ∧
      (deliver e before.1 before.2).answer =
        .error (.violation ⟨3, .breach (.misplacedHead e.kind (.filter .identifier))⟩) := by
  intro tee past e clocks before
  obtain ⟨hSeen, _, _, hBreach, hAnswer⟩ :=
    shield_passes_accepted (E := Rejection) {} ({ clock := "main" } : Recorder) clocks past e
  have hVerdicts : (Validator.fresh {}).verdicts past = [.ok (), .ok (), .ok ()] := rfl
  have hVerdict : (((Validator.fresh {}).run past).check e).1 =
      .error ⟨3, .breach (.misplacedHead e.kind (.filter .identifier))⟩ := rfl
  have hEntries : before.1.receipts e before.2 =
      [⟨0, e, .error (.violation ⟨3, .breach (.misplacedHead e.kind (.filter .identifier))⟩)⟩] := rfl
  have hPast : receivedBy 1 (tee.journal past clocks) = past := hSeen.trans rfl
  refine ⟨hPast, (hBreach _ _ hVerdict [.selector]).trans hPast, (hAnswer ?_ ?_).trans ?_⟩
  · simp [hVerdicts]
  · intro rejection h
    rw [hEntries] at h
    simp at h
  · rw [hVerdict]
    rfl

end Relay

end SelectorStream
