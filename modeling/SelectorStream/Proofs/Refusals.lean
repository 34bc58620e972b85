/-
# `SelectorStream.Proofs.Refusals` — what a validator turns away leaves no trace

`Validator.check` asks the bracket first and changes a place only when nothing
is wrong.  A check can also be made in one go: the grammar is asked first, as
long as the stream is open, and changes the place on its way; then the bracket
is asked.  A call that is turned away might then leave a place half changed.
`Validator.check_eq_checkInPlace` says that it does not, in any state that a
stream leads to.

What is refused for the bracket's sake can therefore be deleted from a stream,
and no other verdict changes: `Validator.heard` is the stream without it.  A
breach of the grammar is the only way into `faulted`, and there every event is
refused.  The main statement puts this together:

    Validator.refusals_erasable
-/
import SelectorStream.Proofs.Acceptance

namespace SelectorStream

/-! ## The grammar first -/

namespace Place

/-- The place with the open alternative ended, or why it cannot end here. -/
def endAlternative (place : Place) (kind : Kind) : Except Breach Place :=
  if place.endsEmpty then .error (.emptyCompound kind)
  else .ok { place with compound := .empty }

/-- The verdict of the grammar on an event, and the place as far as the event
got. -/
def judge (place : Place) (limits : Limits) : Event → Except Breach Unit × Place
  | .init => (.ok (), place)
  | .close =>
    match place.endAlternative .close with
    | .error breach => (.error breach, place)
    | .ok ended =>
      if ended.alternatives = 0 && !limits.allowEmptyList then (.error .emptyList, ended)
      else (.ok (), ended)
  | .selector =>
    match place.endAlternative .selector with
    | .error breach => (.error breach, place)
    | .ok ended =>
      if limits.maxAlternatives ≤ ended.alternatives then
        (.error (.tooManyAlternatives limits.maxAlternatives), ended)
      else (.ok (), { ended with inSelector := true, alternatives := ended.alternatives + 1 })
  | .head h =>
    match place.headBreach? limits (.head h.kind) with
    | some breach => (.error breach, place)
    | none => (.ok (), { place with compound := place.compound.push (.head h.kind) })
  | .filter f =>
    match place.filterBreach? limits f with
    | some breach => (.error breach, place)
    | none => (.ok (), { place with compound := place.compound.push (.filter f.kind) })
  | .combinator c =>
    if !place.inSelector then (.error (.missingSelector (.combinator c)), place)
    else if place.compound.isEmpty then (.error (.danglingCombinator (.combinator c)), place)
    else (.ok (), { place with compound := .empty })

/-- Before the first alternative there is no compound. -/
def Consistent (place : Place) : Prop :=
  place.alternatives = 0 → place.compound = .empty

theorem afterBreach_keeps (place : Place) (breach : Breach) :
    (place.afterBreach breach).inSelector = place.inSelector ∧
      (place.afterBreach breach).alternatives = place.alternatives ∧
      ((place.afterBreach breach).compound = place.compound ∨
        (∃ limit, breach = .tooManyAlternatives limit) ∧
          (place.afterBreach breach).compound = .empty) := by
  cases breach with
  | tooManyAlternatives limit => exact ⟨rfl, rfl, .inr ⟨⟨limit, rfl⟩, rfl⟩⟩
  | _ => exact ⟨rfl, rfl, .inl rfl⟩

theorem eq_selector_of_breach? {place : Place} {limits : Limits} {e : Event} {limit : Nat}
    (h : place.breach? limits e = some (.tooManyAlternatives limit)) : e = .selector := by
  cases e with
  | selector => rfl
  | init => cases h
  | close => simp only [breach?] at h; grind
  | head _ => simp only [breach?, headBreach?, overlong?] at h; grind
  | filter _ => simp only [breach?, filterBreach?, overlong?] at h; grind
  | combinator _ => simp only [breach?] at h; grind

theorem afterBreach_of_breach? {place : Place} {limits : Limits} {e : Event} {breach : Breach}
    (h : place.breach? limits e = some breach) (he : e ≠ .selector) :
    place.afterBreach breach = place := by
  cases breach with
  | tooManyAlternatives limit => exact absurd (eq_selector_of_breach? h) he
  | _ => rfl

/-- The changes that are made on the way come to nothing, unless the event is
accepted. -/
theorem judge_eq {place : Place} (consistent : place.Consistent) (limits : Limits) (e : Event) :
    place.judge limits e =
      match place.breach? limits e with
      | none => (.ok (), place.after e)
      | some breach => (.error breach, place.afterBreach breach) := by
  cases e with
  | init => rfl
  | close =>
      simp only [judge, endAlternative, breach?]
      cases hEnds : place.endsEmpty with
      | true => rfl
      | false =>
          simp only [Bool.false_eq_true, if_false]
          split
          · rename_i hNone
            -- The compound that was ended here was empty already.
            simp only [Bool.and_eq_true, decide_eq_true_eq] at hNone
            have hCompound := consistent hNone.1
            simp only [afterBreach, ← hCompound]
          · rfl
  | selector =>
      simp only [judge, endAlternative, breach?]
      cases hEnds : place.endsEmpty with
      | true => rfl
      | false =>
          simp only [Bool.false_eq_true, if_false]
          split
          · rfl
          · rfl
  | head h =>
      simp only [judge, breach?]
      cases hBreach : place.headBreach? limits (.head h.kind) with
      | none => rfl
      | some breach =>
          have hKept : place.afterBreach breach = place :=
            afterBreach_of_breach? (e := .head h) hBreach (by simp)
          simp only [hKept]
  | filter f =>
      simp only [judge, breach?]
      cases hBreach : place.filterBreach? limits f with
      | none => rfl
      | some breach =>
          have hKept : place.afterBreach breach = place :=
            afterBreach_of_breach? (e := .filter f) hBreach (by simp)
          simp only [hKept]
  | combinator c =>
      simp only [judge, breach?]
      split
      · rfl
      · split
        · rfl
        · rfl

end Place

namespace Validator

/-- A check that asks the grammar first, as long as the stream is open, and
changes the place on its way. -/
def checkInPlace (v : Validator) (e : Event) : Except Violation Unit × Validator :=
  let (verdict, place) := if v.pass.isOpened then v.place.judge v.limits e else (.ok (), v.place)
  match verdict with
  | .error breach => (.error ⟨v.pass.position, .breach breach⟩, { v with pass := v.pass.abort, place })
  | .ok () =>
    match v.pass.accept e.kind with
    | .error violation => (.error violation, { v with place })
    | .ok pass => (.ok (), { v with pass, place })

theorem consistent_run (limits : Limits) (past : List Event)
    (h : ((fresh limits).run past).pass.isOpened = true) :
    ((fresh limits).run past).place.Consistent := by
  have reads := reads_run limits past
  generalize (fresh limits).run past = v at reads h ⊢
  generalize (fresh limits).accepted past = history at reads
  cases reads with
  | idle | closed _ | faulted _ => cases h
  | @opened d _ =>
      intro hNone
      cases d with
      | blank => rfl
      | within ended stem last => cases hNone

/-- Which of the two is asked first makes no difference. -/
theorem check_eq_checkInPlace {v : Validator} (h : v.pass.isOpened = true → v.place.Consistent)
    (e : Event) : v.check e = v.checkInPlace e := by
  cases hOpened : v.pass.isOpened with
  | false =>
      simp only [check, checkInPlace, hOpened, Bool.false_eq_true, if_false]
      cases hAccept : v.pass.accept e.kind with
      | error violation => rfl
      | ok next =>
          rcases Pass.accept_eq_ok hAccept with ⟨_, rfl, _⟩ | ⟨hPhase, _⟩ | ⟨hPhase, _⟩
          · rfl
          · simp [Pass.isOpened, hPhase] at hOpened
          · simp [Pass.isOpened, hPhase] at hOpened
  | true =>
      simp only [check, checkInPlace, hOpened, if_true, Place.judge_eq (h hOpened)]
      cases hAccept : v.pass.accept e.kind with
      | error violation =>
          -- Inside the bracket only `init` is refused, and the grammar lets it pass.
          obtain rfl := Pass.eq_init_of_accept_eq_error (by simpa [Pass.isOpened] using hOpened) hAccept
          rfl
      | ok next => cases v.place.breach? v.limits e <;> rfl

/-! ## Refused events

They are those that the pass of the validator turns away. -/

def isRefusal : Except Violation Unit → Bool
  | .ok _ => false
  | .error violation => violation.isRefusal

theorem check_eq_refusal_iff {v : Validator} {e : Event} {violation : Violation} :
    (v.check e).1 = .error violation ∧ violation.isRefusal = true ↔
      v.pass.accept e.kind = .error violation := by
  constructor
  · rintro ⟨hVerdict, hRefusal⟩
    rcases v.check_cases e with ⟨own, hAccept, hCheck⟩ | ⟨_, breach, _, hBreach, _⟩ |
      ⟨_, _, hOk, _⟩
    · rw [hCheck] at hVerdict
      rw [hAccept, Except.error.inj hVerdict]
    · rw [hBreach] at hVerdict
      obtain rfl := Except.error.inj hVerdict
      cases hRefusal
    · rw [hOk] at hVerdict
      cases hVerdict
  · intro hAccept
    rw [check_of_refused hAccept]
    obtain ⟨refusal, rfl⟩ := Pass.accept_eq_error hAccept
    exact ⟨rfl, rfl⟩

theorem check_of_isRefusal {v : Validator} {e : Event} (h : isRefusal (v.check e).1 = true) :
    (v.check e).2 = v := by
  cases hVerdict : (v.check e).1 with
  | ok _ =>
      rw [hVerdict] at h
      cases h
  | error violation =>
      rw [hVerdict] at h
      rw [check_of_refused (check_eq_refusal_iff.mp ⟨hVerdict, h⟩)]

def heard (v : Validator) (stream : List Event) : List Event :=
  ((stream.zip (v.verdicts stream)).filter fun call => !isRefusal call.2).map Prod.fst

theorem heard_cons (v : Validator) (e : Event) (rest : List Event) :
    v.heard (e :: rest) =
      if isRefusal (v.check e).1 then (v.check e).2.heard rest
      else e :: (v.check e).2.heard rest := by
  simp only [heard, verdicts, List.zip_cons_cons]
  cases hRefusal : isRefusal (v.check e).1 with
  | true => simp [hRefusal]
  | false => simp [hRefusal]

/-- Without its refused events a stream leads to the same state, and what is
left of it gets the same verdicts. -/
theorem run_heard (stream : List Event) : ∀ v : Validator,
    v.run (v.heard stream) = v.run stream ∧
      v.verdicts (v.heard stream) = (v.verdicts stream).filter fun verdict => !isRefusal verdict := by
  induction stream with
  | nil => intro v; exact ⟨rfl, rfl⟩
  | cons e rest ih =>
      intro v
      obtain ⟨hRun, hVerdicts⟩ := ih (v.check e).2
      cases hRefusal : isRefusal (v.check e).1 with
      | true =>
          have hSame : (v.check e).2 = v := check_of_isRefusal hRefusal
          rw [heard_cons, hRefusal, if_pos rfl, run_cons, verdicts]
          rw [hSame] at hRun hVerdicts ⊢
          exact ⟨hRun, by simp [hRefusal, hVerdicts]⟩
      | false =>
          rw [heard_cons, hRefusal, if_neg Bool.false_ne_true, run_cons, run_cons, verdicts, verdicts]
          exact ⟨hRun, by simp [hRefusal, hVerdicts]⟩

/-! ## Breaches -/

theorem state_of_breach {v : Validator} {e : Event} {position : Nat} {breach : Breach}
    (h : (v.check e).1 = .error ⟨position, .breach breach⟩) :
    position = v.pass.position ∧ v.pass.phase = .opened ∧
      (v.check e).2 = { v with pass := v.pass.abort, place := v.place.afterBreach breach } := by
  cases hAccept : v.pass.accept e.kind with
  | error violation =>
      obtain ⟨refusal, rfl⟩ := Pass.accept_eq_error hAccept
      rw [check_of_refused hAccept] at h
      cases h
  | ok next =>
      cases hBreach : v.place.breach? v.limits e with
      | none =>
          rw [check_of_accepted hAccept hBreach] at h
          cases h
      | some met =>
          have hCheck := check_of_breach hAccept hBreach
          rw [hCheck] at h
          obtain ⟨rfl, rfl⟩ : v.pass.position = position ∧ met = breach := by simpa using h
          refine ⟨rfl, ?_, congrArg Prod.snd hCheck⟩
          rcases Pass.accept_eq_ok hAccept with ⟨_, rfl, _⟩ | ⟨hOpened, _⟩ | ⟨hOpened, _⟩
          · cases hBreach
          · exact hOpened
          · exact hOpened

theorem check_of_faulted {v : Validator} (h : v.pass.phase = .faulted) (e : Event) :
    v.check e = (.error ⟨v.pass.position, .refusal (.afterBreach e.kind)⟩, v) :=
  check_of_refused (by simp [Pass.accept, h, Phase.next])

theorem run_of_faulted {v : Validator} (h : v.pass.phase = .faulted) (stream : List Event) :
    v.run stream = v := by
  induction stream with
  | nil => rfl
  | cons e rest ih => rw [run_cons, check_of_faulted h, ih]

/-- What a validator turns away leaves no trace, and what breaks the grammar ends
the stream.

In every state that a stream leads to, a check that changes the place on its way
comes to the same.  An event is refused exactly if the pass turns it away, and in
the words of the pass; it changes nothing, and without all refused events the
stream leads to the same state and gets the same verdicts.  A breach is met only
inside the bracket.  It faults the validator and changes nothing else, but for
the compound before a surplus alternative; every later event is refused at the
position of the breach. -/
theorem refusals_erasable (limits : Limits) (past : List Event) (e : Event) :
    let v := (fresh limits).run past
    let called := v.check e
    let heard := (fresh limits).heard past
    called = v.checkInPlace e ∧
      (∀ violation, called.1 = .error violation ∧ violation.isRefusal = true ↔
        v.pass.accept e.kind = .error violation) ∧
      (isRefusal called.1 = true → called.2 = v) ∧
      (fresh limits).run heard = v ∧
      ((fresh limits).verdicts heard =
        ((fresh limits).verdicts past).filter fun verdict => !isRefusal verdict) ∧
      ∀ position breach, called.1 = .error ⟨position, .breach breach⟩ →
        position = v.pass.position ∧ v.pass.phase = .opened ∧
          called.2.pass = ⟨.faulted, v.pass.position⟩ ∧ called.2.limits = v.limits ∧
          called.2.place.inSelector = v.place.inSelector ∧
          called.2.place.alternatives = v.place.alternatives ∧
          (called.2.place.compound = v.place.compound ∨
            (∃ limit, breach = .tooManyAlternatives limit) ∧
              called.2.place.compound = .empty) ∧
          ∀ rest other, ((called.2.run rest).check other).1 =
            .error ⟨v.pass.position, .refusal (.afterBreach other.kind)⟩ := by
  intro v called heard
  obtain ⟨hRun, hVerdicts⟩ := run_heard past (fresh limits)
  refine ⟨check_eq_checkInPlace (consistent_run limits past) e, fun _ => check_eq_refusal_iff,
    check_of_isRefusal, hRun, hVerdicts, fun position breach hBreach => ?_⟩
  obtain ⟨hPosition, hOpened, hAfter⟩ := state_of_breach hBreach
  have hFaulted : called.2.pass = ⟨.faulted, v.pass.position⟩ := congrArg Validator.pass hAfter
  have hPlace : called.2.place = v.place.afterBreach breach := congrArg Validator.place hAfter
  obtain ⟨hSelector, hAlternatives, hCompound⟩ := v.place.afterBreach_keeps breach
  refine ⟨hPosition, hOpened, hFaulted, ?_, ?_, ?_, ?_, fun rest other => ?_⟩
  · show (v.check e).2.limits = v.limits
    rw [hAfter]
  · rw [hPlace, hSelector]
  · rw [hPlace, hAlternatives]
  · rw [hPlace]
    exact hCompound
  · have hPhase : called.2.pass.phase = .faulted := by rw [hFaulted]
    rw [run_of_faulted hPhase, check_of_faulted hPhase, hFaulted]

end Validator

end SelectorStream
