/-
# `SelectorStream.Proofs.Loosening` — wider limits accept more, and nothing else changes

Neither a pass nor a place remembers the limits; they are looked at only where a
rule is checked.  So a validator can be given other limits in the middle of a
stream, `Validator.withLimits`, and as long as it accepts the events, one with
wider limits accepts them as well and is led to the same state.

What wider limits make acceptable was rejected for the sake of a limit that has
become wider: `Limits.Loosened` lists the four ways.  All other rules of the
grammar are the same under all limits:

    Validator.loosening_only_adds
-/
import SelectorStream.Proofs.Foresight

namespace SelectorStream

/-! ## Wider limits -/

namespace Limits

structure Within (strict loose : Limits) : Prop where
  alternatives : strict.maxAlternatives ≤ loose.maxAlternatives
  components : strict.maxComponents ≤ loose.maxComponents
  emptyList : strict.allowEmptyList = true → loose.allowEmptyList = true
  satisfiable : loose.rejectUnsatisfiable = true → strict.rejectUnsatisfiable = true

/-- The rules that bind under some limits and are looser, or gone, under others. -/
inductive Loosened (strict loose : Limits) : Breach → Prop where
  | emptyList : strict.allowEmptyList = false → loose.allowEmptyList = true →
    Loosened strict loose .emptyList
  | tooManyAlternatives : strict.maxAlternatives < loose.maxAlternatives →
    Loosened strict loose (.tooManyAlternatives strict.maxAlternatives)
  | compoundTooLong : strict.maxComponents < loose.maxComponents →
    Loosened strict loose (.compoundTooLong strict.maxComponents)
  | unsatisfiableNth {x : Nth} : strict.rejectUnsatisfiable = true →
    loose.rejectUnsatisfiable = false → x.neverMatches = true →
    Loosened strict loose (.unsatisfiableNth x.step x.offset)

end Limits

/-! ## Rules with and without limits

A rule that looks at the limits is never checked before one that does not, so
the rules fall into two groups, one after the other. -/

namespace Place

/-- The rule without a limit that an event would break. -/
def formBreach? (place : Place) : Event → Option Breach
  | .init => none
  | .close => if place.endsEmpty then some (.emptyCompound .close) else none
  | .selector => if place.endsEmpty then some (.emptyCompound .selector) else none
  | .head h =>
    if !place.inSelector then some (.missingSelector (.head h.kind))
    else place.compound.latest?.map (.misplacedHead (.head h.kind))
  | .filter f => if !place.inSelector then some (.missingSelector (.filter f.kind)) else none
  | .combinator c =>
    if !place.inSelector then some (.missingSelector (.combinator c))
    else if place.compound.isEmpty then some (.danglingCombinator (.combinator c))
    else none

/-- The limit that an event of the right form would exceed. -/
def limitBreach? (place : Place) (limits : Limits) : Event → Option Breach
  | .init | .combinator _ => none
  | .close =>
    if place.alternatives = 0 && !limits.allowEmptyList then some .emptyList else none
  | .selector =>
    if limits.maxAlternatives ≤ place.alternatives then
      some (.tooManyAlternatives limits.maxAlternatives)
    else none
  | .head _ => place.overlong? limits
  | .filter (.nthChild x) =>
    if limits.rejectUnsatisfiable && x.neverMatches then some (.unsatisfiableNth x.step x.offset)
    else place.overlong? limits
  | .filter _ => place.overlong? limits

theorem breach?_eq_or (place : Place) (limits : Limits) (e : Event) :
    place.breach? limits e = (place.formBreach? e).or (place.limitBreach? limits e) := by
  cases e with
  | init => rfl
  | close =>
      simp only [breach?, formBreach?]
      split <;> rfl
  | selector =>
      simp only [breach?, formBreach?]
      split <;> rfl
  | head h =>
      simp only [breach?, headBreach?, formBreach?]
      split
      · rfl
      · cases place.compound.latest? <;> rfl
  | filter f =>
      simp only [breach?, filterBreach?, formBreach?]
      split
      · rfl
      · cases f <;> rfl
  | combinator c =>
      simp only [breach?, formBreach?, limitBreach?, Option.or_none]

variable {strict loose : Limits} {place : Place} {e : Event}

theorem overlong?_eq_none_iff {limits : Limits} :
    place.overlong? limits = none ↔ place.compound.size < limits.maxComponents := by
  simp [overlong?]

theorem overlong?_of_within (within : strict.Within loose) (h : place.overlong? strict = none) :
    place.overlong? loose = none :=
  overlong?_eq_none_iff.mpr (Nat.lt_of_lt_of_le (overlong?_eq_none_iff.mp h) within.components)

theorem loosened_of_overlong? {breach : Breach} (hBreach : place.overlong? strict = some breach)
    (hNone : place.overlong? loose = none) : strict.Loosened loose breach := by
  simp only [overlong?] at hBreach
  split at hBreach
  · rename_i hFull
    obtain rfl := Option.some.inj hBreach
    exact .compoundTooLong (Nat.lt_of_le_of_lt hFull (overlong?_eq_none_iff.mp hNone))
  · cases hBreach

theorem limitBreach?_of_within (within : strict.Within loose)
    (h : place.limitBreach? strict e = none) : place.limitBreach? loose e = none := by
  match e with
  | .init | .combinator _ => rfl
  | .close =>
      simp only [limitBreach?, Bool.and_eq_true, decide_eq_true_eq, Bool.not_eq_true',
        ite_eq_right_iff, reduceCtorEq, imp_false] at h ⊢
      rintro ⟨hNone, hLoose⟩
      refine h ⟨hNone, (Bool.not_eq_true _).mp fun hStrict => ?_⟩
      rw [within.emptyList hStrict] at hLoose
      cases hLoose
  | .selector =>
      simp only [limitBreach?, ite_eq_right_iff, reduceCtorEq, imp_false] at h ⊢
      exact fun hFull => h (Nat.le_trans within.alternatives hFull)
  | .head _ => exact overlong?_of_within within h
  | .filter (.nthChild x) =>
      simp only [limitBreach?, Bool.and_eq_true] at h ⊢
      split at h
      · cases h
      · rename_i hMatches
        rw [if_neg fun hNever => hMatches ⟨within.satisfiable hNever.1, hNever.2⟩]
        exact overlong?_of_within within h
  | .filter (.identifier _) | .filter (.styleClass _) | .filter (.attribute _ _)
  | .filter (.structural _) => exact overlong?_of_within within h

theorem loosened_of_limitBreach? {breach : Breach}
    (hBreach : place.limitBreach? strict e = some breach)
    (hNone : place.limitBreach? loose e = none) : strict.Loosened loose breach := by
  match e with
  | .init | .combinator _ => cases hBreach
  | .close =>
      simp only [limitBreach?, Bool.and_eq_true, decide_eq_true_eq, Bool.not_eq_true',
        ite_eq_right_iff, reduceCtorEq, imp_false, Option.ite_none_right_eq_some] at hBreach hNone
      obtain ⟨⟨hEmpty, hStrict⟩, hBreach⟩ := hBreach
      obtain rfl := Option.some.inj hBreach
      exact .emptyList hStrict ((Bool.not_eq_false _).mp fun hLoose => hNone ⟨hEmpty, hLoose⟩)
  | .selector =>
      simp only [limitBreach?, ite_eq_right_iff, reduceCtorEq, imp_false,
        Option.ite_none_right_eq_some] at hBreach hNone
      obtain ⟨hFull, hBreach⟩ := hBreach
      obtain rfl := Option.some.inj hBreach
      exact .tooManyAlternatives (Nat.lt_of_le_of_lt hFull (Nat.not_le.mp hNone))
  | .head _ => exact loosened_of_overlong? hBreach hNone
  | .filter (.nthChild x) =>
      simp only [limitBreach?, Bool.and_eq_true] at hBreach hNone
      split at hNone
      · cases hNone
      · rename_i hMatches
        split at hBreach
        · rename_i hNever
          obtain rfl := Option.some.inj hBreach
          have hLoose := (Bool.not_eq_true _).mp fun hReject => hMatches ⟨hReject, hNever.2⟩
          exact .unsatisfiableNth hNever.1 hLoose hNever.2
        · exact loosened_of_overlong? hBreach hNone
  | .filter (.identifier _) | .filter (.styleClass _) | .filter (.attribute _ _)
  | .filter (.structural _) => exact loosened_of_overlong? hBreach hNone

theorem breach?_of_within (within : strict.Within loose) (h : place.breach? strict e = none) :
    place.breach? loose e = none := by
  rw [breach?_eq_or, Option.or_eq_none_iff] at h ⊢
  exact ⟨h.1, limitBreach?_of_within within h.2⟩

/-- A rule that is broken under some limits and not under others is a rule of
the limits, and has become looser. -/
theorem loosened_of_breach? {breach : Breach} (hBreach : place.breach? strict e = some breach)
    (hNone : place.breach? loose e = none) : strict.Loosened loose breach := by
  rw [breach?_eq_or, Option.or_eq_none_iff] at hNone
  rw [breach?_eq_or, hNone.1, Option.none_or] at hBreach
  exact loosened_of_limitBreach? hBreach hNone.2

end Place

/-! ## Validators under two limits -/

namespace Validator

def withLimits (v : Validator) (limits : Limits) : Validator :=
  { v with limits }

variable {strict loose : Limits}

theorem limits_check (v : Validator) (e : Event) : (v.check e).2.limits = v.limits := by
  cases hAccept : v.pass.accept e.kind with
  | error violation => rw [check_of_refused hAccept]
  | ok next =>
      cases hBreach : v.place.breach? v.limits e with
      | some breach => rw [check_of_breach hAccept hBreach]
      | none => rw [check_of_accepted hAccept hBreach]

theorem limits_run (stream : List Event) : ∀ v : Validator, (v.run stream).limits = v.limits := by
  induction stream with
  | nil => intro v; rfl
  | cons e rest ih =>
      intro v
      rw [run_cons, ih, limits_check]

/-- An accepted event is accepted under wider limits, and leads to the same
state. -/
theorem check_withLimits {v : Validator} (within : v.limits.Within loose) {e : Event}
    (h : (v.check e).1 = .ok ()) :
    (v.withLimits loose).check e = (.ok (), (v.check e).2.withLimits loose) := by
  cases hAccept : v.pass.accept e.kind with
  | error violation =>
      rw [check_of_refused hAccept] at h
      cases h
  | ok next =>
      have hBreach := (step_of_ok h).1
      rw [check_of_accepted hAccept hBreach]
      exact check_of_accepted (v := v.withLimits loose) hAccept
        (Place.breach?_of_within within hBreach)

theorem run_withLimits (stream : List Event) : ∀ v : Validator, v.limits.Within loose →
    v.Accepts stream → (v.withLimits loose).Accepts stream ∧
      (v.withLimits loose).run stream = (v.run stream).withLimits loose := by
  induction stream with
  | nil => intro v _ _; exact ⟨accepts_nil _, rfl⟩
  | cons e rest ih =>
      intro v within h
      obtain ⟨hCheck, hRest⟩ := accepts_cons.mp h
      have hLoose := check_withLimits within hCheck
      obtain ⟨hAccepts, hRun⟩ := ih (v.check e).2 (by rwa [limits_check]) hRest
      rw [accepts_cons, run_cons, run_cons, hLoose]
      exact ⟨⟨rfl, hAccepts⟩, hRun⟩

theorem loosened_of_check {v : Validator} {e : Event} {violation : Violation}
    (hError : (v.check e).1 = .error violation)
    (hOk : ((v.withLimits loose).check e).1 = .ok ()) :
    ∃ breach, violation = ⟨v.pass.position, .breach breach⟩ ∧ v.limits.Loosened loose breach := by
  cases hAccept : v.pass.accept e.kind with
  | error own =>
      rw [check_of_refused (v := v.withLimits loose) hAccept] at hOk
      cases hOk
  | ok next =>
      cases hBreach : v.place.breach? v.limits e with
      | none =>
          rw [check_of_accepted hAccept hBreach] at hError
          cases hError
      | some breach =>
          rw [check_of_breach hAccept hBreach] at hError
          exact ⟨breach, (Except.error.inj hError).symm,
            Place.loosened_of_breach? hBreach (step_of_ok hOk).1⟩

/-- Looser limits only add streams, and only the limits are looser.

Let all limits be at least as wide as before.  A stream that was accepted event
by event still is, and ends in the same pass and at the same place.  If a stream
is now accepted that was not, its first violation was the breach of a limit
that has become wider, in these words and at this position. -/
theorem loosening_only_adds (strict loose : Limits) (within : strict.Within loose)
    (stream : List Event) :
    ((fresh strict).Accepts stream → (fresh loose).Accepts stream ∧
      ((fresh loose).run stream).pass = ((fresh strict).run stream).pass ∧
      ((fresh loose).run stream).place = ((fresh strict).run stream).place) ∧
    ((fresh loose).Accepts stream → ¬ (fresh strict).Accepts stream →
      ∃ past e rest breach, stream = past ++ e :: rest ∧ (fresh strict).Accepts past ∧
        (((fresh strict).run past).check e).1 = .error ⟨past.length, .breach breach⟩ ∧
        strict.Loosened loose breach) := by
  constructor
  · intro hStrict
    obtain ⟨hLoose, hRun⟩ := run_withLimits stream (fresh strict) within hStrict
    have hRun : (fresh loose).run stream = ((fresh strict).run stream).withLimits loose := hRun
    rw [hRun]
    exact ⟨hLoose, rfl, rfl⟩
  · intro hLoose hStrict
    obtain ⟨past, e, rest, violation, rfl, hPast, hError⟩ :=
      exists_first_rejection stream (fresh strict) hStrict
    have hRun : (fresh loose).run past = ((fresh strict).run past).withLimits loose :=
      (run_withLimits past (fresh strict) within hPast).2
    have hOk := (accepts_cons.mp (accepts_append.mp hLoose).2).1
    rw [hRun] at hOk
    obtain ⟨breach, rfl, hLoosened⟩ := loosened_of_check hError hOk
    rw [limits_run] at hLoosened
    have hPosition := (reads_run strict past).position
    rw [accepted_of_accepts hPast] at hPosition
    rw [hPosition] at hError
    exact ⟨past, e, rest, breach, rfl, hPast, hError, hLoosened⟩

/-- Room for a second component: a stream with one component is accepted before
and after, one with two only after. -/
theorem loosening_adds_second_component :
    let strict : Limits := { maxAlternatives := 1, maxComponents := 1, rejectUnsatisfiable := true }
    let loose : Limits := { maxAlternatives := 1, maxComponents := 2, allowEmptyList := true }
    let short : List Event := [.init, .selector, .head .universal, .close]
    let long : List Event :=
      [.init, .selector, .head .universal, .filter (.styleClass "x"), .close]
    strict.Within loose ∧
      ((fresh strict).Accepts short ∧ (fresh loose).Accepts short ∧
        ((fresh loose).run short).place = ((fresh strict).run short).place) ∧
      (fresh loose).Accepts long ∧ ¬ (fresh strict).Accepts long ∧
      ∃ past e rest breach, long = past ++ e :: rest ∧ (fresh strict).Accepts past ∧
        (((fresh strict).run past).check e).1 = .error ⟨past.length, .breach breach⟩ ∧
        strict.Loosened loose breach := by
  intro strict loose short long
  have within : strict.Within loose :=
    ⟨Nat.le_refl 1, Nat.le_succ 1, fun _ => rfl, fun h => by cases h⟩
  have hShort : (fresh strict).Accepts short := by decide
  have hLong : (fresh loose).Accepts long := by decide
  have hRejected : ¬ (fresh strict).Accepts long := by decide
  obtain ⟨hKept, _, hPlace⟩ := (loosening_only_adds strict loose within short).1 hShort
  exact ⟨within, ⟨hShort, hKept, hPlace⟩, hLong, hRejected,
    (loosening_only_adds strict loose within long).2 hLong hRejected⟩

end Validator

end SelectorStream
