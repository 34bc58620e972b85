/-
# `SelectorStream.Proofs.Satisfiability` — positions that no element has

`an+b` reaches a position, counted from one, unless neither coefficient is positive
(`Nth.satisfiable_iff`).  So two signs decide a question about all natural numbers, and
the breach `unsatisfiableNth` means what its message says:

    Validator.unsatisfiableNth_iff

The rule is asked before the size of the compound and after the alternative has begun.
-/
import Mathlib.Algebra.Order.Ring.Int
import SelectorStream.Proofs.Loosening

namespace SelectorStream

namespace Nth

/-- The position is reached at `n = 0`, or from some `n` on, or never. -/
theorem satisfiable_iff (x : Nth) : x.Satisfiable ↔ 0 < x.step.toInt ∨ 0 < x.offset.toInt := by
  constructor
  · rintro ⟨n, hReached⟩
    by_contra hNeither
    obtain ⟨hStep, hOffset⟩ := not_or.mp hNeither
    have hTerm : x.step.toInt * n ≤ 0 :=
      Int.mul_nonpos_of_nonpos_of_nonneg (Int.not_lt.mp hStep) (Int.natCast_nonneg n)
    omega
  · rintro (hStep | hOffset)
    · refine ⟨(1 - x.offset.toInt).toNat, ?_⟩
      have hTerm := le_mul_of_one_le_left (Int.natCast_nonneg (1 - x.offset.toInt).toNat) hStep
      have hEnough := Int.self_le_toNat (1 - x.offset.toInt)
      omega
    · refine ⟨0, ?_⟩
      rw [Int.natCast_zero, Int.mul_zero, Int.zero_add]
      exact hOffset

theorem neverMatches_iff (x : Nth) : x.neverMatches = true ↔ ¬ x.Satisfiable := by
  rw [satisfiable_iff, not_or, Int.not_lt, Int.not_lt, neverMatches, Bool.and_eq_true,
    decide_eq_true_eq, decide_eq_true_eq]

end Nth

namespace Place

variable {place : Place} {limits : Limits} {a b : Int32}

theorem overlong?_ne_unsatisfiableNth : place.overlong? limits ≠ some (.unsatisfiableNth a b) := by
  rw [overlong?]
  split <;> simp

theorem formBreach?_ne_unsatisfiableNth (e : Event) :
    place.formBreach? e ≠ some (.unsatisfiableNth a b) := by
  cases e with
  | init => simp [formBreach?]
  | close | selector | filter f =>
      rw [formBreach?]
      split <;> simp
  | head h =>
      rw [formBreach?]
      split
      · simp
      · cases place.compound.latest? <;> simp
  | combinator joint =>
      rw [formBreach?]
      split
      · simp
      · split <;> simp

/-- Among the rules with a limit the one about positions comes before the size. -/
theorem limitBreach?_eq_unsatisfiableNth_iff (e : Event) :
    place.limitBreach? limits e = some (.unsatisfiableNth a b) ↔
      limits.rejectUnsatisfiable = true ∧ e = .filter (.nthChild ⟨a, b⟩) ∧
        ¬ Nth.Satisfiable ⟨a, b⟩ := by
  match e with
  | .init | .combinator _ => simp [limitBreach?]
  | .close | .selector =>
      rw [limitBreach?]
      split <;> simp
  | .head _ | .filter (.identifier _) | .filter (.styleClass _) | .filter (.attribute _ _)
  | .filter (.structural _) =>
      exact iff_of_false overlong?_ne_unsatisfiableNth (by simp)
  | .filter (.nthChild x) =>
      have hRule : (limits.rejectUnsatisfiable && x.neverMatches) = true ↔
          limits.rejectUnsatisfiable = true ∧ ¬ x.Satisfiable := by
        rw [Bool.and_eq_true, Nth.neverMatches_iff]
      rw [limitBreach?]
      split
      · rename_i hBroken
        obtain ⟨hReject, hNever⟩ := hRule.mp hBroken
        constructor
        · intro h
          obtain ⟨rfl, rfl⟩ := Breach.unsatisfiableNth.inj (Option.some.inj h)
          exact ⟨hReject, rfl, hNever⟩
        · rintro ⟨_, ⟨⟩, _⟩
          rfl
      · rename_i hKept
        refine iff_of_false overlong?_ne_unsatisfiableNth ?_
        rintro ⟨hReject, ⟨⟩, hNever⟩
        exact hKept (hRule.mpr ⟨hReject, hNever⟩)

theorem breach?_eq_unsatisfiableNth_iff (e : Event) :
    place.breach? limits e = some (.unsatisfiableNth a b) ↔
      place.inSelector = true ∧ limits.rejectUnsatisfiable = true ∧
        e = .filter (.nthChild ⟨a, b⟩) ∧ ¬ Nth.Satisfiable ⟨a, b⟩ := by
  rw [breach?_eq_or, Option.or_eq_some_iff, or_iff_right (formBreach?_ne_unsatisfiableNth e),
    limitBreach?_eq_unsatisfiableNth_iff]
  have hForm (x : Nth) : place.formBreach? (.filter (.nthChild x)) = none ↔
      place.inSelector = true := by
    simp [formBreach?]
  constructor
  · rintro ⟨hNone, hReject, rfl, hNever⟩
    exact ⟨(hForm _).mp hNone, hReject, rfl, hNever⟩
  · rintro ⟨hSelector, hReject, rfl, hNever⟩
    exact ⟨(hForm _).mpr hSelector, hReject, rfl, hNever⟩

end Place

namespace Validator

theorem verdict_eq_breach_iff (v : Validator) (e : Event) (position : Nat) (breach : Breach) :
    (v.check e).1 = .error ⟨position, .breach breach⟩ ↔
      (∃ next, v.pass.accept e.kind = .ok next) ∧ position = v.pass.position ∧
        v.place.breach? v.limits e = some breach := by
  cases hAccept : v.pass.accept e.kind with
  | error violation =>
      obtain ⟨refusal, rfl⟩ := Pass.accept_eq_error hAccept
      rw [check_of_refused hAccept]
      simp
  | ok next =>
      cases hBreach : v.place.breach? v.limits e with
      | none =>
          rw [check_of_accepted hAccept hBreach]
          simp
      | some broken =>
          rw [check_of_breach hAccept hBreach]
          simp [eq_comm]

theorem exists_accept_filter_iff (pass : Pass) (f : Filter) :
    (∃ next, pass.accept (Event.filter f).kind = .ok next) ↔ pass.phase = .opened := by
  constructor
  · rintro ⟨next, hAccept⟩
    rcases Pass.accept_eq_ok hAccept with ⟨_, he, _⟩ | ⟨hOpened, _⟩ | ⟨hOpened, _⟩
    · cases he
    · exact hOpened
    · exact hOpened
  · intro hOpened
    exact ⟨_, Pass.accept_inner hOpened (by simp) (by simp)⟩

/-- The breach `unsatisfiableNth` is raised for what matches nothing, and for nothing else.

A validator has been sent any stream.  It answers an event with this breach, in these
coefficients, exactly if the limits ask for it, the stream is inside the bracket and in an
alternative, and the event is `an+b` with them and reaches no position: no natural number
`n` makes `a * n + b`, in exact arithmetic, one or more. -/
theorem unsatisfiableNth_iff (limits : Limits) (past : List Event) (e : Event) (position : Nat)
    (a b : Int32) :
    let v := (fresh limits).run past
    (v.check e).1 = .error ⟨position, .breach (.unsatisfiableNth a b)⟩ ↔
      limits.rejectUnsatisfiable = true ∧ v.pass.phase = .opened ∧ v.place.inSelector = true ∧
        position = ((fresh limits).accepted past).length ∧ e = .filter (.nthChild ⟨a, b⟩) ∧
        ¬ ∃ n : Nat, 1 ≤ a.toInt * n + b.toInt := by
  intro v
  have hPosition : v.pass.position = ((fresh limits).accepted past).length :=
    (reads_run limits past).position
  have hLimits : v.limits = limits := limits_run past (fresh limits)
  rw [verdict_eq_breach_iff, Place.breach?_eq_unsatisfiableNth_iff, hPosition, hLimits]
  constructor
  · rintro ⟨hAccept, hIndex, hSelector, hReject, rfl, hNever⟩
    exact ⟨hReject, (exists_accept_filter_iff _ _).mp hAccept, hSelector, hIndex, rfl, hNever⟩
  · rintro ⟨hReject, hOpened, hSelector, hIndex, rfl, hNever⟩
    exact ⟨(exists_accept_filter_iff _ _).mpr hOpened, hIndex, hSelector, hReject, rfl, hNever⟩

/-- `-n` has no positive value.  As the third event of a stream it raises the breach if
the limits ask for it. -/
theorem unsatisfiableNth_of_minus_n :
    let past : List Event := [.init, .selector]
    let e := Event.filter (.nthChild ⟨-1, 0⟩)
    let strict : Limits := { rejectUnsatisfiable := true }
    (((fresh strict).run past).check e).1 = .error ⟨2, .breach (.unsatisfiableNth (-1) 0)⟩ ∧
      (((fresh {}).run past).check e).1 = .ok () ∧
      ¬ ∃ n : Nat, 1 ≤ (-1 : Int32).toInt * n + (0 : Int32).toInt := by
  intro past e strict
  have hNever : ¬ ∃ n : Nat, 1 ≤ (-1 : Int32).toInt * n + (0 : Int32).toInt := by
    rintro ⟨n, hReached⟩
    have hStep : (-1 : Int32).toInt = -1 := by decide
    have hOffset : (0 : Int32).toInt = 0 := by decide
    rw [hStep, hOffset] at hReached
    omega
  refine ⟨?_, rfl, hNever⟩
  exact (unsatisfiableNth_iff strict past e 2 (-1) 0).mpr ⟨rfl, rfl, rfl, rfl, rfl, hNever⟩

end Validator

end SelectorStream
