/-
# `SelectorStream.Proofs.Verdicts` — a validator at work on a stream

A validator is sent a whole stream, and goes on after errors.  `verdicts` are
its answers, `accepted` are the events it accepts, and `Accepts` says that it
accepts all of them.  `check_cases` is the only look into `Validator.check`:
an event is refused, breaks a rule, or is accepted.
-/
import SelectorStream.Proofs.Bracket
import SelectorStream.Validator

namespace SelectorStream

namespace Validator

def verdicts (v : Validator) : List Event → List (Except Violation Unit)
  | [] => []
  | e :: rest => (v.check e).1 :: (v.check e).2.verdicts rest

def Accepts (v : Validator) (stream : List Event) : Prop :=
  ∀ verdict ∈ v.verdicts stream, verdict = .ok ()

instance (v : Validator) : DecidablePred v.Accepts := fun stream =>
  have : DecidablePred fun verdict : Except Violation Unit => verdict = .ok ()
    | .ok () => .isTrue rfl
    | .error _ => .isFalse nofun
  inferInstanceAs (Decidable (∀ verdict ∈ v.verdicts stream, verdict = .ok ()))

def accepted (v : Validator) : List Event → List Event
  | [] => []
  | e :: rest =>
    match (v.check e).1 with
    | .ok () => e :: (v.check e).2.accepted rest
    | .error _ => (v.check e).2.accepted rest

/-! ## One event -/

theorem check_of_refused {v : Validator} {e : Event} {violation : Violation}
    (h : v.pass.accept e.kind = .error violation) : v.check e = (.error violation, v) := by
  simp only [check, h]

theorem check_of_accepted {v : Validator} {e : Event} {next : Pass}
    (h : v.pass.accept e.kind = .ok next) (hb : v.place.breach? v.limits e = none) :
    v.check e = (.ok (), { v with pass := next, place := v.place.after e }) := by
  simp only [check, h, hb]

theorem check_of_breach {v : Validator} {e : Event} {next : Pass} {breach : Breach}
    (h : v.pass.accept e.kind = .ok next) (hb : v.place.breach? v.limits e = some breach) :
    v.check e = (.error ⟨v.pass.position, .breach breach⟩,
      { v with pass := v.pass.abort, place := v.place.afterBreach breach }) := by
  simp only [check, h, hb]

theorem accepted_of_ok {v : Validator} {e : Event} (h : (v.check e).1 = .ok ()) :
    v.accepted [e] = [e] := by
  simp only [accepted, h]

theorem accepted_of_error {v : Validator} {e : Event} {violation : Violation}
    (h : (v.check e).1 = .error violation) : v.accepted [e] = [] := by
  simp only [accepted, h]

/-- The three ways in which a check ends. -/
theorem check_cases (v : Validator) (e : Event) :
    (∃ violation, v.pass.accept e.kind = .error violation ∧ v.check e = (.error violation, v)) ∨
    (∃ next breach, v.pass.accept e.kind = .ok next ∧
      (v.check e).1 = .error ⟨v.pass.position, .breach breach⟩ ∧
      (v.check e).2.pass.phase = .faulted) ∨
    (∃ next, v.pass.accept e.kind = .ok next ∧ (v.check e).1 = .ok () ∧
      (v.check e).2.pass = next) := by
  cases hAccept : v.pass.accept e.kind with
  | error violation => exact .inl ⟨violation, rfl, check_of_refused hAccept⟩
  | ok next =>
      cases hBreach : v.place.breach? v.limits e with
      | some breach =>
          have hCheck := check_of_breach hAccept hBreach
          exact .inr (.inl ⟨next, breach, rfl, congrArg Prod.fst hCheck, by rw [hCheck]; rfl⟩)
      | none =>
          have hCheck := check_of_accepted hAccept hBreach
          exact .inr (.inr ⟨next, rfl, congrArg Prod.fst hCheck, by rw [hCheck]⟩)

theorem step_of_ok {v : Validator} {e : Event} (h : (v.check e).1 = .ok ()) :
    v.place.breach? v.limits e = none ∧ (v.check e).2.place = v.place.after e := by
  cases hAccept : v.pass.accept e.kind with
  | error violation =>
      rw [check_of_refused hAccept] at h
      cases h
  | ok next =>
      cases hBreach : v.place.breach? v.limits e with
      | some breach =>
          rw [check_of_breach hAccept hBreach] at h
          cases h
      | none => exact ⟨rfl, by rw [check_of_accepted hAccept hBreach]⟩

theorem phase_check_of_breach {v : Validator} {e : Event} {position : Nat} {breach : Breach}
    (h : (v.check e).1 = .error ⟨position, .breach breach⟩) :
    (v.check e).2.pass.phase = .faulted := by
  rcases check_cases v e with ⟨_, hAccept, hCheck⟩ | ⟨_, _, _, _, hFaulted⟩ | ⟨_, _, hVerdict, _⟩
  · obtain ⟨_, rfl⟩ := Pass.accept_eq_error hAccept
    rw [hCheck] at h
    cases h
  · exact hFaulted
  · rw [hVerdict] at h
    cases h

/-- A validator that has ended refuses every event, and stays as it is. -/
theorem check_of_ended {v : Validator} (h : v.pass.phase = .closed ∨ v.pass.phase = .faulted)
    (e : Event) : ∃ violation, v.check e = (.error violation, v) := by
  obtain ⟨_, hAccept⟩ := Pass.exists_accept_eq_error h e.kind
  exact ⟨_, check_of_refused hAccept⟩

/-! ## Streams -/

theorem accepts_nil (v : Validator) : v.Accepts [] := by
  simp [Accepts, verdicts]

theorem accepts_cons {v : Validator} {e : Event} {rest : List Event} :
    v.Accepts (e :: rest) ↔ (v.check e).1 = .ok () ∧ (v.check e).2.Accepts rest := by
  simp [Accepts, verdicts]

theorem run_nil (v : Validator) : v.run [] = v := rfl

theorem run_cons (v : Validator) (e : Event) (rest : List Event) :
    v.run (e :: rest) = (v.check e).2.run rest := rfl

theorem run_append (v : Validator) (past rest : List Event) :
    v.run (past ++ rest) = (v.run past).run rest := by
  simp [run]

theorem accepts_append {v : Validator} {past rest : List Event} :
    v.Accepts (past ++ rest) ↔ v.Accepts past ∧ (v.run past).Accepts rest := by
  induction past generalizing v with
  | nil => simp [accepts_nil, run_nil]
  | cons e past ih =>
      rw [List.cons_append, accepts_cons, accepts_cons, run_cons, ih, and_assoc]

theorem verdicts_append (v : Validator) (past rest : List Event) :
    v.verdicts (past ++ rest) = v.verdicts past ++ (v.run past).verdicts rest := by
  induction past generalizing v with
  | nil => rfl
  | cons e past ih => exact congrArg (_ :: ·) (ih _)

theorem length_verdicts (v : Validator) (stream : List Event) :
    (v.verdicts stream).length = stream.length := by
  induction stream generalizing v with
  | nil => rfl
  | cons e rest ih => exact congrArg (· + 1) (ih _)

theorem accepted_of_accepts {v : Validator} {stream : List Event} (h : v.Accepts stream) :
    v.accepted stream = stream := by
  induction stream generalizing v with
  | nil => rfl
  | cons e rest ih =>
      obtain ⟨hCheck, hRest⟩ := accepts_cons.mp h
      simp only [accepted, hCheck, ih hRest]

theorem accepted_append (v : Validator) (past rest : List Event) :
    v.accepted (past ++ rest) = v.accepted past ++ (v.run past).accepted rest := by
  induction past generalizing v with
  | nil => rfl
  | cons e past ih =>
      simp only [List.cons_append, accepted, run_cons, ih]
      split <;> rfl

/-! ## The end of a stream -/

theorem accepted_of_ended {v : Validator} (h : v.pass.phase = .closed ∨ v.pass.phase = .faulted)
    (stream : List Event) : v.accepted stream = [] := by
  induction stream with
  | nil => rfl
  | cons e rest ih =>
      obtain ⟨violation, hCheck⟩ := check_of_ended h e
      simp only [accepted, hCheck, ih]

/-- Without the events it rejects, a validator accepts a stream to the end. -/
theorem accepts_accepted (stream : List Event) : ∀ v : Validator,
    v.Accepts (v.accepted stream) := by
  induction stream with
  | nil => intro v; exact accepts_nil v
  | cons e rest ih =>
      intro v
      rcases check_cases v e with ⟨violation, _, hCheck⟩ | ⟨_, _, _, hVerdict, hFaulted⟩ |
        ⟨_, _, hVerdict, _⟩
      · simp only [accepted, hCheck]
        exact ih v
      · simp only [accepted, hVerdict, accepted_of_ended (.inr hFaulted)]
        exact accepts_nil v
      · simp only [accepted, hVerdict]
        exact accepts_cons.mpr ⟨hVerdict, ih _⟩

theorem complete_of_accepts_close {v : Validator} {past rest : List Event}
    (h : v.Accepts (past ++ .close :: rest)) :
    rest = [] ∧ (v.run (past ++ .close :: rest)).isComplete = true := by
  obtain ⟨hClose, hRest⟩ := accepts_cons.mp (accepts_append.mp h).2
  have closed : ((v.run past).check .close).2.pass.phase = .closed := by
    rcases check_cases (v.run past) .close with ⟨_, _, hCheck⟩ | ⟨_, _, _, hVerdict, _⟩ |
      ⟨next, hAccept, _, hPass⟩
    · rw [hCheck] at hClose
      cases hClose
    · rw [hVerdict] at hClose
      cases hClose
    · rw [hPass]
      rcases Pass.accept_eq_ok hAccept with ⟨_, he, _⟩ | ⟨_, _, hNext⟩ | ⟨_, _, he, _⟩
      · cases he
      · rw [hNext]
      · exact absurd rfl he
  cases rest with
  | nil =>
      refine ⟨rfl, ?_⟩
      rw [run_append, run_cons, run_nil, isComplete, Pass.isClosed, closed]
      rfl
  | cons e rest =>
      obtain ⟨violation, hCheck⟩ := check_of_ended (.inl closed) e
      have hFirst := (accepts_cons.mp hRest).1
      rw [hCheck] at hFirst
      cases hFirst

theorem phase_run_ne_faulted (stream : List Event) : ∀ v : Validator, v.pass.phase ≠ .faulted →
    (∀ position breach, .error ⟨position, .breach breach⟩ ∉ v.verdicts stream) →
      (v.run stream).pass.phase ≠ .faulted := by
  induction stream with
  | nil => intro v h _; exact h
  | cons e rest ih =>
      intro v h noBreach
      refine ih (v.check e).2 ?_ fun position breach hm =>
        noBreach position breach (List.mem_cons_of_mem _ hm)
      rcases check_cases v e with ⟨_, _, hCheck⟩ | ⟨_, breach, _, hVerdict, _⟩ |
        ⟨next, hAccept, _, hPass⟩
      · rw [hCheck]
        exact h
      · exact absurd (hVerdict ▸ List.mem_cons_self) (noBreach v.pass.position breach)
      · rw [hPass]
        rcases Pass.accept_eq_ok hAccept with ⟨_, _, rfl⟩ | ⟨_, _, rfl⟩ | ⟨_, _, _, rfl⟩ <;>
          exact fun hFaulted => by cases hFaulted

end Validator

end SelectorStream
