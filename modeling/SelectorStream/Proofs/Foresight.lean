/-
# `SelectorStream.Proofs.Foresight` — what a stream can still become

A validator rejects an event because of what came before it.  Seen from the
other side it rejects an event because of what can no longer come: if the
limits leave room for one alternative of one component, whatever has been
accepted so far can be completed (`Draft.exists_completion`), so the first
rejection comes with the first event after which no continuation would be
accepted to the end.

    Validator.rejects_at_first_dead_end
-/
import Mathlib.Order.Bounds.Defs
import SelectorStream.Proofs.Acceptance

namespace SelectorStream

/-! ## Completing a draft -/

section Completion

variable {limits : Limits}

def Compound.universal : Compound where
  head? := some .universal
  nonempty := by simp [Components.events]

theorem Components.exists_compound (room : 1 ≤ limits.maxComponents) {last : Components}
    (fits : last.Fits limits) :
    ∃ compound : Compound, compound.Fits limits ∧
      ∃ rest, compound.events = last.events ++ rest := by
  by_cases h : last.events = []
  · refine ⟨.universal, ⟨room, fun _ _ hx => absurd hx List.not_mem_nil⟩, Compound.universal.events, ?_⟩
    rw [h, List.nil_append]
  · exact ⟨⟨last, h⟩, fits, [], (List.append_nil _).symm⟩

namespace Draft

theorem exists_completion_within (room : 1 ≤ limits.maxComponents) {ended : List Alternative}
    {stem : Stem} {last : Components} (fits : (within ended stem last).Fits limits) :
    ∃ list : SelectorList, list.Fits limits ∧
      ∃ rest, list.events = (within ended stem last).events ++ rest := by
  obtain ⟨hCount, hEnded, hStem, hLast⟩ := fits
  obtain ⟨compound, hCompound, rest, hRest⟩ := Components.exists_compound room hLast
  refine ⟨ended ++ [stem.finish compound], ⟨?_, fun _ => by simp, fun a ha => ?_⟩,
    rest ++ [.close], ?_⟩
  · rw [List.length_append, List.length_singleton]
    exact hCount
  · rcases List.mem_append.mp ha with ha | ha
    · exact hEnded a ha
    · rw [List.mem_singleton.mp ha]
      exact stem.fits_finish hStem hCompound
  · simp [SelectorList.events, events, Stem.events_finish, hRest]

/-- Every draft within the limits begins a list within the limits. -/
theorem exists_completion (hAlternatives : 1 ≤ limits.maxAlternatives)
    (hComponents : 1 ≤ limits.maxComponents) {d : Draft} (fits : d.Fits limits) :
    ∃ list : SelectorList, list.Fits limits ∧ ∃ rest, list.events = d.events ++ rest := by
  cases d with
  | blank =>
      have begun : (within [] .selector {}).Fits limits :=
        ⟨hAlternatives, fun a ha => absurd ha List.not_mem_nil,
          fun c hc => absurd hc List.not_mem_nil, Components.fits_empty limits⟩
      obtain ⟨list, hFits, rest, hEvents⟩ := exists_completion_within hComponents begun
      exact ⟨list, hFits, .selector :: rest, hEvents⟩
  | within ended stem last => exact exists_completion_within hComponents fits

end Draft

end Completion

namespace Validator

/-! ## Viable beginnings -/

/-- A stream begins one that is accepted to its end. -/
def Viable (limits : Limits) (past : List Event) : Prop :=
  ∃ rest, Completes limits (past ++ rest)

section Viable

variable {limits : Limits}

/-- What a validator has accepted is viable, even if it has met a breach since. -/
theorem Reads.viable (hAlternatives : 1 ≤ limits.maxAlternatives)
    (hComponents : 1 ≤ limits.maxComponents) {history : List Event} {v : Validator}
    (reads : Reads limits history v) : Viable limits history := by
  have drafted : ∀ {d : Draft}, d.Fits limits → Viable limits d.events := fun fits => by
    obtain ⟨list, hFits, rest, hEvents⟩ := Draft.exists_completion hAlternatives hComponents fits
    exact ⟨rest, hEvents ▸ completes_events hFits⟩
  cases reads with
  | idle =>
      obtain ⟨rest, hRest⟩ := drafted (d := .blank) trivial
      exact ⟨.init :: rest, hRest⟩
  | opened fits => exact drafted fits
  | closed fits => exact ⟨[], by rw [List.append_nil]; exact completes_events fits⟩
  | faulted fits => exact drafted fits

theorem accepts_iff_viable (hAlternatives : 1 ≤ limits.maxAlternatives)
    (hComponents : 1 ≤ limits.maxComponents) {past : List Event} :
    (fresh limits).Accepts past ↔ Viable limits past := by
  constructor
  · intro h
    have reads := reads_run limits past
    rw [accepted_of_accepts h] at reads
    exact reads.viable hAlternatives hComponents
  · rintro ⟨rest, hAccepts, _⟩
    exact (accepts_append.mp hAccepts).1

end Viable

/-! ## The first rejection -/

theorem Reads.position {limits : Limits} {history : List Event} {v : Validator}
    (reads : Reads limits history v) : v.pass.position = history.length := by
  cases reads <;> rfl

theorem position_of_error {v : Validator} {e : Event} {violation : Violation}
    (h : (v.check e).1 = .error violation) : violation.position = v.pass.position := by
  rcases check_cases v e with ⟨own, hAccept, hCheck⟩ | ⟨_, _, _, hVerdict, _⟩ | ⟨_, _, hVerdict, _⟩
  · obtain ⟨_, rfl⟩ := Pass.accept_eq_error hAccept
    rw [hCheck] at h
    obtain rfl := Except.error.inj h
    rfl
  · rw [hVerdict] at h
    obtain rfl := Except.error.inj h
    rfl
  · rw [hVerdict] at h
    cases h

theorem exists_first_rejection (stream : List Event) : ∀ v : Validator, ¬ v.Accepts stream →
    ∃ past e rest violation, stream = past ++ e :: rest ∧ v.Accepts past ∧
      ((v.run past).check e).1 = .error violation := by
  induction stream with
  | nil => intro v h; exact absurd (accepts_nil v) h
  | cons e rest ih =>
      intro v h
      cases hVerdict : (v.check e).1 with
      | error violation => exact ⟨[], e, rest, violation, rfl, accepts_nil v, hVerdict⟩
      | ok _ =>
          have hRest : ¬ (v.check e).2.Accepts rest := fun h' => h (accepts_cons.mpr ⟨hVerdict, h'⟩)
          obtain ⟨past, e', rest', violation, rfl, hPast, hError⟩ := ih _ hRest
          exact ⟨e :: past, e', rest', violation, rfl, accepts_cons.mpr ⟨hVerdict, hPast⟩, hError⟩

/-- There are no dead ends, and rejections come as early as they can.

If the limits leave room for one alternative of one component, all that a
validator accepts event by event can be continued to a stream that it accepts
to the end.  So a stream that is not accepted is rejected, for the first time,
at the smallest index `i` such that its first `i + 1` events begin no stream
that is accepted to the end, and `i` is the position of the violation. -/
theorem rejects_at_first_dead_end (limits : Limits) (hAlternatives : 1 ≤ limits.maxAlternatives)
    (hComponents : 1 ≤ limits.maxComponents) :
    (∀ past, (fresh limits).Accepts past → ∃ rest, Completes limits (past ++ rest)) ∧
      ∀ stream, ¬ (fresh limits).Accepts stream →
        ∃ i violation,
          (∀ k < i, ((fresh limits).verdicts stream)[k]? = some (.ok ())) ∧
          ((fresh limits).verdicts stream)[i]? = some (.error violation) ∧
          violation.position = i ∧
          IsLeast {k | k < stream.length ∧ ¬ Viable limits (stream.take (k + 1))} i := by
  refine ⟨fun past h => (accepts_iff_viable hAlternatives hComponents).mp h, fun stream h => ?_⟩
  obtain ⟨past, e, rest, violation, rfl, hPast, hError⟩ := exists_first_rejection stream _ h
  have hVerdicts := verdicts_append (fresh limits) past (e :: rest)
  have hLength := length_verdicts (fresh limits) past
  refine ⟨past.length, violation, fun k hk => ?_, ?_, ?_, ⟨?_, ?_⟩, ?_⟩
  · have hk' : k < ((fresh limits).verdicts past).length := hLength.symm ▸ hk
    rw [hVerdicts, List.getElem?_append_left hk', List.getElem?_eq_getElem hk',
      hPast _ (List.getElem_mem hk')]
  · rw [hVerdicts, ← hLength, List.getElem?_append_right (Nat.le_refl _), Nat.sub_self, verdicts,
      List.getElem?_cons_zero, hError]
  · have reads := reads_run limits past
    rw [accepted_of_accepts hPast] at reads
    rw [position_of_error hError, reads.position]
  · simp
  · intro viable
    rw [List.take_length_add_append, ← accepts_iff_viable hAlternatives hComponents] at viable
    have hLast := (accepts_cons.mp (accepts_append.mp viable).2).1
    rw [hError] at hLast
    cases hLast
  · rintro k ⟨_, hk⟩
    refine Nat.le_of_not_lt fun hlt => hk ?_
    rw [List.take_append_of_le_length hlt, ← accepts_iff_viable hAlternatives hComponents]
    rw [← List.take_append_drop (k + 1) past] at hPast
    exact (accepts_append.mp hPast).1

/-- With room for one component a second one is the first dead end, although
the stream goes on. -/
theorem rejects_second_component :
    let limits : Limits := { maxAlternatives := 1, maxComponents := 1 }
    let stream : List Event :=
      [.init, .selector, .head .universal, .filter (.styleClass "x"), .close]
    1 ≤ limits.maxAlternatives ∧ 1 ≤ limits.maxComponents ∧ ¬ (fresh limits).Accepts stream ∧
      IsLeast {k | k < stream.length ∧ ¬ Viable limits (stream.take (k + 1))} 3 := by
  intro limits stream
  have hAlternatives : 1 ≤ limits.maxAlternatives := Nat.le_refl 1
  have hComponents : 1 ≤ limits.maxComponents := Nat.le_refl 1
  have hVerdicts : (fresh limits).verdicts stream = [.ok (), .ok (), .ok (),
      .error ⟨3, .breach (.compoundTooLong 1)⟩,
      .error ⟨3, .refusal (.afterBreach .close)⟩] := rfl
  have hRejected : ¬ (fresh limits).Accepts stream := by
    intro h
    cases h (.error ⟨3, .breach (.compoundTooLong 1)⟩) (by rw [hVerdicts]; simp)
  obtain ⟨i, violation, _, hError, hPosition, hLeast⟩ :=
    (rejects_at_first_dead_end limits hAlternatives hComponents).2 stream hRejected
  -- Both violations bear the position 3, so the first rejection has that index.
  have hAmong := List.mem_of_getElem? hError
  rw [hVerdicts] at hAmong
  have hIndex : i = 3 := by
    rcases (by simpa using hAmong : violation = _ ∨ violation = _) with rfl | rfl
    · exact hPosition.symm
    · exact hPosition.symm
  exact ⟨hAlternatives, hComponents, hRejected, hIndex ▸ hLeast⟩

end Validator

end SelectorStream
