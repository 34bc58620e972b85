/-
# `SelectorStream.Proofs.Grammar` — selector lists and the streams that report them

A selector list is a row of alternatives, an alternative is compounds joined by
combinators, and a compound is a head at most and then filters, but not empty.
`SelectorList.events` is the stream that reports a list, and
`SelectorList.Fits` says that a list keeps within given limits.

A `Draft` is the beginning of a list: what has been reported by a stream that
was opened and not yet closed.  `Draft.place` is where such a stream stands in
the grammar, and the two main statements follow a place through one event:

    Draft.exists_extend    an event that breaks no rule leads to a longer draft
    Draft.exists_finish    a `close` that breaks no rule completes a list

Both say what `Place.breach?` guards against, so nothing after them has to look
into it again.
-/
import SelectorStream.Validator

namespace SelectorStream

/-! ## Syntax -/

/-- A head at most, and then filters. -/
structure Components where
  head? : Option Head := none
  filters : List Filter := []

def Components.events (c : Components) : List Event :=
  c.head?.toList.map Event.head ++ c.filters.map Event.filter

def Components.kinds (c : Components) : List Kind :=
  c.events.map Event.kind

/-- Components, at least one. -/
structure Compound extends Components where
  nonempty : toComponents.events ≠ []

/-- Compounds joined by combinators. -/
structure Alternative where
  first : Compound
  rest : List (Combinator × Compound) := []

namespace Alternative

def compounds (a : Alternative) : List Compound :=
  a.first :: a.rest.map Prod.snd

def events (a : Alternative) : List Event :=
  .selector :: (a.first.events ++
    a.rest.flatMap fun (joint, compound) => .combinator joint :: compound.events)

end Alternative

/-- Alternatives, none or more. -/
abbrev SelectorList := List Alternative

def SelectorList.events (list : SelectorList) : List Event :=
  .init :: (list.flatMap Alternative.events ++ [.close])

def SelectorList.place (list : SelectorList) : Place :=
  ⟨!list.isEmpty, list.length, .empty⟩

/-! ## Limits -/

/-- Components within limits: not too many of them, and no positions that no
element has, where those are not wanted. -/
structure Components.Fits (limits : Limits) (c : Components) : Prop where
  length_le : c.events.length ≤ limits.maxComponents
  satisfiable : limits.rejectUnsatisfiable = true →
    ∀ x, .nthChild x ∈ c.filters → ¬ (x.step.toInt ≤ 0 ∧ x.offset.toInt ≤ 0)

def Alternative.Fits (limits : Limits) (a : Alternative) : Prop :=
  ∀ c ∈ a.compounds, c.Fits limits

structure SelectorList.Fits (limits : Limits) (list : SelectorList) : Prop where
  length_le : list.length ≤ limits.maxAlternatives
  ne_nil : limits.allowEmptyList = false → list ≠ []
  alternatives : ∀ a ∈ list, a.Fits limits

/-! ## Lists that are being reported -/

/-- What of an alternative comes before the compound that is being built. -/
inductive Stem where
  | selector
  | joint (before : Alternative) (combinator : Combinator)

namespace Stem

def events : Stem → List Event
  | .selector => [.selector]
  | .joint before combinator => before.events ++ [.combinator combinator]

def compounds : Stem → List Compound
  | .selector => []
  | .joint before _ => before.compounds

def finish : Stem → Compound → Alternative
  | .selector, last => { first := last }
  | .joint before combinator, last => { before with rest := before.rest ++ [(combinator, last)] }

theorem events_finish (stem : Stem) (last : Compound) :
    (stem.finish last).events = stem.events ++ last.events := by
  cases stem with
  | selector => simp [finish, events, Alternative.events]
  | joint before combinator => simp [finish, events, Alternative.events]

theorem compounds_finish (stem : Stem) (last : Compound) :
    (stem.finish last).compounds = stem.compounds ++ [last] := by
  cases stem with
  | selector => rfl
  | joint before combinator => simp [finish, compounds, Alternative.compounds]

theorem fits_finish {limits : Limits} (stem : Stem) {last : Compound}
    (hStem : ∀ c ∈ stem.compounds, c.Fits limits) (hLast : last.Fits limits) :
    (stem.finish last).Fits limits := by
  intro c hc
  rw [compounds_finish, List.mem_append, List.mem_singleton] at hc
  rcases hc with hc | rfl
  · exact hStem c hc
  · exact hLast

end Stem

/-- The beginning of a list: nothing yet, or alternatives that have ended and
one that has not. -/
inductive Draft where
  | blank
  | within (ended : List Alternative) (stem : Stem) (last : Components)

namespace Draft

def events : Draft → List Event
  | .blank => [.init]
  | .within ended stem last =>
    .init :: (ended.flatMap Alternative.events ++ (stem.events ++ last.events))

def place : Draft → Place
  | .blank => .fresh
  | .within ended _ last => ⟨true, ended.length + 1, .ofList last.kinds⟩

def Fits (limits : Limits) : Draft → Prop
  | .blank => True
  | .within ended stem last =>
    ended.length < limits.maxAlternatives ∧ (∀ a ∈ ended, a.Fits limits) ∧
      (∀ c ∈ stem.compounds, c.Fits limits) ∧ last.Fits limits

end Draft

/-! ## Components and their events -/

namespace Components

theorem length_kinds (c : Components) : c.kinds.length = c.events.length := by
  simp [kinds]

theorem kinds_eq_nil_iff {c : Components} : c.kinds = [] ↔ c.events = [] := by
  simp [kinds]

theorem eq_empty_of_events_eq_nil {c : Components} (h : c.events = []) : c = {} := by
  obtain ⟨head?, filters⟩ := c
  cases head? with
  | none => cases filters with
    | nil => rfl
    | cons f fs => simp [events] at h
  | some head => simp [events] at h

def addFilter (c : Components) (f : Filter) : Components :=
  { c with filters := c.filters ++ [f] }

theorem events_addFilter (c : Components) (f : Filter) :
    (c.addFilter f).events = c.events ++ [.filter f] := by
  simp [addFilter, events]

theorem kinds_addFilter (c : Components) (f : Filter) :
    (c.addFilter f).kinds = c.kinds ++ [.filter f.kind] := by
  simp [kinds, events_addFilter, Event.kind]

theorem fits_empty (limits : Limits) : ({} : Components).Fits limits :=
  ⟨Nat.zero_le _, fun _ _ h => absurd h List.not_mem_nil⟩

end Components

/-! ## One event

In each lemma an event breaks no rule where a draft stands.  The place of a
draft is inside a selector exactly when the draft is not blank, so of a blank
draft only `selector` and `close` have to be considered. -/

namespace Draft

theorem compound_isEmpty_iff {last : Components} :
    (Trail.ofList last.kinds).isEmpty = true ↔ last.events = [] := by
  rw [Trail.isEmpty_eq_isEmpty_toList, Trail.toList_ofList, List.isEmpty_iff,
    Components.kinds_eq_nil_iff]

theorem ofList_push (kinds : List Kind) (kind : Kind) :
    (Trail.ofList kinds).push kind = .ofList (kinds ++ [kind]) := by
  rw [← Trail.toList_inj]
  simp

theorem ofList_nil : (Trail.ofList [] : Trail Kind) = .empty := by
  rw [← Trail.toList_inj]
  simp

variable {limits : Limits}

theorem length_lt_of_overlong? {alternatives : Nat} {last : Components}
    (h : Place.overlong? ⟨true, alternatives, .ofList last.kinds⟩ limits = none) :
    last.events.length < limits.maxComponents := by
  simp only [Place.overlong?, Trail.size_eq_length_toList, Trail.toList_ofList,
    Components.length_kinds] at h
  split at h
  · cases h
  · omega

theorem fits_addFilter {alternatives : Nat} {last : Components} {f : Filter}
    (fits : last.Fits limits)
    (h : Place.filterBreach? ⟨true, alternatives, .ofList last.kinds⟩ limits f = none) :
    (last.addFilter f).Fits limits := by
  have room : Place.overlong? ⟨true, alternatives, .ofList last.kinds⟩ limits = none ∧
      (limits.rejectUnsatisfiable = true → ∀ x, f = .nthChild x → x.neverMatches = false) := by
    simp only [Place.filterBreach?, Bool.not_true, Bool.false_eq_true, if_false] at h
    split at h
    · rename_i x
      split at h
      · cases h
      · rename_i hn
        refine ⟨h, fun hr y hy => ?_⟩
        cases hy
        simpa [hr] using hn
    · rename_i hx
      exact ⟨h, fun _ x hf => absurd hf (hx x)⟩
  refine ⟨?_, fun hr x hx => ?_⟩
  · have := length_lt_of_overlong? room.1
    rw [Components.events_addFilter, List.length_append, List.length_singleton]
    omega
  · rcases List.mem_append.mp hx with hx | hx
    · exact fits.satisfiable hr x hx
    · have := room.2 hr x (List.mem_singleton.mp hx).symm
      simpa [Nth.neverMatches] using this

theorem alternatives_le {d : Draft} (fits : d.Fits limits) :
    d.place.alternatives ≤ limits.maxAlternatives := by
  cases d with
  | blank => exact Nat.zero_le _
  | within ended stem last => exact fits.1

/-- Where an alternative may end, a draft is a row of whole alternatives. -/
theorem exists_ended {d : Draft} (fits : d.Fits limits) (h : d.place.endsEmpty = false) :
    ∃ list : SelectorList, (∀ a ∈ list, a.Fits limits) ∧
      d.place.after .close = list.place ∧ d.events = .init :: list.flatMap Alternative.events := by
  cases d with
  | blank => exact ⟨[], by simp, rfl, rfl⟩
  | within ended stem last =>
      obtain ⟨_, hEnded, hStem, hLast⟩ := fits
      have hne : last.events ≠ [] := fun he => by
        have := compound_isEmpty_iff.mpr he
        simp [place, Place.endsEmpty, this] at h
      refine ⟨ended ++ [stem.finish ⟨last, hne⟩], ?_, ?_, ?_⟩
      · intro a ha
        rcases List.mem_append.mp ha with ha | ha
        · exact hEnded a ha
        · rw [List.mem_singleton.mp ha]
          exact stem.fits_finish hStem hLast
      · simp [place, Place.after, SelectorList.place]
      · simp [events, Stem.events_finish]

theorem exists_extend_selector {d : Draft} (fits : d.Fits limits)
    (h : d.place.breach? limits .selector = none) :
    ∃ next : Draft, next.Fits limits ∧ next.events = d.events ++ [.selector] ∧
      next.place = d.place.after .selector := by
  simp only [Place.breach?] at h
  split at h
  · cases h
  · rename_i hEnds
    split at h
    · cases h
    · rename_i hRoom
      obtain ⟨list, hFits, hPlace, hEvents⟩ := exists_ended fits (by simpa using hEnds)
      have hLength : list.length = d.place.alternatives :=
        (congrArg Place.alternatives hPlace).symm
      refine ⟨.within list .selector {}, ⟨by omega, hFits, ?_, Components.fits_empty limits⟩, ?_, ?_⟩
      · exact fun c hc => absurd hc List.not_mem_nil
      · rw [hEvents]
        simp [events, Stem.events, Components.events]
      · simp [place, Place.after, hLength, Components.kinds, Components.events, ofList_nil]

theorem exists_extend_head {d : Draft} (fits : d.Fits limits) {head : Head}
    (h : d.place.breach? limits (.head head) = none) :
    ∃ next : Draft, next.Fits limits ∧ next.events = d.events ++ [.head head] ∧
      next.place = d.place.after (.head head) := by
  cases d with
  | blank => cases h
  | within ended stem last =>
      obtain ⟨hCount, hEnded, hStem, hLast⟩ := fits
      simp only [Place.breach?, place, Place.headBreach?, Trail.latest?_eq_getLast?,
        Trail.toList_ofList, Bool.not_true, Bool.false_eq_true, if_false] at h
      split at h
      · cases h
      · rename_i hLatest
        have hEmpty : last = {} := Components.eq_empty_of_events_eq_nil
          (Components.kinds_eq_nil_iff.mp (List.getLast?_eq_none_iff.mp hLatest))
        subst hEmpty
        have room := length_lt_of_overlong? h
        refine ⟨.within ended stem { head? := some head }, ⟨hCount, hEnded, hStem, ?_⟩, ?_, ?_⟩
        · exact ⟨room, fun _ _ hx => absurd hx List.not_mem_nil⟩
        · simp [events, Components.events]
        · simp [place, Place.after, Components.kinds, Components.events, ofList_push, Event.kind]

theorem exists_extend_filter {d : Draft} (fits : d.Fits limits) {f : Filter}
    (h : d.place.breach? limits (.filter f) = none) :
    ∃ next : Draft, next.Fits limits ∧ next.events = d.events ++ [.filter f] ∧
      next.place = d.place.after (.filter f) := by
  cases d with
  | blank => cases h
  | within ended stem last =>
      obtain ⟨hCount, hEnded, hStem, hLast⟩ := fits
      refine ⟨.within ended stem (last.addFilter f), ⟨hCount, hEnded, hStem, ?_⟩, ?_, ?_⟩
      · exact fits_addFilter hLast h
      · simp [events, Components.events_addFilter]
      · simp [place, Place.after, ofList_push, Components.kinds_addFilter]

theorem exists_extend_combinator {d : Draft} (fits : d.Fits limits) {joint : Combinator}
    (h : d.place.breach? limits (.combinator joint) = none) :
    ∃ next : Draft, next.Fits limits ∧ next.events = d.events ++ [.combinator joint] ∧
      next.place = d.place.after (.combinator joint) := by
  cases d with
  | blank => cases h
  | within ended stem last =>
      obtain ⟨hCount, hEnded, hStem, hLast⟩ := fits
      have hne : last.events ≠ [] := fun he => by
        have := compound_isEmpty_iff.mpr he
        simp [place, Place.breach?, this] at h
      refine ⟨.within ended (.joint (stem.finish ⟨last, hne⟩) joint) {},
        ⟨hCount, hEnded, ?_, Components.fits_empty limits⟩, ?_, ?_⟩
      · exact stem.fits_finish hStem hLast
      · simp [events, Stem.events, Stem.events_finish, Components.events]
      · simp [place, Place.after, Components.kinds, Components.events, ofList_nil]

/-- An event inside the bracket that breaks no rule leads to a longer draft. -/
theorem exists_extend (d : Draft) (fits : d.Fits limits) {e : Event} (hInit : e ≠ .init)
    (hClose : e ≠ .close) (h : d.place.breach? limits e = none) :
    ∃ next : Draft, next.Fits limits ∧ next.events = d.events ++ [e] ∧
      next.place = d.place.after e := by
  cases e with
  | init => exact absurd rfl hInit
  | close => exact absurd rfl hClose
  | selector => exact exists_extend_selector fits h
  | head head => exact exists_extend_head fits h
  | filter f => exact exists_extend_filter fits h
  | combinator joint => exact exists_extend_combinator fits h

theorem exists_finish (d : Draft) (fits : d.Fits limits)
    (h : d.place.breach? limits .close = none) :
    ∃ list : SelectorList, list.Fits limits ∧ list.events = d.events ++ [.close] ∧
      list.place = d.place.after .close := by
  simp only [Place.breach?] at h
  split at h
  · cases h
  · rename_i hEnds
    split at h
    · cases h
    · rename_i hSome
      obtain ⟨list, hFits, hPlace, hEvents⟩ := exists_ended fits (by simpa using hEnds)
      have hLength : list.length = d.place.alternatives :=
        (congrArg Place.alternatives hPlace).symm
      refine ⟨list, ⟨?_, fun hStrict hNil => ?_, hFits⟩, ?_, hPlace.symm⟩
      · rw [hLength]
        exact alternatives_le fits
      · rw [hNil] at hLength
        simp [hStrict, ← hLength] at hSome
      · simp [SelectorList.events, hEvents]

end Draft

end SelectorStream
