/-
# `SelectorStream.Proofs.Hindsight` — verdicts read off the accepted events

A validator keeps counters and the compound being built, and forgets the events.
`History.cause?` goes the other way: it looks at nothing but the list of the
events accepted so far, and says what would be wrong with the next one.

`Place.Recalls` is the abstraction between the two.  Inside the bracket the
accepted events are a draft, and the place of a draft recalls its events
(`Draft.recalls`), so every rule can be looked up in either
(`Place.Recalls.breach?_eq`):

    Validator.verdict_of_history
-/
import Mathlib.Data.List.DropRight
import SelectorStream.Proofs.Acceptance

namespace SelectorStream

/-! ## Rules on histories -/

namespace History

/-- The last event begins an alternative or joins two compounds, and what it
calls for is missing. -/
def awaitsCompound (history : List Event) : Bool :=
  match history.getLast? with
  | some .selector | some (.combinator _) => true
  | _ => false

def lastComponent? (history : List Event) : Option Kind :=
  (history.getLast?.map Event.kind).filter Kind.isComponent

/-- The kinds of the components at the end of a history. -/
def openCompound (history : List Event) : List Kind :=
  (history.map Event.kind).rtakeWhile Kind.isComponent

def overlong? (limits : Limits) (history : List Event) : Option Breach :=
  if limits.maxComponents ≤ (openCompound history).length then
    some (.compoundTooLong limits.maxComponents)
  else none

/-- The rule of the grammar that an event would break.  Of several the first
that is listed counts. -/
def breach? (limits : Limits) (history : List Event) : Event → Option Breach
  | .init => none
  | .selector =>
    if awaitsCompound history then some (.emptyCompound .selector)
    else if limits.maxAlternatives ≤ history.count .selector then
      some (.tooManyAlternatives limits.maxAlternatives)
    else none
  | .close =>
    if awaitsCompound history then some (.emptyCompound .close)
    else if history.count .selector = 0 ∧ limits.allowEmptyList = false then some .emptyList
    else none
  | .combinator c =>
    if history.count .selector = 0 then some (.missingSelector (.combinator c))
    else if awaitsCompound history then some (.danglingCombinator (.combinator c))
    else none
  | .head h =>
    if history.count .selector = 0 then some (.missingSelector (.head h.kind))
    else match lastComponent? history with
      | some after => some (.misplacedHead (.head h.kind) after)
      | none => overlong? limits history
  | .filter (.nthChild x) =>
    if history.count .selector = 0 then some (.missingSelector (.filter .nthChild))
    else if limits.rejectUnsatisfiable = true ∧ x.step.toInt ≤ 0 ∧ x.offset.toInt ≤ 0 then
      some (.unsatisfiableNth x.step x.offset)
    else overlong? limits history
  | .filter f =>
    if history.count .selector = 0 then some (.missingSelector (.filter f.kind))
    else overlong? limits history

/-- What is wrong with an event, after a history that has not come to an end. -/
def cause? (limits : Limits) (history : List Event) : Event → Option Cause
  | .init => some (.refusal .reopened)
  | e => (breach? limits history e).map .breach

/-! ### Histories and their ends -/

theorem rtakeWhile_of_split {A : Type} {test : A → Bool} {front rest : List A} {stop : A}
    (hStop : test stop = false) (hRest : ∀ item ∈ rest, test item = true) :
    (front ++ stop :: rest).rtakeWhile test = rest := by
  have hReversed : ∀ item ∈ rest.reverse, test item = true :=
    fun item h => hRest item (List.mem_reverse.mp h)
  rw [List.rtakeWhile, List.reverse_append, List.reverse_cons, List.append_assoc,
    List.takeWhile_append_of_pos hReversed, List.singleton_append,
    List.takeWhile_cons_of_neg (by simp [hStop]), List.append_nil, List.reverse_reverse]

theorem getLast?_openCompound (history : List Event) :
    (openCompound history).getLast? = lastComponent? history := by
  induction history using List.reverseRecOn with
  | nil => rfl
  | append_singleton past e _ =>
      rw [openCompound, List.map_append, List.map_singleton, List.rtakeWhile_concat, lastComponent?,
        List.getLast?_concat, Option.map_some, Option.filter_some]
      split
      · rw [List.getLast?_concat]
      · rfl

section Split

variable {front components : List Event} {boundary : Event}

theorem openCompound_of_split (hBoundary : boundary.kind.isComponent = false)
    (hComponents : ∀ e ∈ components, e.kind.isComponent = true) :
    openCompound (front ++ boundary :: components) = components.map Event.kind := by
  rw [openCompound, List.map_append, List.map_cons,
    rtakeWhile_of_split hBoundary (List.forall_mem_map.mpr hComponents)]

theorem awaitsCompound_of_split (hBoundary : boundary = .selector ∨ ∃ c, boundary = .combinator c)
    (hComponents : ∀ e ∈ components, e.kind.isComponent = true) :
    awaitsCompound (front ++ boundary :: components) = components.isEmpty := by
  induction components using List.reverseRecOn with
  | nil =>
      rw [awaitsCompound, List.getLast?_concat]
      rcases hBoundary with rfl | ⟨c, rfl⟩ <;> rfl
  | append_singleton past e _ =>
      have hLast : e.kind.isComponent = true := hComponents e (by simp)
      rw [awaitsCompound, ← List.cons_append, ← List.append_assoc, List.getLast?_concat]
      cases e with
      | head _ | filter _ => simp
      | init | close | selector | combinator _ => cases hLast

end Split

end History

/-! ## Places that recall a history -/

/-- A place stands where a history leads. -/
structure Place.Recalls (place : Place) (history : List Event) : Prop where
  alternatives : place.alternatives = history.count .selector
  inSelector : place.inSelector = true ↔ history.count .selector ≠ 0
  compound : place.compound.toList = History.openCompound history
  endsEmpty : place.endsEmpty = History.awaitsCompound history

namespace Place.Recalls

variable {place : Place} {history : List Event}

theorem not_inSelector (recalls : place.Recalls history) :
    (!place.inSelector) = true ↔ history.count .selector = 0 := by
  rw [Bool.not_eq_true', ← Bool.not_eq_true, recalls.inSelector, ne_eq, not_not]

theorem overlong?_eq (recalls : place.Recalls history) (limits : Limits) :
    place.overlong? limits = History.overlong? limits history := by
  rw [overlong?, History.overlong?, Trail.size_eq_length_toList, recalls.compound]

theorem breach?_eq (recalls : place.Recalls history) (limits : Limits) (e : Event) :
    place.breach? limits e = History.breach? limits history e := by
  match e with
  | .init => rfl
  | .selector =>
      rw [Place.breach?, History.breach?, recalls.endsEmpty, recalls.alternatives]
  | .close =>
      simp only [Place.breach?, History.breach?, recalls.endsEmpty, recalls.alternatives,
        Bool.and_eq_true, decide_eq_true_eq, Bool.not_eq_true']
  | .combinator c =>
      simp only [Place.breach?, History.breach?, recalls.not_inSelector, ← recalls.endsEmpty]
      by_cases hNone : history.count .selector = 0
      · rw [if_pos hNone, if_pos hNone]
      · rw [if_neg hNone, if_neg hNone, Place.endsEmpty, recalls.inSelector.mpr hNone, Bool.true_and]
  | .head h =>
      have hLatest : place.compound.latest? = History.lastComponent? history := by
        rw [Trail.latest?_eq_getLast?, recalls.compound, History.getLast?_openCompound]
      cases hLast : History.lastComponent? history <;>
        simp only [Place.breach?, headBreach?, History.breach?, recalls.not_inSelector, hLatest,
          hLast, recalls.overlong?_eq]
  | .filter (.nthChild x) =>
      simp only [Place.breach?, filterBreach?, History.breach?, recalls.not_inSelector,
        recalls.overlong?_eq, Nth.neverMatches, Bool.and_eq_true, decide_eq_true_eq, Filter.kind]
  | .filter (.identifier _) | .filter (.styleClass _) | .filter (.attribute _ _)
  | .filter (.structural _) =>
      simp only [Place.breach?, filterBreach?, History.breach?, recalls.not_inSelector,
        recalls.overlong?_eq]

end Place.Recalls

/-! ## Drafts -/

theorem Components.isComponent_of_mem {c : Components} {e : Event} (h : e ∈ c.events) :
    e.kind.isComponent = true := by
  rcases List.mem_append.mp h with h | h
  · obtain ⟨_, _, rfl⟩ := List.mem_map.mp h
    rfl
  · obtain ⟨_, _, rfl⟩ := List.mem_map.mp h
    rfl

theorem Components.count_selector (c : Components) : c.events.count .selector = 0 := by
  refine List.count_eq_zero.mpr fun h => ?_
  cases isComponent_of_mem h

theorem Alternative.count_selector (a : Alternative) : a.events.count .selector = 1 := by
  rw [events, List.count_cons_self, List.count_append, Components.count_selector, Nat.zero_add,
    Nat.add_eq_right, List.count_eq_zero]
  intro h
  obtain ⟨joined, _, h⟩ := List.mem_flatMap.mp h
  rcases List.mem_cons.mp h with h | h
  · cases h
  · cases Components.isComponent_of_mem h

theorem count_selector_flatMap (row : List Alternative) :
    (row.flatMap Alternative.events).count .selector = row.length := by
  induction row with
  | nil => rfl
  | cons a row ih =>
      rw [List.flatMap_cons, List.count_append, a.count_selector, ih, List.length_cons, Nat.add_comm]

theorem Stem.count_selector (stem : Stem) : stem.events.count .selector = 1 := by
  cases stem with
  | selector => rfl
  | joint before combinator =>
      rw [events, List.count_append, before.count_selector]
      rfl

theorem Stem.exists_boundary (stem : Stem) :
    ∃ front boundary, stem.events = front ++ [boundary] ∧
      (boundary = .selector ∨ ∃ c, boundary = .combinator c) := by
  cases stem with
  | selector => exact ⟨[], .selector, rfl, .inl rfl⟩
  | joint before combinator =>
      exact ⟨before.events, .combinator combinator, rfl, .inr ⟨combinator, rfl⟩⟩

/-- In a draft the last components stand behind such an event. -/
theorem Draft.exists_boundary (ended : List Alternative) (stem : Stem) (last : Components) :
    ∃ front boundary, (within ended stem last).events = .init :: (front ++ boundary :: last.events) ∧
      (boundary = .selector ∨ ∃ c, boundary = .combinator c) := by
  obtain ⟨front, boundary, hStem, hBoundary⟩ := stem.exists_boundary
  refine ⟨ended.flatMap Alternative.events ++ front, boundary, ?_, hBoundary⟩
  rw [events, hStem, List.append_assoc, List.append_assoc, List.singleton_append]

theorem Draft.recalls (d : Draft) : d.place.Recalls d.events := by
  cases d with
  | blank => exact ⟨rfl, by decide, rfl, rfl⟩
  | within ended stem last =>
      obtain ⟨front, boundary, hEvents, hBoundary⟩ := exists_boundary ended stem last
      rw [← List.cons_append] at hEvents
      have hNone : boundary.kind.isComponent = false := by
        rcases hBoundary with rfl | ⟨c, rfl⟩ <;> rfl
      have hLast : ∀ e ∈ last.events, e.kind.isComponent = true :=
        fun e => Components.isComponent_of_mem
      have hCount : (within ended stem last).events.count .selector = ended.length + 1 := by
        rw [events, List.count_cons_of_ne (by simp), List.count_append, List.count_append,
          count_selector_flatMap, stem.count_selector, last.count_selector]
      refine ⟨hCount.symm, ?_, ?_, ?_⟩
      · rw [hCount]
        exact ⟨fun _ => Nat.succ_ne_zero _, fun _ => rfl⟩
      · rw [hEvents, History.openCompound_of_split hNone hLast]
        exact Trail.toList_ofList _
      · rw [hEvents, History.awaitsCompound_of_split hBoundary hLast, Bool.eq_iff_iff,
          List.isEmpty_iff, ← compound_isEmpty_iff]
        rfl

/-! ## Verdicts -/

namespace Validator

theorem verdict_of_opened (limits : Limits) (d : Draft) (e : Event) :
    ((opened limits d.events.length d.place).check e).1 =
      match History.cause? limits d.events e with
      | none => .ok ()
      | some cause => .error ⟨d.events.length, cause⟩ := by
  have hBreach := d.recalls.breach?_eq limits e
  cases hAccept : (opened limits d.events.length d.place).pass.accept e.kind with
  | error violation =>
      obtain rfl := Pass.eq_init_of_accept_eq_error rfl hAccept
      rfl
  | ok next =>
      have hCause : History.cause? limits d.events e =
          (History.breach? limits d.events e).map .breach := by
        cases e with
        | init => cases hAccept
        | close | selector | head _ | filter _ | combinator _ => rfl
      rw [hCause, ← hBreach]
      cases hFound : d.place.breach? limits e with
      | none => rw [check_of_accepted hAccept hFound]; rfl
      | some breach => rw [check_of_breach hAccept hFound]; rfl

/-- The accepted events determine every verdict.

A validator is sent any stream, and is still inside the bracket after that.
Whether it then accepts an event, and what it says if it does not, can be read
off the events that it has accepted, by the rules of `History.cause?`.  The
position of the violation is their number. -/
theorem verdict_of_history (limits : Limits) (past : List Event)
    (h : ((fresh limits).run past).pass.phase = .opened) (e : Event) :
    let history := (fresh limits).accepted past
    (((fresh limits).run past).check e).1 =
      match History.cause? limits history e with
      | none => .ok ()
      | some cause => .error ⟨history.length, cause⟩ := by
  have reads := reads_run limits past
  generalize (fresh limits).run past = v at reads h
  generalize (fresh limits).accepted past = history at reads
  cases reads with
  | idle | closed _ | faulted _ => cases h
  | @opened d _ => exact verdict_of_opened limits d e

/-- After one component, and a refused `init` that does not count: the limit of
one component is met, but other rules come before it. -/
theorem verdicts_on_second_component :
    let limits : Limits := { maxComponents := 1, rejectUnsatisfiable := true }
    let past : List Event := [.init, .selector, .init, .filter (.styleClass "x")]
    let v := (fresh limits).run past
    v.pass.phase = .opened ∧
      (v.check (.filter (.identifier "a"))).1 = .error ⟨3, .breach (.compoundTooLong 1)⟩ ∧
      (v.check (.filter (.nthChild ⟨-1, 0⟩))).1 = .error ⟨3, .breach (.unsatisfiableNth (-1) 0)⟩ ∧
      (v.check (.head .universal)).1 =
        .error ⟨3, .breach (.misplacedHead (.head .universal) (.filter .styleClass))⟩ ∧
      (v.check .close).1 = .ok () := by
  intro limits past v
  have hOpened : v.pass.phase = .opened := rfl
  have hHistory : (fresh limits).accepted past =
      [.init, .selector, .filter (.styleClass "x")] := rfl
  have hVerdict := verdict_of_history limits past hOpened
  rw [hHistory] at hVerdict
  refine ⟨hOpened, (hVerdict _).trans ?_, (hVerdict _).trans ?_, (hVerdict _).trans ?_,
    (hVerdict _).trans ?_⟩
  · rfl
  · rfl
  · rfl
  · rfl

end Validator

end SelectorStream
