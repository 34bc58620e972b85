/-
# `SelectorStream.Proofs.Acceptance` — the streams that a validator accepts

A validator is fed a stream and goes on after errors.  `Validator.Reads` says
what it then knows: the events it has accepted are a draft of a list, or a
whole list, and its place is the place of that draft.  `Validator.reads_run`
is the invariant, for every stream and all limits.

From it follows one half of the main statement,

    Validator.accepts_iff_selectorList
        a stream is accepted to the end  ↔  it reports a list within the limits

The other half walks along the syntax of a list: `Place.Leads` composes, so
there is one lemma for each construct.
-/
import SelectorStream.Proofs.Grammar
import SelectorStream.Proofs.Verdicts

namespace SelectorStream

namespace Validator

/-! ## What a validator knows -/

def opened (limits : Limits) (position : Nat) (place : Place) : Validator :=
  { limits, pass := ⟨.opened, position⟩, place }

/-- A validator that has accepted certain events, and is at their end. -/
inductive Reads (limits : Limits) : List Event → Validator → Prop where
  | idle : Reads limits [] (.fresh limits)
  | opened {d : Draft} :
    d.Fits limits → Reads limits d.events (.opened limits d.events.length d.place)
  | closed {list : SelectorList} :
    list.Fits limits →
      Reads limits list.events ⟨limits, ⟨.closed, list.events.length⟩, list.place⟩
  | faulted {d : Draft} {breach : Breach} :
    d.Fits limits →
      Reads limits d.events ⟨limits, ⟨.faulted, d.events.length⟩, d.place.afterBreach breach⟩

section Step

variable {limits : Limits} {d : Draft} {e : Event} {next : Pass}

theorem faulted_of_breach {breach : Breach} (fits : d.Fits limits)
    (h : (opened limits d.events.length d.place).pass.accept e.kind = .ok next)
    (hb : d.place.breach? limits e = some breach) :
    Reads limits (d.events ++ (opened limits d.events.length d.place).accepted [e])
      ((opened limits d.events.length d.place).check e).2 := by
  have hCheck := check_of_breach h hb
  rw [accepted_of_error (congrArg Prod.fst hCheck), hCheck, List.append_nil]
  exact .faulted fits

theorem closed_of_accepted (fits : d.Fits limits)
    (h : (opened limits d.events.length d.place).pass.accept Event.close.kind =
      .ok ⟨.closed, d.events.length + 1⟩)
    (hb : d.place.breach? limits .close = none) :
    Reads limits (d.events ++ (opened limits d.events.length d.place).accepted [.close])
      ((opened limits d.events.length d.place).check .close).2 := by
  obtain ⟨list, hFits, hEvents, hPlace⟩ := d.exists_finish fits hb
  have hCheck := check_of_accepted h hb
  have reads := Reads.closed hFits
  rw [hEvents, hPlace, List.length_append] at reads
  rw [accepted_of_ok (congrArg Prod.fst hCheck), hCheck]
  exact reads

theorem opened_of_accepted (fits : d.Fits limits) (hInit : e ≠ .init) (hClose : e ≠ .close)
    (h : (opened limits d.events.length d.place).pass.accept e.kind =
      .ok ⟨.opened, d.events.length + 1⟩)
    (hb : d.place.breach? limits e = none) :
    Reads limits (d.events ++ (opened limits d.events.length d.place).accepted [e])
      ((opened limits d.events.length d.place).check e).2 := by
  obtain ⟨longer, hFits, hEvents, hPlace⟩ := d.exists_extend fits hInit hClose hb
  have hCheck := check_of_accepted h hb
  have reads := Reads.opened hFits
  rw [hEvents, hPlace, List.length_append] at reads
  rw [accepted_of_ok (congrArg Prod.fst hCheck), hCheck]
  exact reads

end Step

theorem Reads.check {limits : Limits} {history : List Event} {v : Validator}
    (reads : Reads limits history v) (e : Event) :
    Reads limits (history ++ v.accepted [e]) (v.check e).2 := by
  cases hAccept : v.pass.accept e.kind with
  | error violation =>
      have hCheck := check_of_refused hAccept
      rw [accepted_of_error (congrArg Prod.fst hCheck), hCheck, List.append_nil]
      exact reads
  | ok next =>
      rcases Pass.accept_eq_ok hAccept with
        ⟨hIdle, rfl, rfl⟩ | ⟨hOpened, rfl, rfl⟩ | ⟨hOpened, hInit, hClose, rfl⟩
      · cases reads with
        | idle => exact .opened (d := .blank) trivial
        | opened _ | closed _ | faulted _ => cases hIdle
      · cases reads with
        | idle | closed _ | faulted _ => cases hOpened
        | @opened d fits =>
            cases hBreach : d.place.breach? limits .close with
            | none => exact closed_of_accepted fits hAccept hBreach
            | some breach => exact faulted_of_breach fits hAccept hBreach
      · cases reads with
        | idle | closed _ | faulted _ => cases hOpened
        | @opened d fits =>
            cases hBreach : d.place.breach? limits e with
            | none => exact opened_of_accepted fits hInit hClose hAccept hBreach
            | some breach => exact faulted_of_breach fits hAccept hBreach

/-- A validator knows what it has accepted, whatever it was sent. -/
theorem Reads.run {limits : Limits} {history : List Event} {v : Validator}
    (reads : Reads limits history v) (stream : List Event) :
    Reads limits (history ++ v.accepted stream) (v.run stream) := by
  induction stream generalizing history v with
  | nil => simpa [accepted, run_nil] using reads
  | cons e rest ih =>
      have split : v.accepted (e :: rest) = v.accepted [e] ++ (v.check e).2.accepted rest :=
        accepted_append v [e] rest
      rw [split, ← List.append_assoc, run_cons]
      exact ih (reads.check e)

theorem reads_run (limits : Limits) (stream : List Event) :
    Reads limits ((fresh limits).accepted stream) ((fresh limits).run stream) :=
  Reads.idle.run stream

theorem Reads.exists_list {limits : Limits} {history : List Event} {v : Validator}
    (reads : Reads limits history v) (h : v.isComplete = true) :
    ∃ list : SelectorList, list.Fits limits ∧ list.events = history ∧ v.place = list.place := by
  cases reads with
  | closed fits => exact ⟨_, fits, rfl, rfl⟩
  | idle => cases h
  | opened _ => cases h
  | faulted _ => cases h

end Validator

/-! ## Along the syntax

The other direction.  Inside the bracket a stream *leads* from a place to a
place if a validator at the first accepts all of it and is then at the second,
whatever its position. -/

/-- A validator inside the bracket accepts all of a stream and ends up at `next`. -/
def Place.Leads (limits : Limits) (place : Place) (stream : List Event) (next : Place) : Prop :=
  ∀ position, (Validator.opened limits position place).Accepts stream ∧
    (Validator.opened limits position place).run stream =
      .opened limits (position + stream.length) next

namespace Place

variable {limits : Limits}

theorem Leads.nil (place : Place) : place.Leads limits [] place :=
  fun _ => ⟨Validator.accepts_nil _, rfl⟩

theorem Leads.append {a b c : Place} {past rest : List Event} (first : a.Leads limits past b)
    (second : b.Leads limits rest c) : a.Leads limits (past ++ rest) c := by
  intro position
  obtain ⟨hPast, hMid⟩ := first position
  obtain ⟨hRest, hEnd⟩ := second (position + past.length)
  refine ⟨Validator.accepts_append.mpr ⟨hPast, ?_⟩, ?_⟩
  · rw [hMid]
    exact hRest
  · rw [Validator.run_append, hMid, hEnd, List.length_append, Nat.add_assoc]

theorem leads_one {place : Place} {e : Event} (hInit : e ≠ .init) (hClose : e ≠ .close)
    (h : place.breach? limits e = none) : place.Leads limits [e] (place.after e) := by
  intro position
  have hCheck := Validator.check_of_accepted (v := .opened limits position place)
    (Pass.accept_inner rfl hInit hClose) h
  refine ⟨Validator.accepts_cons.mpr ⟨congrArg Prod.fst hCheck, Validator.accepts_nil _⟩, ?_⟩
  rw [Validator.run_cons, hCheck]
  rfl

theorem leads_filter (alternatives : Nat) {compound : Trail Kind} {f : Filter}
    (room : compound.size < limits.maxComponents)
    (sat : limits.rejectUnsatisfiable = true →
      ∀ x, f = .nthChild x → ¬ (x.step.toInt ≤ 0 ∧ x.offset.toInt ≤ 0)) :
    (Place.mk true alternatives compound).Leads limits [.filter f]
      ⟨true, alternatives, compound.push (.filter f.kind)⟩ := by
  have fitting : Place.overlong? ⟨true, alternatives, compound⟩ limits = none := by
    simp only [overlong?]
    rw [if_neg (Nat.not_le.mpr room)]
  refine leads_one (by simp) (by simp) ?_
  simp only [breach?, filterBreach?, Bool.not_true, Bool.false_eq_true, if_false]
  split
  · rename_i x
    have hNever : (limits.rejectUnsatisfiable && x.neverMatches) = false := by
      cases hr : limits.rejectUnsatisfiable with
      | false => rfl
      | true => simpa [Nth.neverMatches] using sat hr x rfl
    simp [hNever, fitting]
  · exact fitting

theorem leads_filters (alternatives : Nat) : ∀ (filters : List Filter) (compound : Trail Kind),
    compound.size + filters.length ≤ limits.maxComponents →
    (limits.rejectUnsatisfiable = true →
      ∀ x, .nthChild x ∈ filters → ¬ (x.step.toInt ≤ 0 ∧ x.offset.toInt ≤ 0)) →
    (Place.mk true alternatives compound).Leads limits (filters.map Event.filter)
      ⟨true, alternatives, compound.pushAll (filters.map fun f => .filter f.kind)⟩ := by
  intro filters
  induction filters with
  | nil => intro compound _ _; exact .nil _
  | cons f fs ih =>
      intro compound room sat
      rw [List.length_cons] at room
      have first : (Place.mk true alternatives compound).Leads limits [.filter f]
          ⟨true, alternatives, compound.push (.filter f.kind)⟩ :=
        leads_filter alternatives (by omega) fun hr x hx => sat hr x (hx ▸ List.mem_cons_self)
      have rest := ih (compound.push (.filter f.kind))
        (by simp only [Trail.push]; omega)
        fun hr x hx => sat hr x (List.mem_cons_of_mem f hx)
      exact first.append rest

theorem leads_head (alternatives : Nat) (head : Head) (room : 0 < limits.maxComponents) :
    (Place.mk true alternatives .empty).Leads limits [.head head]
      ⟨true, alternatives, Trail.empty.push (.head head.kind)⟩ := by
  refine leads_one (by simp) (by simp) ?_
  simp only [breach?, headBreach?, Bool.not_true, Bool.false_eq_true, if_false]
  show Place.overlong? _ _ = none
  simp only [overlong?]
  exact if_neg (Nat.not_le.mpr room)

theorem leads_components (alternatives : Nat) {c : Components} (fits : c.Fits limits) :
    (Place.mk true alternatives .empty).Leads limits c.events
      ⟨true, alternatives, .ofList c.kinds⟩ := by
  obtain ⟨head?, filters⟩ := c
  obtain ⟨room, sat⟩ := fits
  simp only [Components.events, List.length_append, List.length_map] at room
  cases head? with
  | none =>
      have filtered := leads_filters alternatives filters .empty
        (by simpa [Trail.empty] using room) sat
      have same : Trail.empty.pushAll (filters.map fun f => Kind.filter f.kind) =
          .ofList (Components.mk none filters).kinds := by
        rw [← Trail.toList_inj]
        simp [Components.kinds, Components.events, Event.kind]
      rw [← same]
      exact filtered
  | some head =>
      simp only [Option.toList_some, List.length_singleton] at room
      have opening : (Place.mk true alternatives .empty).Leads limits [.head head]
          ⟨true, alternatives, Trail.empty.push (.head head.kind)⟩ :=
        leads_head alternatives head (by omega)
      have filtered := leads_filters alternatives filters
        (Trail.empty.push (.head head.kind)) (by simp only [Trail.push, Trail.empty]; exact room) sat
      have same : (Trail.empty.push (.head head.kind)).pushAll
            (filters.map fun f => Kind.filter f.kind) =
          .ofList (Components.mk (some head) filters).kinds := by
        rw [← Trail.toList_inj]
        simp [Components.kinds, Components.events, Event.kind]
      rw [← same]
      exact opening.append filtered

theorem isEmpty_kinds (c : Compound) : (Trail.ofList c.kinds).isEmpty = false := by
  rw [Bool.eq_false_iff]
  exact fun h => c.nonempty (Draft.compound_isEmpty_iff.mp h)

theorem leads_joined (alternatives : Nat) : ∀ (rest : List (Combinator × Compound))
    (compound : Trail Kind), compound.isEmpty = false → (∀ joined ∈ rest, joined.2.Fits limits) →
    ∃ last : Trail Kind, last.isEmpty = false ∧
      (Place.mk true alternatives compound).Leads limits
        (rest.flatMap fun (joint, compound) => .combinator joint :: compound.events)
        ⟨true, alternatives, last⟩ := by
  intro rest
  induction rest with
  | nil => intro compound hne _; exact ⟨compound, hne, .nil _⟩
  | cons joined rest ih =>
      intro compound hne fits
      obtain ⟨joint, next⟩ := joined
      have combined : (Place.mk true alternatives compound).Leads limits [.combinator joint]
          ⟨true, alternatives, .empty⟩ :=
        leads_one (by simp) (by simp) (by simp [breach?, hne])
      have built := leads_components alternatives (fits _ List.mem_cons_self)
      obtain ⟨last, hLast, hRest⟩ := ih (.ofList next.kinds) (isEmpty_kinds next)
        fun joined h => fits joined (List.mem_cons_of_mem _ h)
      refine ⟨last, hLast, ?_⟩
      rw [List.flatMap_cons]
      exact (combined.append built).append hRest

theorem leads_alternative {place : Place} {a : Alternative} (fits : a.Fits limits)
    (hEnds : place.endsEmpty = false) (room : place.alternatives < limits.maxAlternatives) :
    ∃ last : Trail Kind, last.isEmpty = false ∧
      place.Leads limits a.events ⟨true, place.alternatives + 1, last⟩ := by
  have begun : place.Leads limits [.selector] ⟨true, place.alternatives + 1, .empty⟩ :=
    leads_one (by simp) (by simp) (by simp [breach?, hEnds, Nat.not_le.mpr room])
  have built := leads_components (place.alternatives + 1)
    (fits a.first List.mem_cons_self)
  obtain ⟨last, hLast, hRest⟩ := leads_joined (place.alternatives + 1) a.rest
    (.ofList a.first.kinds) (isEmpty_kinds a.first)
    fun joined h => fits joined.2 (List.mem_cons_of_mem _ (List.mem_map_of_mem h))
  exact ⟨last, hLast, begun.append (built.append hRest)⟩

theorem leads_alternatives : ∀ (list : SelectorList) (place : Place), place.endsEmpty = false →
    place.alternatives + list.length ≤ limits.maxAlternatives → (∀ a ∈ list, a.Fits limits) →
    ∃ next : Place, next.endsEmpty = false ∧
      next.alternatives = place.alternatives + list.length ∧
      place.Leads limits (list.flatMap Alternative.events) next := by
  intro list
  induction list with
  | nil => intro place hEnds _ _; exact ⟨place, hEnds, rfl, .nil _⟩
  | cons a list ih =>
      intro place hEnds room fits
      rw [List.length_cons] at room
      obtain ⟨last, hLast, hFirst⟩ :=
        leads_alternative (fits a List.mem_cons_self) hEnds (by omega)
      obtain ⟨next, hNext, hCount, hRest⟩ := ih ⟨true, place.alternatives + 1, last⟩
        (by simp [endsEmpty, hLast]) (by show place.alternatives + 1 + _ ≤ _; omega)
        fun b hb => fits b (List.mem_cons_of_mem _ hb)
      refine ⟨next, hNext, ?_, ?_⟩
      · rw [hCount, List.length_cons]
        show place.alternatives + 1 + _ = _
        omega
      · rw [List.flatMap_cons]
        exact hFirst.append hRest

end Place

/-! ## Whole lists -/

namespace Validator

variable {limits : Limits}

theorem check_close {place : Place} (position : Nat) (hEnds : place.endsEmpty = false)
    (hSome : place.alternatives = 0 → limits.allowEmptyList = true) :
    (opened limits position place).check .close =
      (.ok (), ⟨limits, ⟨.closed, position + 1⟩, place.after .close⟩) := by
  refine check_of_accepted (Pass.accept_close rfl) ?_
  show place.breach? limits .close = none
  simp only [Place.breach?, hEnds, Bool.false_eq_true, if_false]
  refine if_neg fun h => ?_
  simp only [Bool.and_eq_true, decide_eq_true_eq, Bool.not_eq_true'] at h
  rw [hSome h.1] at h
  cases h.2

/-- Of a list within the limits every event is accepted. -/
theorem accepts_events {list : SelectorList} (fits : list.Fits limits) :
    (fresh limits).Accepts list.events ∧ ((fresh limits).run list.events).isComplete = true ∧
      ((fresh limits).run list.events).place.alternatives = list.length := by
  have hInit : (fresh limits).check .init = (.ok (), opened limits 1 .fresh) := rfl
  obtain ⟨next, hEnds, hCount, hLeads⟩ := Place.leads_alternatives list .fresh rfl
    (by simpa [Place.fresh] using fits.length_le) fits.alternatives
  obtain ⟨hAccepts, hRun⟩ := hLeads 1
  have hCount : next.alternatives = list.length := by simpa [Place.fresh] using hCount
  have hSome : next.alternatives = 0 → limits.allowEmptyList = true := fun h => by
    rw [hCount, List.length_eq_zero_iff] at h
    exact (Bool.not_eq_false _).mp fun hStrict => fits.ne_nil hStrict h
  have hClose := check_close (1 + (list.flatMap Alternative.events).length) hEnds hSome
  simp only [SelectorList.events, accepts_cons, accepts_append, run_cons, run_append, hInit, hRun,
    hClose, accepts_nil, run_nil]
  exact ⟨⟨trivial, hAccepts, trivial, trivial⟩, rfl, hCount⟩

/-- All of a stream is accepted, and it is then complete. -/
def Completes (limits : Limits) (stream : List Event) : Prop :=
  (fresh limits).Accepts stream ∧ ((fresh limits).run stream).isComplete = true

instance (limits : Limits) : DecidablePred (Completes limits) := fun stream =>
  inferInstanceAs (Decidable ((fresh limits).Accepts stream ∧ _ = true))

theorem completes_events {list : SelectorList} (fits : list.Fits limits) :
    Completes limits list.events :=
  ⟨(accepts_events fits).1, (accepts_events fits).2.1⟩

theorem Completes.exists_list {stream : List Event} (h : Completes limits stream) :
    ∃ list : SelectorList, list.Fits limits ∧ list.events = stream ∧
      ((fresh limits).run stream).place = list.place := by
  obtain ⟨list, fits, hEvents, hPlace⟩ := (reads_run limits stream).exists_list h.2
  rw [accepted_of_accepts h.1] at hEvents
  exact ⟨list, fits, hEvents, hPlace⟩

/-- A validator accepts its grammar, and nothing else: all of a stream is
accepted, and the stream is then complete with `k` alternatives, exactly if it
reports a list of `k` alternatives within the limits. -/
theorem accepts_iff_selectorList (limits : Limits) (stream : List Event) (k : Nat) :
    (fresh limits).Accepts stream ∧ ((fresh limits).run stream).isComplete = true ∧
        ((fresh limits).run stream).place.alternatives = k ↔
      ∃ list : SelectorList, list.events = stream ∧ list.length = k ∧ list.Fits limits := by
  constructor
  · rintro ⟨hAccepts, hComplete, hCount⟩
    obtain ⟨list, fits, hEvents, hPlace⟩ := (reads_run limits stream).exists_list hComplete
    rw [accepted_of_accepts hAccepts] at hEvents
    rw [hPlace] at hCount
    exact ⟨list, hEvents, hCount, fits⟩
  · rintro ⟨list, rfl, rfl, fits⟩
    exact accepts_events fits

end Validator

end SelectorStream
