/-
# `SelectorStream.Proofs.Representation` — what the fields of a validator hold

The fields of a validator can be set to much that no stream leads to: a counter
beyond its limit, a compound with a head in the middle, a flag that says that an
alternative has begun where none was counted.  `Place.Sound` says which places
make sense under given limits, and `Validator.Represents` which validators make
sense after given accepted events.

Nothing here looks into `Validator.check` again.  A validator stands at the end
of a draft, of a list, or where a breach has ended a draft (`Validator.Reads`);
in each of these the fields are known, and the main statement reads them off:

    Validator.represents_run
-/
import SelectorStream.Proofs.Hindsight

namespace SelectorStream

/-! ## The events that end a compound -/

/-- Whatever compound was being built before the event, none is after it. -/
def Event.endsCompound : Event → Bool
  | .close | .selector | .combinator _ => true
  | .init | .head _ | .filter _ => false

namespace History

/-- The kinds after the last event that ends a compound, or after the leading
`init` where there is none. -/
def sinceCompoundEnd (history : List Event) : List Kind :=
  (history.tail.rtakeWhile fun e => !e.endsCompound).map Event.kind

theorem sinceCompoundEnd_of_split {front components : List Event} {boundary : Event}
    (hBoundary : boundary.endsCompound = true)
    (hComponents : ∀ e ∈ components, e.kind.isComponent = true) :
    sinceCompoundEnd (.init :: (front ++ boundary :: components)) =
      components.map Event.kind := by
  have hRest : ∀ e ∈ components, (!e.endsCompound) = true := by
    intro e hm
    have hComponent := hComponents e hm
    cases e with
    | head _ | filter _ => rfl
    | init | close | selector | combinator _ => cases hComponent
  rw [sinceCompoundEnd, List.tail_cons, rtakeWhile_of_split (by simp [hBoundary]) hRest]

end History

/-! ## Places -/

/-- A place whose fields agree with each other and keep within limits. -/
structure Place.Sound (limits : Limits) (place : Place) : Prop where
  inSelector_iff : place.inSelector = true ↔ 1 ≤ place.alternatives
  alternatives_le : place.alternatives ≤ limits.maxAlternatives
  size_le : place.compound.size ≤ limits.maxComponents
  components : ∀ kind ∈ place.compound.toList, kind.category = .head ∨ kind.category = .filter
  head_first : ∀ kind ∈ place.compound.toList.tail, kind.category ≠ .head
  compound_eq_empty : place.inSelector = false → place.compound = .empty

namespace Place

variable {limits : Limits}

theorem sound_of_empty {inSelector : Bool} {alternatives : Nat}
    (hFlag : inSelector = true ↔ 1 ≤ alternatives)
    (hCount : alternatives ≤ limits.maxAlternatives) :
    Sound limits ⟨inSelector, alternatives, .empty⟩ where
  inSelector_iff := hFlag
  alternatives_le := hCount
  size_le := Nat.zero_le _
  components := fun _ h => absurd h List.not_mem_nil
  head_first := fun _ h => absurd h List.not_mem_nil
  compound_eq_empty := fun _ => rfl

theorem sound_fresh : Sound limits .fresh :=
  sound_of_empty (by decide) (Nat.zero_le _)

/-- A breach loses a compound at most, and leaves no other one. -/
theorem Sound.afterBreach {place : Place} (sound : place.Sound limits) (breach : Breach) :
    (place.afterBreach breach).Sound limits := by
  cases breach with
  | tooManyAlternatives limit => exact sound_of_empty sound.inSelector_iff sound.alternatives_le
  | _ => exact sound

end Place

/-! ## Components, drafts and lists -/

namespace Components

theorem category_of_mem {c : Components} {kind : Kind} (h : kind ∈ c.kinds) :
    kind.category = .head ∨ kind.category = .filter := by
  obtain ⟨e, hm, rfl⟩ := List.mem_map.mp h
  have hComponent := isComponent_of_mem hm
  cases e with
  | head _ => exact .inl rfl
  | filter _ => exact .inr rfl
  | init | close | selector | combinator _ => cases hComponent

theorem category_of_mem_tail {c : Components} {kind : Kind} (h : kind ∈ c.kinds.tail) :
    kind.category = .filter := by
  have hFilter : kind ∈ (c.filters.map Event.filter).map Event.kind := by
    obtain ⟨head?, filters⟩ := c
    cases head? with
    | none => exact List.mem_of_mem_tail h
    | some head => exact h
  obtain ⟨e, hm, rfl⟩ := List.mem_map.mp hFilter
  obtain ⟨f, _, rfl⟩ := List.mem_map.mp hm
  rfl

end Components

section Ends

variable {limits : Limits}

theorem Draft.sound_place {d : Draft} (fits : d.Fits limits) : d.place.Sound limits := by
  cases d with
  | blank => exact Place.sound_fresh
  | within ended stem last =>
      obtain ⟨hCount, _, _, hLast⟩ := fits
      refine ⟨?_, hCount, ?_, ?_, ?_, ?_⟩
      · exact ⟨fun _ => Nat.succ_pos _, fun _ => rfl⟩
      · show (Trail.ofList last.kinds).size ≤ _
        rw [Trail.size_eq_length_toList, Trail.toList_ofList, Components.length_kinds]
        exact hLast.length_le
      · intro kind h
        exact Components.category_of_mem (Trail.toList_ofList last.kinds ▸ h)
      · intro kind h hHead
        have hFilter := Components.category_of_mem_tail (Trail.toList_ofList last.kinds ▸ h)
        rw [hHead] at hFilter
        cases hFilter
      · intro hOutside
        cases hOutside

theorem SelectorList.sound_place {list : SelectorList} (fits : list.Fits limits) :
    list.place.Sound limits := by
  refine Place.sound_of_empty ?_ fits.length_le
  cases list with
  | nil => decide
  | cons a rest => exact ⟨fun _ => Nat.succ_pos _, fun _ => rfl⟩

end Ends

/-- A draft holds the kinds that came after its last boundary or combinator. -/
theorem Draft.toList_compound (d : Draft) :
    d.place.compound.toList = History.sinceCompoundEnd d.events := by
  cases d with
  | blank => rfl
  | within ended stem last =>
      obtain ⟨front, boundary, hEvents, hBoundary⟩ := exists_boundary ended stem last
      have hEnds : boundary.endsCompound = true := by
        rcases hBoundary with rfl | ⟨c, rfl⟩ <;> rfl
      rw [hEvents, History.sinceCompoundEnd_of_split hEnds fun e => Components.isComponent_of_mem]
      exact Trail.toList_ofList _

theorem SelectorList.sinceCompoundEnd_events (list : SelectorList) :
    History.sinceCompoundEnd list.events = [] :=
  History.sinceCompoundEnd_of_split rfl fun _ h => absurd h List.not_mem_nil

theorem SelectorList.count_selector (list : SelectorList) :
    list.events.count .selector = list.length := by
  rw [events, List.count_cons_of_ne (by simp), List.count_append, count_selector_flatMap]
  rfl

/-! ## Validators -/

namespace Validator

/-- A validator whose fields make sense after certain accepted events.  A breach
keeps the counter but may lose the compound, so these two are known from the
events only where there was none. -/
structure Represents (limits : Limits) (history : List Event) (v : Validator) : Prop where
  limits_eq : v.limits = limits
  place : v.place.Sound limits
  compound_eq_empty : v.pass.phase = .idle ∨ v.pass.phase = .closed → v.place.compound = .empty
  closed : v.pass.phase = .closed → 1 ≤ v.place.alternatives ∨ limits.allowEmptyList = true
  position : v.pass.position = history.length
  alternatives : v.pass.phase ≠ .faulted → v.place.alternatives = history.count .selector
  compound : v.pass.phase ≠ .faulted →
    v.place.compound.toList = History.sinceCompoundEnd history

theorem Reads.represents {limits : Limits} {history : List Event} {v : Validator}
    (reads : Reads limits history v) : v.Represents limits history := by
  cases reads with
  | idle =>
      exact {
        limits_eq := rfl
        place := Place.sound_fresh
        compound_eq_empty := fun _ => rfl
        closed := by rintro ⟨⟩
        position := rfl
        alternatives := fun _ => rfl
        compound := fun _ => rfl }
  | @opened d fits =>
      exact {
        limits_eq := rfl
        place := d.sound_place fits
        compound_eq_empty := by rintro (h | h) <;> cases h
        closed := by rintro ⟨⟩
        position := rfl
        alternatives := fun _ => d.recalls.alternatives
        compound := fun _ => d.toList_compound }
  | @closed list fits =>
      exact {
        limits_eq := rfl
        place := list.sound_place fits
        compound_eq_empty := fun _ => rfl
        closed := by
          intro _
          cases hAllow : limits.allowEmptyList with
          | true => exact .inr rfl
          | false => exact .inl (List.length_pos_iff.mpr (fits.ne_nil hAllow))
        position := rfl
        alternatives := fun _ => list.count_selector.symm
        compound := fun _ => list.sinceCompoundEnd_events.symm }
  | @faulted d breach fits =>
      exact {
        limits_eq := rfl
        place := (d.sound_place fits).afterBreach breach
        compound_eq_empty := by rintro (h | h) <;> cases h
        closed := by rintro ⟨⟩
        position := rfl
        alternatives := fun h => absurd rfl h
        compound := fun h => absurd rfl h }

/-- Whatever a validator is sent, its fields make sense.

Some alternative has begun exactly if one was counted; the counter and the
compound keep within the limits; the compound has components only, with a head
at most in front, and there is none before the first alternative, before `init`
or after `close`.  A closed validator has counted an alternative unless the
empty list is allowed.  The position is the number of the accepted events, and
short of a breach the counter is the number of the alternatives among them and
the compound holds what came after the last event that ends a compound. -/
theorem represents_run (limits : Limits) (past : List Event) :
    ((fresh limits).run past).Represents limits ((fresh limits).accepted past) :=
  (reads_run limits past).represents

end Validator

end SelectorStream
