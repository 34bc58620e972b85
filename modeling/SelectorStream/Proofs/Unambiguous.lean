/-
# `SelectorStream.Proofs.Unambiguous` — the text of an accepted stream tells the stream

Any stream has a text, but two streams may have the same: `selector` shows only
between two alternatives, and an element after a class reads as more of the
class.  The grammar is what keeps texts apart.  In an accepted stream a head
follows no component, so each event is parted from the next one
(`Event.parts_of_follows`) and the reader of `SelectorStream.Proofs.CssReading`
finds the events one by one.

    Validator.eq_of_css_eq
        two accepted streams with plain names and the same text are the same
-/
import SelectorStream.Proofs.Acceptance
import SelectorStream.Proofs.CssReading

namespace SelectorStream

/-! ## What follows what -/

/-- In a compound a head may only be the first. -/
def Event.Follows (earlier later : Event) : Prop :=
  ∀ h, later = .head h → earlier.kind.isComponent = false

namespace Event

/-- The characters that events other than heads begin with. -/
def marks : List Char :=
  [',', ' ', '#', '.', '[', ':']

theorem parted_of_mem_marks {c : Char} (h : c ∈ marks) :
    c ∉ ['>', '+', '~'] ∧ isNameChar c = false ∧ c ≠ '|' := by
  simp only [marks, List.mem_cons, List.not_mem_nil, or_false] at h
  rcases h with rfl | rfl | rfl | rfl | rfl | rfl <;> decide

theorem exists_mark {e : Event} (hInit : e ≠ .init) (hClose : e ≠ .close)
    (hHead : ∀ h, e ≠ .head h) : ∃ c text, c ∈ marks ∧ e.spelling = c :: text := by
  match e with
  | .init => exact absurd rfl hInit
  | .close => exact absurd rfl hClose
  | .head h => exact absurd rfl (hHead h)
  | .selector => exact ⟨',', [' '], by simp [marks], rfl⟩
  | .filter (.identifier value) => exact ⟨'#', value.toList, by simp [marks], rfl⟩
  | .filter (.styleClass value) => exact ⟨'.', value.toList, by simp [marks], rfl⟩
  | .filter (.attribute _ _) => exact ⟨'[', _, by simp [marks], rfl⟩
  | .filter (.structural predicate) =>
      cases predicate <;> exact ⟨':', _, by simp [marks], rfl⟩
  | .filter (.nthChild _) => exact ⟨':', _, by simp [marks], rfl⟩
  | .combinator joint => cases joint <;> exact ⟨' ', _, by simp [marks], rfl⟩

theorem exists_head_eq_cons {h : Head} (plain : (Event.head h).Plain) :
    ∃ c text, (Event.head h).spelling = c :: text ∧ c ∉ ['>', '+', '~'] := by
  cases h with
  | universal => exact ⟨'*', [], rfl, by decide⟩
  | element name =>
      obtain ⟨c, text, hText, hFirst⟩ := name.exists_text_eq_cons plain
      refine ⟨c, text, hText, fun hJoint => ?_⟩
      simp only [List.mem_cons, List.not_mem_nil, or_false] at hJoint
      rcases hJoint with rfl | rfl | rfl <;> revert hFirst <;> simp [isNameChar]

theorem parts_nil (e : Event) : e.Parts [] where
  joint := fun _ h => by cases h
  component := fun _ _ h => by cases h

theorem parts_of_follows {e next : Event} (plain : next.Plain) (hInit : next ≠ .init)
    (hClose : next ≠ .close) (follows : e.Follows next) (rest : List Char) :
    e.Parts (next.spelling ++ rest) := by
  by_cases hHead : ∃ h, next = .head h
  · obtain ⟨h, rfl⟩ := hHead
    obtain ⟨c, text, hText, hJoint⟩ := exists_head_eq_cons plain
    rw [hText]
    refine ⟨forall_mem_head?_cons.mpr hJoint, fun component => ?_⟩
    rw [follows h rfl] at component
    cases component
  · obtain ⟨c, text, hMark, hText⟩ := exists_mark hInit hClose (not_exists.mp hHead)
    obtain ⟨hJoint, hComponent⟩ := parted_of_mem_marks hMark
    rw [hText]
    exact ⟨forall_mem_head?_cons.mpr hJoint, fun _ => forall_mem_head?_cons.mpr hComponent⟩

end Event

namespace Validator

/-- After a component the compound is not empty, so a head would be misplaced. -/
theorem follows_of_accepted {v : Validator} {e next : Event} (h : (v.check e).1 = .ok ())
    (hNext : ((v.check e).2.check next).1 = .ok ()) : e.Follows next := by
  rintro head rfl
  have hPlace := (step_of_ok h).2
  have hBreach := (step_of_ok hNext).1
  rw [hPlace] at hBreach
  cases e with
  | init | close | selector | combinator _ => rfl
  | head _ | filter _ =>
      simp only [Place.breach?, Place.headBreach?, Place.after, Trail.push, Trail.latest?,
        List.head?_cons] at hBreach
      cases hIn : v.place.inSelector <;> simp [hIn] at hBreach

theorem isChain_of_accepts {stream : List Event} : ∀ {v : Validator}, v.Accepts stream →
    stream.IsChain Event.Follows := by
  induction stream with
  | nil => intro _ _; exact .nil
  | cons e rest ih =>
      intro v h
      obtain ⟨hCheck, hRest⟩ := accepts_cons.mp h
      cases rest with
      | nil => exact .singleton e
      | cons next rest =>
          exact .cons_cons (follows_of_accepted hCheck (accepts_cons.mp hRest).1) (ih hRest)

end Validator

/-! ## Rows of events -/

namespace Event

/-- Events inside the bracket, with plain names, in the order of the grammar. -/
structure Legible (row : List Event) : Prop where
  plain : ∀ e ∈ row, e.Plain
  inner : ∀ e ∈ row, e ≠ .init ∧ e ≠ .close
  chain : row.IsChain Follows

theorem Legible.tail {e : Event} {rest : List Event} (legible : Legible (e :: rest)) :
    Legible rest where
  plain := fun d hd => legible.plain d (List.mem_cons_of_mem _ hd)
  inner := fun d hd => legible.inner d (List.mem_cons_of_mem _ hd)
  chain := legible.chain.tail

theorem Legible.read?_eq {e : Event} {rest : List Event} (legible : Legible (e :: rest)) :
    read? ((e :: rest).flatMap spelling) = some (e, rest.flatMap spelling) := by
  obtain ⟨hInit, hClose⟩ := legible.inner e List.mem_cons_self
  refine read?_spelling (legible.plain e List.mem_cons_self) hInit hClose ?_
  cases rest with
  | nil => exact parts_nil e
  | cons next rest =>
      obtain ⟨hNextInit, hNextClose⟩ := legible.tail.inner next List.mem_cons_self
      exact parts_of_follows (legible.tail.plain next List.mem_cons_self) hNextInit hNextClose
        (List.isChain_cons_cons.mp legible.chain).1 _

/-- Rows with the same text begin with the same event, and so do their rests. -/
theorem Legible.eq_of_text_eq {a b : List Event} (hA : Legible a) (hB : Legible b)
    (h : a.flatMap spelling = b.flatMap spelling) : a = b := by
  induction a generalizing b with
  | nil =>
      cases b with
      | nil => rfl
      | cons e rest =>
          have hRead := hB.read?_eq
          rw [← h] at hRead
          cases hRead
  | cons e rest ih =>
      have hRead := hA.read?_eq
      rw [h] at hRead
      cases b with
      | nil => cases hRead
      | cons e' rest' =>
          rw [hB.read?_eq] at hRead
          obtain ⟨rfl, hRest⟩ := Prod.mk.inj (Option.some.inj hRead)
          rw [ih hA.tail hB.tail hRest.symm]

end Event

/-! ## Whole streams -/

theorem Components.inner_of_mem {c : Components} {e : Event} (h : e ∈ c.events) :
    e ≠ .init ∧ e ≠ .close := by
  simp only [events, List.mem_append, List.mem_map] at h
  rcases h with ⟨_, _, rfl⟩ | ⟨_, _, rfl⟩ <;> simp

theorem Alternative.inner_of_mem {a : Alternative} {e : Event} (h : e ∈ a.events) :
    e ≠ .init ∧ e ≠ .close := by
  simp only [events, List.mem_cons, List.mem_append, List.mem_flatMap] at h
  rcases h with rfl | h | ⟨joined, _, rfl | h⟩
  · simp
  · exact Components.inner_of_mem h
  · simp
  · exact Components.inner_of_mem h

namespace Event

/-- A row after the `selector` that has no text. -/
def withSelector : List Event → List Event
  | [] => []
  | e :: rest => .selector :: e :: rest

def bracketed (row : List Event) : List Event :=
  .init :: (withSelector row ++ [.close])

theorem infix_withSelector (row : List Event) : row <:+: withSelector row := by
  cases row with
  | nil => exact List.infix_rfl
  | cons e rest => exact ⟨[.selector], [], by simp [withSelector]⟩

theorem streamChars_true (stream : List Event) :
    streamChars true stream = stream.flatMap spelling := by
  induction stream with
  | nil => rfl
  | cons e rest ih =>
      rw [List.flatMap_cons, ← ih]
      cases e <;> rfl

theorem toList_css_bracketed (row : List Event) :
    (SelectorStream.css (bracketed row)).toList = row.flatMap spelling := by
  rw [toList_css]
  cases row with
  | nil => rfl
  | cons e rest =>
      show streamChars true (e :: rest ++ [.close]) = _
      rw [streamChars_true, List.flatMap_append]
      exact List.append_nil _

end Event

theorem SelectorList.exists_row (list : SelectorList) :
    ∃ row, list.flatMap Alternative.events = Event.withSelector row := by
  cases list with
  | nil => exact ⟨[], rfl⟩
  | cons a others =>
      obtain ⟨e, first, hFirst⟩ := List.exists_cons_of_ne_nil a.first.nonempty
      obtain ⟨rest, hRest⟩ : ∃ rest, (a :: others).flatMap Alternative.events =
          .selector :: e :: rest := by
        simp [Alternative.events, hFirst]
      exact ⟨e :: rest, hRest⟩

namespace Validator

/-- A stream with plain names that is accepted to its end is that of a row that
can be read. -/
theorem Completes.exists_legible {limits : Limits} {stream : List Event}
    (h : Completes limits stream) (plain : ∀ e ∈ stream, e.Plain) :
    ∃ row, Event.Legible row ∧ stream = Event.bracketed row := by
  obtain ⟨list, -, rfl, -⟩ := h.exists_list
  obtain ⟨row, hRow⟩ := list.exists_row
  have hInside : row <:+: list.flatMap Alternative.events :=
    hRow ▸ Event.infix_withSelector row
  have hEvents : row <:+: list.events := hInside.trans ⟨[.init], [.close], rfl⟩
  refine ⟨row, { plain := ?_, inner := ?_, chain := ?_ }, ?_⟩
  · intro e he
    exact plain e (hEvents.subset he)
  · intro e he
    obtain ⟨a, _, hMem⟩ := List.mem_flatMap.mp (hInside.subset he)
    exact Alternative.inner_of_mem hMem
  · obtain ⟨before, behind, hSplit⟩ := hEvents
    have chain := isChain_of_accepts h.1
    rw [← hSplit] at chain
    exact chain.left_of_append.right_of_append
  · rw [SelectorList.events, hRow, Event.bracketed]

/-- The text of an accepted stream loses nothing of it.

Two streams that are each accepted to the end, under whatever limits, are the
same if their names are plain and they have the same text.  Operands of
attribute tests and coefficients of `an+b` may be any. -/
theorem eq_of_css_eq {limits limits' : Limits} {a b : List Event} (hA : Completes limits a)
    (hB : Completes limits' b) (plainA : ∀ e ∈ a, e.Plain) (plainB : ∀ e ∈ b, e.Plain)
    (h : css a = css b) : a = b := by
  obtain ⟨row, legible, rfl⟩ := hA.exists_legible plainA
  obtain ⟨row', legible', rfl⟩ := hB.exists_legible plainB
  have hText : row.flatMap Event.spelling = row'.flatMap Event.spelling := by
    rw [← Event.toList_css_bracketed, ← Event.toList_css_bracketed, h]
  rw [legible.eq_of_text_eq legible' hText]

/-- The text is that of one alternative, although a bar, a blank and a comma
occur in it, and of one stream, whatever the limits. -/
theorem eq_of_css_eq_quoted :
    let compound : List Event := [.head (.element ⟨.any, "a"⟩),
      .filter (.attribute ⟨.implied, "b"⟩ (.compares .dashMatch "\", c"))]
    let last : List Event := [.head .universal, .filter (.nthChild ⟨-1, 3⟩)]
    let a := Event.bracketed (compound ++ .combinator .descendant :: last)
    let b := .init :: .selector :: compound ++ (.combinator .descendant :: last ++ [.close])
    let tight : Limits := { maxAlternatives := 1, maxComponents := 2 }
    Completes {} a ∧ Completes tight b ∧ (∀ e ∈ a, e.Plain) ∧ (∀ e ∈ b, e.Plain) ∧
      css a = "*|a[b|=\"\\\", c\"] *:nth-child(-n+3)" ∧ css a = css b ∧ a = b := by
  intro compound last a b tight
  have hA : Completes {} a := by decide
  have hB : Completes tight b := by decide
  have plainA : ∀ e ∈ a, e.Plain := by decide
  have plainB : ∀ e ∈ b, e.Plain := by decide
  have hText : css a = "*|a[b|=\"\\\", c\"] *:nth-child(-n+3)" := by decide
  have hCss : css a = css b := by decide
  have hSame : a = b := eq_of_css_eq hA hB plainA plainB hCss
  exact ⟨hA, hB, plainA, plainB, hText, hCss, hSame⟩

end Validator

end SelectorStream
