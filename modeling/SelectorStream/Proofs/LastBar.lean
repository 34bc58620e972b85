/-
# `SelectorStream.Proofs.LastBar` — qualified names taken apart

A qualified name is written with a bar between the label of its namespace and the name.
The label may be any text and may hold bars itself.  As long as the name holds none, the
last bar is the one that parts the two (`Namespace.lastBar?_qualify`).  A text without a bar
is a name that nothing was written before.

From the label the namespace is found again, save for two namespaces.  The labels `""` and
`"*"` are read as explicitly none and as any, so a namespace that is declared under one of
them is written like another one (`Namespace.ofLabel_label?_iff`).

    Namespace.qualify_taken_apart
-/
import SelectorStream.QualifiedName

namespace SelectorStream

/-! ## The last bar of a text -/

/-- What stands before the last bar and what stands behind it, if there is a bar. -/
def splitAtLastBar? : List Char → Option (List Char × List Char)
  | [] => none
  | c :: rest =>
    match splitAtLastBar? rest with
    | some (before, behind) => some (c :: before, behind)
    | none => if c = '|' then some ([], rest) else none

theorem splitAtLastBar?_eq_none_iff {text : List Char} :
    splitAtLastBar? text = none ↔ '|' ∉ text := by
  induction text with
  | nil => simp [splitAtLastBar?]
  | cons c rest ih =>
      rw [splitAtLastBar?, List.mem_cons, not_or, ← ih]
      cases splitAtLastBar? rest with
      | some parts => simp
      | none => simp [eq_comm]

/-- The bar that is found is one behind which no other stands, and there is only one such. -/
theorem splitAtLastBar?_eq_some_iff {text before behind : List Char} :
    splitAtLastBar? text = some (before, behind) ↔
      text = before ++ '|' :: behind ∧ '|' ∉ behind := by
  induction text generalizing before with
  | nil => simp [splitAtLastBar?]
  | cons c rest ih =>
      rw [splitAtLastBar?]
      constructor
      · intro h
        cases hRest : splitAtLastBar? rest with
        | some parts =>
            rw [hRest] at h
            cases h
            obtain ⟨hText, hPlain⟩ := ih.mp hRest
            exact ⟨congrArg (c :: ·) hText, hPlain⟩
        | none =>
            rw [hRest] at h
            obtain ⟨rfl, hParts⟩ := Option.ite_none_right_eq_some.mp h
            cases hParts
            exact ⟨rfl, splitAtLastBar?_eq_none_iff.mp hRest⟩
      · rintro ⟨hText, hPlain⟩
        cases before with
        | nil =>
            obtain ⟨rfl, rfl⟩ := List.cons.inj hText
            rw [splitAtLastBar?_eq_none_iff.mpr hPlain]
            rfl
        | cons d before =>
            obtain ⟨rfl, hRest⟩ := List.cons.inj hText
            rw [ih.mpr ⟨hRest, hPlain⟩]

def lastBar? (text : String) : Option (String × String) :=
  (splitAtLastBar? text.toList).map fun parts => (.ofList parts.1, .ofList parts.2)

theorem lastBar?_eq_none_iff {text : String} : lastBar? text = none ↔ '|' ∉ text.toList := by
  rw [lastBar?, Option.map_eq_none_iff, splitAtLastBar?_eq_none_iff]

theorem lastBar?_eq_some_iff {text before behind : String} :
    lastBar? text = some (before, behind) ↔
      text.toList = before.toList ++ '|' :: behind.toList ∧ '|' ∉ behind.toList := by
  rw [← splitAtLastBar?_eq_some_iff, lastBar?, Option.map_eq_some_iff]
  constructor
  · rintro ⟨⟨left, right⟩, hParts, h⟩
    cases h
    rw [hParts, String.toList_ofList, String.toList_ofList]
  · intro hParts
    exact ⟨_, hParts, by rw [String.ofList_toList, String.ofList_toList]⟩

namespace Namespace

/-! ## Qualified names -/

theorem qualify_of_label?_eq_none {ns : Namespace} (h : ns.label? = none) (name : String) :
    ns.qualify name = name := by
  rw [qualify, h]

theorem lastBar?_qualify (ns : Namespace) {name : String} (plain : '|' ∉ name.toList) :
    lastBar? (ns.qualify name) = ns.label?.map fun label => (label, name) := by
  cases hLabel : ns.label? with
  | none =>
      rw [qualify_of_label?_eq_none hLabel]
      exact lastBar?_eq_none_iff.mpr plain
  | some label => exact lastBar?_eq_some_iff.mpr ⟨toList_qualify hLabel name, plain⟩

theorem qualify_inj {ns ns' : Namespace} {name name' : String} (plain : '|' ∉ name.toList)
    (plain' : '|' ∉ name'.toList) (h : ns.qualify name = ns'.qualify name') :
    ns.label? = ns'.label? ∧ name = name' := by
  have hParts := congrArg lastBar? h
  rw [lastBar?_qualify ns plain, lastBar?_qualify ns' plain'] at hParts
  cases hLabel : ns.label? with
  | none =>
      rw [hLabel, Option.map_none, eq_comm, Option.map_eq_none_iff] at hParts
      rw [qualify_of_label?_eq_none hLabel, qualify_of_label?_eq_none hParts] at h
      exact ⟨hParts.symm, h⟩
  | some label =>
      rw [hLabel, Option.map_some, eq_comm, Option.map_eq_some_iff] at hParts
      obtain ⟨label', hLabel', hSame⟩ := hParts
      cases hSame
      exact ⟨hLabel'.symm, rfl⟩

theorem ofLabel_label?_iff (ns : Namespace) :
    ofLabel ns.label? = ns ↔ ns ≠ .declared "" ∧ ns ≠ .declared "*" := by
  cases ns with
  | implied | empty | any => simp [label?, ofLabel]
  | declared label =>
      rw [label?, ofLabel]
      by_cases hEmpty : label = ""
      · simp [hEmpty]
      · by_cases hAny : label = "*"
        · simp [hAny]
        · simp [hEmpty, hAny]

/-- What is written for a qualified name can be taken apart again.

The namespace that is read from a label, or from no label, has that label.  Let a name
without a bar be written under it.  If the text holds no bar, nothing was written before the
name, and the text is the name.  Otherwise the name stands behind the last bar, and what
stands before that bar is read as the namespace.  So two such texts are the same only if the
namespaces and the names are.  Of all namespaces, those that are not read from their own
labels are the ones declared under `""` and under `"*"`. -/
theorem qualify_taken_apart :
    (∀ label, (ofLabel label).label? = label) ∧
    (∀ label name, '|' ∉ name.toList →
      let text := (ofLabel label).qualify name
      ('|' ∉ text.toList → ofLabel label = .implied ∧ text = name) ∧
      ('|' ∈ text.toList → ∃ before,
        lastBar? text = some (before, name) ∧ ofLabel (some before) = ofLabel label)) ∧
    (∀ label label' name name', '|' ∉ name.toList → '|' ∉ name'.toList →
      (ofLabel label).qualify name = (ofLabel label').qualify name' →
        ofLabel label = ofLabel label' ∧ name = name') ∧
    ∀ ns, ofLabel ns.label? = ns ↔ ns ≠ .declared "" ∧ ns ≠ .declared "*" := by
  refine ⟨label?_ofLabel, fun label name plain => ?_, ?_, ofLabel_label?_iff⟩
  · have hParts := lastBar?_qualify (ofLabel label) plain
    rw [label?_ofLabel] at hParts
    refine ⟨fun hNoBar => ?_, fun hBar => ?_⟩
    · rw [lastBar?_eq_none_iff.mpr hNoBar, eq_comm, Option.map_eq_none_iff] at hParts
      subst hParts
      exact ⟨rfl, rfl⟩
    · cases label with
      | none => exact absurd hBar plain
      | some before => exact ⟨before, hParts, rfl⟩
  · intro label label' name name' plain plain' h
    obtain ⟨hLabel, hName⟩ := qualify_inj plain plain' h
    rw [label?_ofLabel, label?_ofLabel] at hLabel
    exact ⟨congrArg ofLabel hLabel, hName⟩

/-- A label with a bar in it, and no label at all. -/
theorem taken_apart_behind_two_bars :
    let text := (ofLabel (some "a|b")).qualify "c"
    ('|' ∉ "c".toList ∧ '|' ∈ text.toList ∧ '|' ∉ ((ofLabel none).qualify "c").toList) ∧
      (∃ before, lastBar? text = some (before, "c") ∧ ofLabel (some before) = .declared "a|b") ∧
      (ofLabel none = .implied ∧ (ofLabel none).qualify "c" = "c") ∧
      text ≠ (ofLabel none).qualify "c" := by
  intro text
  have plain : '|' ∉ "c".toList := by decide
  have hBar : '|' ∈ text.toList := by decide
  have hNoBar : '|' ∉ ((ofLabel none).qualify "c").toList := by decide
  obtain ⟨_, hApart, hInj, _⟩ := qualify_taken_apart
  refine ⟨⟨plain, hBar, hNoBar⟩, (hApart (some "a|b") "c" plain).2 hBar,
    (hApart none "c" plain).1 hNoBar, fun h => ?_⟩
  exact absurd (hInj (some "a|b") none "c" "c" plain plain h).1 (by decide)

end Namespace

end SelectorStream
