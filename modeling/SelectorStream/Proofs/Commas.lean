/-
# `SelectorStream.Proofs.Commas` — commas part the alternatives of a text

The text of a stream has `, ` before every alternative but the first, whether the
stream is well formed or not.  If no name and no operand holds a comma, nothing
else in the text does, and splitting the text at `, ` gives the texts of the
alternatives back:

    css_eq_intercalate              the text, joined from those of the alternatives
    toList_split_intercalate_cons   joined pieces, split again
    commas_part_alternatives        the text, split into those of the alternatives

An alternative may be empty, and what comes before the first boundary stands with
the first alternative.
-/
import SelectorStream.Event.Css
import SelectorStream.Proofs.NthNotation

namespace SelectorStream

/-! ## Splitting at a separator -/

section Split

open String.Slice String.Slice.Pattern

variable {separator : String} {first : Char} {others : List Char}

theorem not_matchesAt_of_not_mem {s : String.Slice} {start stop p : s.Pos}
    {before piece after : String} (hSeparator : separator.toList = first :: others)
    (hStart : start.Splits before (piece ++ after)) (hStop : stop.Splits (before ++ piece) after)
    (hPiece : first ∉ piece.toList) (hFrom : start ≤ p) (hTo : p < stop) :
    ¬ Model.MatchesAt separator p := by
  intro hMatch
  obtain ⟨front, back, hFound⟩ := Model.ForwardStringSearcher.matchesAt_iff_splits.mp hMatch
  obtain ⟨skipped, rfl, _⟩ := (hStart.le_iff_exists_eq_append hFound).mp hFrom
  obtain ⟨left, hLeft, hFront, hBack⟩ := (hFound.lt_iff_exists_eq_append hStop).mp hTo
  obtain rfl : piece = skipped ++ left := by simpa [String.append_assoc] using hFront
  -- What is left of the piece begins as the separator does.
  obtain ⟨c, rest, hChars⟩ :=
    List.exists_cons_of_ne_nil fun h => hLeft (String.toList_eq_nil_iff.mp h)
  have hHead := congrArg String.toList hBack
  rw [String.toList_append, String.toList_append, hSeparator, hChars] at hHead
  obtain rfl := (List.cons.inj hHead).1
  exact hPiece (by simp [hChars])

/-- Pieces without the first character of the separator are found again, from
wherever in a text they begin. -/
theorem map_copy_split {s : String.Slice} [Model.StrictPatternModel separator]
    (hSeparator : separator.toList = first :: others) (pieces : List String) :
    ∀ (piece : String) (start : s.Pos) (before : String),
      (∀ text ∈ piece :: pieces, first ∉ text.toList) →
      start.Splits before (separator.intercalate (piece :: pieces)) →
      (Model.split separator start start (Std.le_refl _)).map (copy ∘ Subslice.toSlice) =
        piece :: pieces := by
  induction pieces with
  | nil =>
      intro piece start before hPieces hStart
      have hPiece := hPieces piece List.mem_cons_self
      rw [String.intercalate_singleton] at hStart
      have hRest : start.Splits before (piece ++ "") := by rwa [String.append_empty]
      have hStop : s.endPos.Splits (before ++ piece) "" := hStart.eq_append ▸ s.splits_endPos
      rw [Model.split_eq_of_not_matchesAt s.endPos start.le_endPos
        fun _ => not_matchesAt_of_not_mem hSeparator hRest hStop hPiece, Model.split_endPos]
      simp [hStart.copy_sliceFrom_eq]
  | cons next pieces ih =>
      intro piece start before hPieces hStart
      have hPiece := hPieces piece List.mem_cons_self
      rw [String.intercalate_cons_cons, String.append_assoc] at hStart
      have hStop := hStart.splits_rotateRight
      have hNext := hStop.splits_rotateRight
      have hMatch : Model.IsLongestMatchAt separator hStart.rotateRight hStop.rotateRight :=
        Model.ForwardStringSearcher.isLongestMatchAt_iff_splits.mpr ⟨_, _, hStop, hNext⟩
      obtain ⟨hLe, hCopy⟩ := copy_slice_eq_iff_splits.mpr ⟨_, _, hStart, hStop⟩
      have hOthers := ih next _ _ (fun text h => hPieces text (List.mem_cons_of_mem _ h)) hNext
      rw [Model.split_eq_of_not_matchesAt hStart.rotateRight hLe
        fun _ => not_matchesAt_of_not_mem hSeparator hStart hStop hPiece,
        Model.split_eq_of_isLongestMatchAt hMatch, List.map_cons, hOthers, Function.comp_apply,
        toSlice_subslice, hCopy]

/-- Splitting undoes joining, if the first character of the separator is in no
piece. -/
theorem toList_split_intercalate_cons (hSeparator : separator.toList = first :: others)
    {piece : String} {pieces : List String}
    (hPieces : ∀ text ∈ piece :: pieces, first ∉ text.toList) :
    ((separator.intercalate (piece :: pieces)).split separator).toList.map copy =
      piece :: pieces := by
  have hNonempty : separator ≠ "" := by
    rintro rfl
    cases hSeparator
  have := Model.ForwardStringSearcher.strictPatternModel hNonempty
  have := Model.ForwardStringSearcher.lawfulToForwardSearcherModel hNonempty
  rw [String.split_eq_split_toSlice, toList_split_eq_splitToSubslice, List.map_map,
    toList_splitToSubslice_eq_modelSplit]
  refine map_copy_split hSeparator pieces piece _ "" hPieces ?_
  exact splits_startPos_iff.mpr ⟨rfl, String.copy_toSlice.symm⟩

end Split

/-! ## Texts without a comma -/

def QualifiedName.texts (q : QualifiedName) : List String :=
  match q.ns with
  | .declared label => [label, q.name]
  | .implied | .empty | .any => [q.name]

def Event.texts : Event → List String
  | .head (.element q) => q.texts
  | .filter (.identifier value) | .filter (.styleClass value) => [value]
  | .filter (.attribute q test) => q.texts ++ test.operand?.toList
  | .init | .close | .selector | .head .universal | .filter (.structural _)
  | .filter (.nthChild _) | .combinator _ => []

theorem comma_not_mem_name {q : QualifiedName} (h : ∀ text ∈ q.texts, ',' ∉ text.toList) :
    ',' ∉ q.text.toList := by
  obtain ⟨ns, name⟩ := q
  cases ns <;>
    simpa [QualifiedName.texts, QualifiedName.text, Namespace.qualify, Namespace.label?] using h

theorem Quoted.mem_of_mem_escape {c : Char} {text : List Char} (hc : c ≠ '\\')
    (h : c ∈ escape text) : c ∈ text := by
  induction text with
  | nil => cases h
  | cons d rest ih =>
      rw [escape] at h
      split at h
      · have hAdded := (List.mem_cons.mp h).resolve_left hc
        exact (List.mem_cons.mp hAdded).elim (· ▸ List.mem_cons_self)
          fun h => List.mem_cons_of_mem _ (ih h)
      · exact (List.mem_cons.mp h).elim (· ▸ List.mem_cons_self)
          fun h => List.mem_cons_of_mem _ (ih h)

theorem comma_not_mem_test {test : AttributeTest}
    (h : ∀ operand ∈ test.operand?.toList, ',' ∉ operand.toList) : ',' ∉ test.cssChars := by
  cases test with
  | present => exact List.not_mem_nil
  | compares comparison operand =>
      have hOperand : ',' ∉ Quoted.escape operand.toList := fun hComma =>
        h operand List.mem_cons_self (Quoted.mem_of_mem_escape (by decide) hComma)
      have hOperator : ',' ∉ comparison.operator := by
        cases comparison <;> decide
      simp [AttributeTest.cssChars, Quoted.quote, hOperand, hOperator]

theorem comma_not_mem_nth (x : Nth) : ',' ∉ x.chars := by
  intro h
  rcases Nth.isNotation_of_mem_chars h with h | h
  · cases h
  · revert h
    decide

theorem comma_not_mem_filter {f : Filter}
    (h : ∀ text ∈ (Event.filter f).texts, ',' ∉ text.toList) : ',' ∉ f.cssChars := by
  match f with
  | .identifier value | .styleClass value =>
      have hValue : ',' ∉ value.toList := h value List.mem_cons_self
      exact List.not_mem_cons_of_ne_of_not_mem (by decide) hValue
  | .attribute q test =>
      have hName : ',' ∉ q.text.toList :=
        comma_not_mem_name fun text ht => h text (List.mem_append_left _ ht)
      have hTest : ',' ∉ test.cssChars :=
        comma_not_mem_test fun text ht => h text (List.mem_append_right _ ht)
      show ',' ∉ '[' :: (q.text.toList ++ test.cssChars ++ [']'])
      simp [hName, hTest]
  | .structural predicate => cases predicate <;> decide
  | .nthChild x =>
      show ',' ∉ ":nth-child(".toList ++ x.chars ++ [')']
      simp [comma_not_mem_nth]

theorem comma_not_mem_css {e : Event} (h : ∀ text ∈ e.texts, ',' ∉ text.toList) :
    ',' ∉ e.css.toList := by
  rw [Event.css, String.toList_ofList]
  cases e with
  | init | close | selector => exact List.not_mem_nil
  | head h' =>
      cases h' with
      | element q => exact comma_not_mem_name h
      | universal => decide
  | filter f => exact comma_not_mem_filter h
  | combinator joint =>
      cases joint <;> decide

/-! ## The alternatives of a stream -/

namespace Event

/-- The events of a stream from one boundary to the next.  The first boundary is
left out: what comes before it stands with the first alternative. -/
def alternatives (stream : List Event) : List (List Event) :=
  (stream.erase .selector).splitOn .selector

def joinedCss (events : List Event) : String :=
  String.join (events.map css)

theorem splitOn_selector_cons (rest : List Event) :
    (Event.selector :: rest).splitOn .selector = [] :: rest.splitOn .selector := by
  rw [List.splitOn_cons_eq_if_modifyHead, if_pos (beq_self_eq_true _)]

theorem splitOn_cons_of_ne {e : Event} (he : e ≠ .selector) (rest : List Event) :
    (e :: rest).splitOn .selector = (rest.splitOn .selector).modifyHead (e :: ·) := by
  rw [List.splitOn_cons_eq_if_modifyHead, if_neg (by simpa using he)]

theorem length_splitOn (stream : List Event) :
    (stream.splitOn .selector).length = stream.count .selector + 1 := by
  induction stream with
  | nil => rfl
  | cons e rest ih =>
      by_cases he : e = .selector
      · rw [he, splitOn_selector_cons, List.length_cons, ih, List.count_cons_self]
      · rw [splitOn_cons_of_ne he, List.length_modifyHead, ih, List.count_cons_of_ne he]

theorem flatten_splitOn (stream : List Event) :
    (stream.splitOn .selector).flatten = stream.filter (· ≠ .selector) := by
  induction stream with
  | nil => rfl
  | cons e rest ih =>
      by_cases he : e = .selector
      · rw [he, splitOn_selector_cons, List.flatten_cons, List.nil_append, ih,
          List.filter_cons_of_neg (by simp)]
      · rw [splitOn_cons_of_ne he, List.filter_cons_of_pos (by simpa using he), ← ih]
        cases hRest : rest.splitOn .selector with
        | nil => exact absurd hRest (List.splitOn_ne_nil _ _)
        | cons row rows => rfl

theorem length_alternatives (stream : List Event) :
    (alternatives stream).length = max 1 (stream.count .selector) := by
  rw [alternatives, length_splitOn, List.count_erase_self]
  omega

theorem mem_of_mem_alternatives {stream row : List Event} {e : Event}
    (hRow : row ∈ alternatives stream) (he : e ∈ row) : e ∈ stream := by
  have hKept : e ∈ (alternatives stream).flatten := List.mem_flatten_of_mem hRow he
  rw [alternatives, flatten_splitOn] at hKept
  exact List.mem_of_mem_erase (List.mem_filter.mp hKept).1

/-! ### Their texts -/

theorem intercalate_modifyHead (e : Event) {rows : List (List Event)} (h : rows ≠ []) :
    ", ".intercalate ((rows.modifyHead (e :: ·)).map joinedCss) =
      e.css ++ ", ".intercalate (rows.map joinedCss) := by
  cases rows with
  | nil => exact absurd rfl h
  | cons row rows =>
      show ", ".intercalate (joinedCss (e :: row) :: rows.map joinedCss) = _
      rw [joinedCss, List.map_cons, String.join_cons, String.intercalate_cons_append]
      rfl

theorem ofList_streamChars_of_ne {e : Event} (he : e ≠ .selector) (begun : Bool)
    (rest : List Event) :
    String.ofList (streamChars begun (e :: rest)) =
      e.css ++ String.ofList (streamChars begun rest) := by
  rw [streamChars, String.ofList_append, css]
  exact he

theorem ofList_streamChars_true (stream : List Event) :
    String.ofList (streamChars true stream) =
      ", ".intercalate ((stream.splitOn .selector).map joinedCss) := by
  induction stream with
  | nil => rfl
  | cons e rest ih =>
      by_cases he : e = .selector
      · have hRest : (rest.splitOn .selector).map joinedCss ≠ [] := by
          simp [List.splitOn_ne_nil]
        rw [he, splitOn_selector_cons, List.map_cons, String.intercalate_cons_of_ne_nil hRest, ← ih]
        show String.ofList (", ".toList ++ streamChars true rest) = _
        rw [String.ofList_append, String.ofList_toList]
        rfl
      · rw [ofList_streamChars_of_ne he, splitOn_cons_of_ne he, ih,
          intercalate_modifyHead e (List.splitOn_ne_nil _ _)]

theorem ofList_streamChars_false (stream : List Event) :
    String.ofList (streamChars false stream) =
      String.ofList (streamChars true (stream.erase .selector)) := by
  induction stream with
  | nil => rfl
  | cons e rest ih =>
      by_cases he : e = .selector
      · rw [he, List.erase_cons_head]
        rfl
      · rw [List.erase_cons_tail (by simpa using he), ofList_streamChars_of_ne he,
          ofList_streamChars_of_ne he, ih]

theorem comma_not_mem_joinedCss {events : List Event}
    (h : ∀ e ∈ events, ∀ text ∈ e.texts, ',' ∉ text.toList) : ',' ∉ (joinedCss events).toList := by
  intro hComma
  rw [joinedCss, String.toList_join] at hComma
  obtain ⟨_, hText, hComma⟩ := List.mem_flatMap.mp hComma
  obtain ⟨e, he, rfl⟩ := List.mem_map.mp hText
  exact comma_not_mem_css (h e he) hComma

end Event

/-- The text of a stream joins the texts of its alternatives. -/
theorem css_eq_intercalate (stream : List Event) :
    css stream = ", ".intercalate ((Event.alternatives stream).map Event.joinedCss) := by
  rw [← String.ofList_toList (s := css stream), toList_css, Event.ofList_streamChars_false,
    Event.ofList_streamChars_true, Event.alternatives]

/-- Commas part the alternatives, and nothing else.

Take any stream, well formed or not, without a comma in its names, labels, values and
operands.  Its text, split at `, `, is one piece for each alternative: the texts of the
events from one boundary to the next, in the first piece also those before the first
boundary.  There are as many pieces as boundaries, and one if there is no boundary. -/
theorem commas_part_alternatives (stream : List Event)
    (noComma : ∀ e ∈ stream, ∀ text ∈ e.texts, ',' ∉ text.toList) :
    ((css stream).split ", ").toList.map String.Slice.copy =
        (Event.alternatives stream).map Event.joinedCss ∧
      (Event.alternatives stream).length = max 1 (stream.count .selector) := by
  refine ⟨?_, Event.length_alternatives stream⟩
  have hPieces : ∀ text ∈ (Event.alternatives stream).map Event.joinedCss, ',' ∉ text.toList := by
    intro text hText
    obtain ⟨row, hRow, rfl⟩ := List.mem_map.mp hText
    exact Event.comma_not_mem_joinedCss fun e he =>
      noComma e (Event.mem_of_mem_alternatives hRow he)
  have hSome : (Event.alternatives stream).map Event.joinedCss ≠ [] := by
    simp [Event.alternatives, List.splitOn_ne_nil]
  obtain ⟨piece, pieces, hCons⟩ := List.exists_cons_of_ne_nil hSome
  have hSeparator : ", ".toList = ',' :: [' '] := rfl
  rw [css_eq_intercalate]
  rw [hCons] at hPieces ⊢
  exact toList_split_intercalate_cons hSeparator hPieces

/-- A stray wildcard before the first boundary, an `init` inside an alternative, an
alternative without events, and one that begins with a blank. -/
theorem commas_part_three_alternatives :
    let stream : List Event :=
      [.head .universal, .selector, .init, .filter (.identifier "a"), .selector, .selector,
        .combinator .descendant, .filter (.styleClass "b")]
    (∀ e ∈ stream, ∀ text ∈ e.texts, ',' ∉ text.toList) ∧ css stream = "*#a, ,  .b" ∧
      ((css stream).split ", ").toList.map String.Slice.copy = ["*#a", "", " .b"] := by
  intro stream
  have noComma : ∀ e ∈ stream, ∀ text ∈ e.texts, ',' ∉ text.toList := by decide
  exact ⟨noComma, by decide, (commas_part_alternatives stream noComma).1.trans (by decide)⟩

end SelectorStream
