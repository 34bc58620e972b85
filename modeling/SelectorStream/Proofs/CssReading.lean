/-
# `SelectorStream.Proofs.CssReading` — reading one event off a text

`Event.read?` takes the event that a text begins with, and leaves the rest.  It
has no state: a comma and a blank are a boundary between alternatives, any other
blank is a combinator, a mark tells what sort of filter follows, and the rest
are heads.  Names run as far as their characters go, a bar belongs to the name
if another name follows it, operands end at the first quote that is not
escaped, and `an+b` ends at `)`.

That is enough to read back what was written, if the names are plain and what
comes next cannot be taken for more of the same event:

    Event.read?_spelling    e is plain, e.Parts rest  →
                              read? (e.spelling ++ rest) = some (e, rest)

A descendant combinator is parted from what does not begin as the other
combinators go on, a component from what does not go on as a name.
-/
import Mathlib.Data.List.Chain
import SelectorStream.Event.Css
import SelectorStream.Proofs.NthNotation

namespace SelectorStream

/-! ## Names -/

/-- ASCII letters and digits, `-` and `_`. -/
def isNameChar (c : Char) : Bool :=
  c.isAlphanum || c == '-' || c == '_'

/-- A name that stands for itself: some characters of names, and no others. -/
structure PlainName (name : String) : Prop where
  ne_empty : name ≠ ""
  chars : ∀ c ∈ name.toList, isNameChar c = true

def Namespace.Plain : Namespace → Prop
  | .declared label => PlainName label
  | .implied | .empty | .any => True

structure QualifiedName.Plain (q : QualifiedName) : Prop where
  ns : q.ns.Plain
  name : PlainName q.name

instance : DecidablePred PlainName := fun name =>
  decidable_of_iff (name ≠ "" ∧ name.toList.all isNameChar = true)
    ⟨fun ⟨h, hChars⟩ => ⟨h, List.all_eq_true.mp hChars⟩,
      fun ⟨h, hChars⟩ => ⟨h, List.all_eq_true.mpr hChars⟩⟩

instance : DecidablePred Namespace.Plain
  | .declared label => inferInstanceAs (Decidable (PlainName label))
  | .implied | .empty | .any => .isTrue trivial

instance : DecidablePred QualifiedName.Plain := fun q =>
  decidable_of_iff (q.ns.Plain ∧ PlainName q.name)
    ⟨fun ⟨hNs, hName⟩ => ⟨hNs, hName⟩, fun ⟨hNs, hName⟩ => ⟨hNs, hName⟩⟩

/-- All names of an event are plain; operands and coefficients are free. -/
def Event.Plain : Event → Prop
  | .head (.element name) | .filter (.attribute name _) => name.Plain
  | .filter (.identifier value) | .filter (.styleClass value) => PlainName value
  | .init | .close | .selector | .head .universal | .filter (.structural _)
  | .filter (.nthChild _) | .combinator _ => True

instance : DecidablePred Event.Plain
  | .head (.element name) | .filter (.attribute name _) =>
    inferInstanceAs (Decidable name.Plain)
  | .filter (.identifier value) | .filter (.styleClass value) =>
    inferInstanceAs (Decidable (PlainName value))
  | .init | .close | .selector | .head .universal | .filter (.structural _)
  | .filter (.nthChild _) | .combinator _ => .isTrue trivial

def readName (text : List Char) : String × List Char :=
  (String.ofList (text.takeWhile isNameChar), text.dropWhile isNameChar)

def readBarred? : List Char → Option (String × List Char)
  | '|' :: rest => if (readName rest).1 = "" then none else some (readName rest)
  | _ => none

/-- A name that begins with a name character: what stands before a bar is the
label of a namespace only if a name follows the bar. -/
def readLabeled (text : List Char) : QualifiedName × List Char :=
  match readBarred? (readName text).2 with
  | some (name, rest) => (⟨.declared (readName text).1, name⟩, rest)
  | none => (⟨.implied, (readName text).1⟩, (readName text).2)

def readQualified : List Char → QualifiedName × List Char
  | '|' :: rest => (⟨.empty, (readName rest).1⟩, (readName rest).2)
  | '*' :: '|' :: rest => (⟨.any, (readName rest).1⟩, (readName rest).2)
  | text => readLabeled text

section Names

variable {name : String} {rest : List Char}

theorem readName_append (plain : PlainName name)
    (hRest : ∀ c ∈ rest.head?, isNameChar c = false) :
    readName (name.toList ++ rest) = (name, rest) := by
  obtain ⟨hRun, hStop⟩ := longest_run plain.chars hRest
  rw [readName, hRun, hStop, String.ofList_toList]

theorem readBarred?_append (plain : PlainName name)
    (hRest : ∀ c ∈ rest.head?, isNameChar c = false) :
    readBarred? ('|' :: (name.toList ++ rest)) = some (name, rest) := by
  rw [readBarred?, readName_append plain hRest, if_neg plain.ne_empty]

theorem PlainName.exists_toList_eq_cons (plain : PlainName name) :
    ∃ c text, name.toList = c :: text ∧ isNameChar c = true := by
  cases hName : name.toList with
  | nil => exact absurd (String.toList_eq_nil_iff.mp hName) plain.ne_empty
  | cons c text => exact ⟨c, text, rfl, plain.chars c (hName ▸ List.mem_cons_self)⟩

theorem readQualified_of_plain (plain : PlainName name) (rest : List Char) :
    readQualified (name.toList ++ rest) = readLabeled (name.toList ++ rest) := by
  obtain ⟨c, text, hName, hChar⟩ := plain.exists_toList_eq_cons
  rw [hName, List.cons_append, readQualified]
  · rintro _ h
    obtain rfl := (List.cons.inj h).1
    cases hChar
  · rintro _ h
    obtain rfl := (List.cons.inj h).1
    cases hChar

theorem toList_text {ns : Namespace} {label : String} (h : ns.label? = some label)
    (name : String) :
    (QualifiedName.text ⟨ns, name⟩).toList = label.toList ++ '|' :: name.toList :=
  Namespace.toList_qualify h name

theorem QualifiedName.exists_text_eq_cons {q : QualifiedName} (plain : q.Plain) :
    ∃ c text, q.text.toList = c :: text ∧
      ((isNameChar c = true ∨ c = '|') ∨ (c = '*' ∧ ∃ more, text = '|' :: more)) := by
  obtain ⟨ns, name⟩ := q
  obtain ⟨hNs, hName⟩ := plain
  cases ns with
  | implied =>
      obtain ⟨c, text, hText, hChar⟩ := hName.exists_toList_eq_cons
      exact ⟨c, text, hText, .inl (.inl hChar)⟩
  | empty =>
      have hText := toList_text (show Namespace.empty.label? = some "" from rfl) name
      exact ⟨'|', name.toList, hText, .inl (.inr rfl)⟩
  | any =>
      have hText := toList_text (show Namespace.any.label? = some "*" from rfl) name
      exact ⟨'*', '|' :: name.toList, hText, .inr ⟨rfl, _, rfl⟩⟩
  | declared label =>
      obtain ⟨c, text, hLabel, hChar⟩ := hNs.exists_toList_eq_cons
      refine ⟨c, text ++ '|' :: name.toList, ?_, .inl (.inl hChar)⟩
      rw [toList_text rfl, hLabel, List.cons_append]

/-- A qualified name is read back if what follows cannot be taken for more of
it. -/
theorem readQualified_text {q : QualifiedName} (plain : q.Plain)
    (hRest : ∀ c ∈ rest.head?, isNameChar c = false) (hBar : readBarred? rest = none) :
    readQualified (q.text.toList ++ rest) = (q, rest) := by
  obtain ⟨ns, name⟩ := q
  obtain ⟨hNs, hName⟩ := plain
  have hRead := readName_append hName hRest
  cases ns with
  | implied =>
      show readQualified (name.toList ++ rest) = _
      rw [readQualified_of_plain hName, readLabeled, hRead, hBar]
  | empty =>
      rw [toList_text rfl]
      show readQualified ('|' :: (name.toList ++ rest)) = _
      rw [readQualified, hRead]
  | any =>
      rw [toList_text rfl]
      show readQualified ('*' :: '|' :: (name.toList ++ rest)) = _
      rw [readQualified, hRead]
  | declared label =>
      have hLabel : readName (label.toList ++ '|' :: (name.toList ++ rest)) =
          (label, '|' :: (name.toList ++ rest)) :=
        readName_append hNs (forall_mem_head?_cons.mpr rfl)
      rw [toList_text rfl, List.append_assoc, List.cons_append, readQualified_of_plain hNs,
        readLabeled, hLabel, readBarred?_append hName hRest]

end Names

/-! ## Attribute tests -/

def readOperand? (comparison : Comparison) : List Char → Option (AttributeTest × List Char)
  | '"' :: text =>
    match Quoted.scan text with
    | some (operand, ']' :: rest) => some (.compares comparison (String.ofList operand), rest)
    | _ => none
  | _ => none

/-- What stands between the name of an attribute and the end of its brackets. -/
def readTest? : List Char → Option (AttributeTest × List Char)
  | ']' :: rest => some (.present, rest)
  | '=' :: rest => readOperand? .exact rest
  | '~' :: '=' :: rest => readOperand? .includes rest
  | '|' :: '=' :: rest => readOperand? .dashMatch rest
  | '^' :: '=' :: rest => readOperand? .prefixMatch rest
  | '$' :: '=' :: rest => readOperand? .suffixMatch rest
  | '*' :: '=' :: rest => readOperand? .substring rest
  | _ => none

theorem readOperand?_quote (comparison : Comparison) (operand : String) (rest : List Char) :
    readOperand? comparison (Quoted.quote operand.toList ++ ']' :: rest) =
      some (.compares comparison operand, rest) := by
  simp only [Quoted.quote, List.cons_append, List.append_assoc, List.nil_append, readOperand?,
    Quoted.scan_escape, String.ofList_toList]

theorem readTest?_cssChars (test : AttributeTest) (rest : List Char) :
    readTest? (test.cssChars ++ ']' :: rest) = some (test, rest) := by
  cases test with
  | present => rfl
  | compares comparison operand =>
      have hOperand := readOperand?_quote comparison operand rest
      rw [AttributeTest.cssChars, List.append_assoc]
      cases comparison <;> exact hOperand

theorem readBarred?_test (test : AttributeTest) (rest : List Char) :
    (∀ c ∈ (test.cssChars ++ ']' :: rest).head?, isNameChar c = false) ∧
      readBarred? (test.cssChars ++ ']' :: rest) = none := by
  cases test with
  | present => exact ⟨forall_mem_head?_cons.mpr rfl, rfl⟩
  | compares comparison operand =>
      cases comparison <;> exact ⟨forall_mem_head?_cons.mpr rfl, rfl⟩

/-! ## Predicates -/

def readNth? (text : List Char) : Option (Nth × List Char) :=
  (Nth.denotation? (text.takeWhile (· ≠ ')'))).map fun (a, b) =>
    (⟨.ofInt a, .ofInt b⟩, (text.dropWhile (· ≠ ')')).tail)

def readStructural? (text : List Char) : Option (Structural × List Char) :=
  [Structural.firstChild, .lastChild, .onlyChild, .empty].findSome? fun predicate =>
    (predicate.cssChars.isPrefixOf? text).map (predicate, ·)

def readPredicate? (text : List Char) : Option (Filter × List Char) :=
  match readStructural? text with
  | some (predicate, rest) => some (.structural predicate, rest)
  | none =>
    (":nth-child(".toList.isPrefixOf? text).bind fun text =>
      (readNth? text).map fun (x, rest) => (.nthChild x, rest)

theorem readNth?_chars (x : Nth) (rest : List Char) :
    readNth? (x.chars ++ ')' :: rest) = some (x, rest) := by
  have hRun : ∀ c ∈ x.chars, decide (c ≠ ')') = true := by
    intro c hc
    refine decide_eq_true fun h => ?_
    subst h
    rcases Nth.isNotation_of_mem_chars hc with h | h
    · cases h
    · revert h
      decide
  have hStop : ∀ c ∈ (')' :: rest).head?, decide (c ≠ ')') = false :=
    forall_mem_head?_cons.mpr rfl
  obtain ⟨hChars, hRest⟩ := longest_run hRun hStop
  simp only [readNth?, hChars, hRest, Nth.denotation?_chars, Option.map_some, List.tail_cons,
    Int32.ofInt_toInt]

theorem readPredicate?_structural (predicate : Structural) (rest : List Char) :
    readPredicate? (predicate.cssChars ++ rest) = some (.structural predicate, rest) := by
  have hStructural : readStructural? (predicate.cssChars ++ rest) = some (predicate, rest) := by
    cases predicate <;> rfl
  rw [readPredicate?, hStructural]

theorem readPredicate?_nthChild (x : Nth) (rest : List Char) :
    readPredicate? (":nth-child(".toList ++ (x.chars ++ ')' :: rest)) =
      some (.nthChild x, rest) := by
  have hOther (text : List Char) : readStructural? (":nth-child(".toList ++ text) = none := rfl
  have hName (text : List Char) :
      ":nth-child(".toList.isPrefixOf? (":nth-child(".toList ++ text) = some text := rfl
  rw [readPredicate?, hOther, hName, Option.bind_some, readNth?_chars]
  rfl

/-! ## Events -/

def readCombinator : List Char → Combinator × List Char
  | '>' :: ' ' :: rest => (.child, rest)
  | '+' :: ' ' :: rest => (.adjacent, rest)
  | '~' :: ' ' :: rest => (.generalSibling, rest)
  | rest => (.descendant, rest)

namespace Event

def read? : List Char → Option (Event × List Char)
  | [] => none
  | ',' :: ' ' :: rest => some (.selector, rest)
  | ' ' :: text =>
    let (joint, rest) := readCombinator text
    some (.combinator joint, rest)
  | '#' :: text =>
    let (value, rest) := readName text
    some (.filter (.identifier value), rest)
  | '.' :: text =>
    let (value, rest) := readName text
    some (.filter (.styleClass value), rest)
  | '[' :: text =>
    let (name, rest) := readQualified text
    (readTest? rest).map fun (test, rest) => (.filter (.attribute name test), rest)
  | ':' :: text => (readPredicate? (':' :: text)).map fun (f, rest) => (.filter f, rest)
  | '*' :: '|' :: text =>
    let (name, rest) := readQualified ('*' :: '|' :: text)
    some (.head (.element name), rest)
  | '*' :: rest => some (.head .universal, rest)
  | text =>
    let (name, rest) := readQualified text
    some (.head (.element name), rest)

/-- The text of an event inside a list that has begun. -/
def spelling : Event → List Char
  | .selector => [',', ' ']
  | e => e.cssChars

/-- What follows the text of an event is no continuation of it. -/
structure Parts (e : Event) (rest : List Char) : Prop where
  joint : ∀ c ∈ rest.head?, c ∉ ['>', '+', '~']
  component : e.kind.isComponent = true → ∀ c ∈ rest.head?, isNameChar c = false ∧ c ≠ '|'

section Read

variable {rest : List Char}

theorem readBarred?_eq_none (h : ∀ c ∈ rest.head?, c ≠ '|') : readBarred? rest = none := by
  cases rest with
  | nil => rfl
  | cons c rest =>
      rw [readBarred?]
      rintro _ hBar
      exact h c rfl (List.cons.inj hBar).1

theorem read?_combinator (joint : Combinator) (h : ∀ c ∈ rest.head?, c ∉ ['>', '+', '~']) :
    read? (joint.cssChars ++ rest) = some (.combinator joint, rest) := by
  cases joint with
  | child | adjacent | generalSibling => rfl
  | descendant =>
      have hDescendant : readCombinator rest = (.descendant, rest) := by
        rw [readCombinator]
        all_goals
          rintro _ rfl
          exact absurd (by decide) (h _ rfl)
      show read? (' ' :: rest) = _
      rw [read?, hDescendant]

theorem read?_of_name {c : Char} {text : List Char} (h : isNameChar c = true ∨ c = '|') :
    read? (c :: text) =
      some (.head (.element (readQualified (c :: text)).1), (readQualified (c :: text)).2) := by
  rw [read?]
  case x_1 => exact List.cons_ne_nil c text
  all_goals
    rintro _ h'
    obtain rfl := (List.cons.inj h').1
    revert h
    decide

theorem read?_element {name : QualifiedName} (plain : name.Plain)
    (h : ∀ c ∈ rest.head?, isNameChar c = false ∧ c ≠ '|') :
    read? (name.text.toList ++ rest) = some (.head (.element name), rest) := by
  have hRead := readQualified_text plain (fun c hc => (h c hc).1)
    (readBarred?_eq_none fun c hc => (h c hc).2)
  obtain ⟨c, text, hText, hFirst⟩ := name.exists_text_eq_cons plain
  rw [hText, List.cons_append] at hRead ⊢
  rcases hFirst with hFirst | ⟨rfl, more, rfl⟩
  · rw [read?_of_name hFirst, hRead]
  · rw [List.cons_append] at hRead ⊢
    rw [read?, hRead]

theorem read?_universal (h : ∀ c ∈ rest.head?, c ≠ '|') :
    read? ('*' :: rest) = some (.head .universal, rest) := by
  rw [read?]
  rintro text rfl
  exact h '|' rfl rfl

theorem read?_predicate {f : Filter} {text : List Char} (hColon : text.head? = some ':')
    (h : readPredicate? text = some (f, rest)) : read? text = some (.filter f, rest) := by
  cases text with
  | nil => cases hColon
  | cons c text =>
      obtain rfl := Option.some.inj hColon
      rw [read?, h]
      rfl

theorem read?_filter {f : Filter} (plain : Plain (.filter f))
    (h : ∀ c ∈ rest.head?, isNameChar c = false) :
    read? (f.cssChars ++ rest) = some (.filter f, rest) := by
  match f with
  | .identifier value =>
      show read? ('#' :: (value.toList ++ rest)) = _
      rw [read?, readName_append plain h]
  | .styleClass value =>
      show read? ('.' :: (value.toList ++ rest)) = _
      rw [read?, readName_append plain h]
  | .attribute name test =>
      obtain ⟨hFirst, hBar⟩ := readBarred?_test test rest
      show read? ('[' :: (name.text.toList ++ test.cssChars ++ [']'] ++ rest)) = _
      rw [List.append_assoc, List.append_assoc, List.singleton_append, read?,
        readQualified_text plain hFirst hBar]
      simp only [readTest?_cssChars, Option.map_some]
  | .structural predicate =>
      exact read?_predicate (by cases predicate <;> rfl) (readPredicate?_structural predicate rest)
  | .nthChild x =>
      have hText : Filter.cssChars (.nthChild x) ++ rest =
          ":nth-child(".toList ++ (x.chars ++ ')' :: rest) := by
        show (":nth-child(".toList ++ x.chars ++ [')']) ++ rest = _
        rw [List.append_assoc, List.append_assoc, List.singleton_append]
      rw [hText]
      exact read?_predicate rfl (readPredicate?_nthChild x rest)

/-- An event inside the bracket is read back, whatever is parted from it. -/
theorem read?_spelling {e : Event} (plain : e.Plain) (hInit : e ≠ .init) (hClose : e ≠ .close)
    (parts : e.Parts rest) : read? (e.spelling ++ rest) = some (e, rest) := by
  match e with
  | .init => exact absurd rfl hInit
  | .close => exact absurd rfl hClose
  | .selector => rfl
  | .head (.element name) => exact read?_element plain (parts.component rfl)
  | .head .universal => exact read?_universal fun c hc => (parts.component rfl c hc).2
  | .filter f => exact read?_filter plain fun c hc => (parts.component rfl c hc).1
  | .combinator joint => exact read?_combinator joint parts.joint

end Read

end Event

end SelectorStream
