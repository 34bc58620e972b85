/-
# `SelectorStream.Proofs.Operands` — attribute operands read back

The operand of an attribute test stands between double quotes, and may itself
hold quotes and backslashes, also at its end.  `Quoted.Spells` is the rule by
which such a text is read, as a relation: a backslash makes the next character
literal, and every other character but a quote stands for itself.
`Quoted.scan` stops at the first quote before which the characters spell
something, and there is no other such quote (`Quoted.scan_eq_some_iff`).

    Event.operand_delimited
        the quote that is written behind an operand ends it, whatever follows
-/
import SelectorStream.Event.Css

namespace SelectorStream

/-! ## Spelling -/

namespace Quoted

/-- `Spells body text`: between two quotes `body` is read as `text`. -/
inductive Spells : List Char → List Char → Prop where
  | nil : Spells [] []
  | literal {c : Char} {body text : List Char} :
    Spells body text → Spells ('\\' :: c :: body) (c :: text)
  | plain {c : Char} {body text : List Char} :
    c ≠ '"' → c ≠ '\\' → Spells body text → Spells (c :: body) (c :: text)

theorem spells_escape (text : List Char) : Spells (escape text) text := by
  induction text with
  | nil => exact .nil
  | cons c rest ih =>
      rw [escape]
      split
      · exact .literal ih
      · rename_i hPlain
        obtain ⟨hQuote, hBackslash⟩ := not_or.mp hPlain
        exact .plain hQuote hBackslash ih

theorem scan_plain {c : Char} (hQuote : c ≠ '"') (hBackslash : c ≠ '\\') (rest : List Char) :
    scan (c :: rest) = (scan rest).map fun (text, after) => (c :: text, after) := by
  rw [scan]
  · exact hQuote
  · rintro rfl
    exact absurd rfl hBackslash
  · rintro _ _ rfl
    exact absurd rfl hBackslash

theorem Spells.scan_append {body text : List Char} (spells : Spells body text)
    (rest : List Char) : scan (body ++ '"' :: rest) = some (text, rest) := by
  induction spells with
  | nil => rfl
  | literal _ ih => rw [List.cons_append, List.cons_append, scan, ih, Option.map_some]
  | plain hQuote hBackslash _ ih =>
      rw [List.cons_append, scan_plain hQuote hBackslash, ih, Option.map_some]

/-- The scan finds a text exactly if the characters up to some quote spell it,
and stops behind that quote. -/
theorem scan_eq_some_iff {chars text rest : List Char} :
    scan chars = some (text, rest) ↔
      ∃ body, Spells body text ∧ chars = body ++ '"' :: rest := by
  constructor
  · intro h
    fun_induction scan chars generalizing text with
    | case1 => cases h
    | case2 after =>
        cases h
        exact ⟨[], .nil, rfl⟩
    | case3 => cases h
    | case4 c after ih =>
        obtain ⟨⟨inner, left⟩, hInner, hText⟩ := Option.map_eq_some_iff.mp h
        cases hText
        obtain ⟨body, hSpells, hAfter⟩ := ih hInner
        exact ⟨'\\' :: c :: body, .literal hSpells, by rw [hAfter]; rfl⟩
    | case5 c after hQuote hLone hLiteral ih =>
        have hBackslash : c ≠ '\\' := by
          intro hc
          cases after with
          | nil => exact hLone hc rfl
          | cons next rest => exact hLiteral next rest hc rfl
        obtain ⟨⟨inner, left⟩, hInner, hText⟩ := Option.map_eq_some_iff.mp h
        cases hText
        obtain ⟨body, hSpells, hAfter⟩ := ih hInner
        exact ⟨c :: body, .plain hQuote hBackslash hSpells, by rw [hAfter]; rfl⟩
  · rintro ⟨body, hSpells, rfl⟩
    exact hSpells.scan_append rest

end Quoted

/-! ## Attribute tests -/

theorem Event.css_compares (name : QualifiedName) (comparison : Comparison) (operand : String) :
    (Event.filter (.attribute name (.compares comparison operand))).css.toList =
      '[' :: (name.text.toList ++ comparison.operator) ++
        '"' :: (Quoted.escape operand.toList ++ ['"', ']']) := by
  have hTest : AttributeTest.cssChars (.compares comparison operand) ++ [']'] =
      comparison.operator ++ '"' :: (Quoted.escape operand.toList ++ ['"', ']']) := by
    rw [AttributeTest.cssChars, Quoted.quote, List.append_assoc, List.cons_append,
      List.append_assoc, List.singleton_append]
  rw [css, String.toList_ofList]
  show '[' :: (name.text.toList ++ AttributeTest.cssChars (.compares comparison operand) ++ [']']) = _
  rw [List.append_assoc, hTest, List.cons_append, List.append_assoc]

/-- The operand of an attribute test ends where it was written to end, and is
read as what it was.

Behind the operator and the opening quote stand the escaped operand, the closing
quote, the bracket, and whatever follows.  Scanning from the opening quote on
gives the operand back and leaves the bracket and what follows.  By the rule of
spelling no other reading exists: if some characters up to some quote spell a
text, they are the escaped operand, the quote is the closing one, and the text
is the operand. -/
theorem Event.operand_delimited (name : QualifiedName) (comparison : Comparison)
    (operand after : String) :
    let written := Quoted.escape operand.toList
    let behind := ']' :: after.toList
    ((Event.filter (.attribute name (.compares comparison operand))).css ++ after).toList =
        '[' :: (name.text.toList ++ comparison.operator) ++
          '"' :: (written ++ '"' :: behind) ∧
      Quoted.scan (written ++ '"' :: behind) = some (operand.toList, behind) ∧
      ∀ body text rest,
        Quoted.Spells body text ∧ body ++ '"' :: rest = written ++ '"' :: behind ↔
          body = written ∧ text = operand.toList ∧ rest = behind := by
  intro written behind
  have hScan : Quoted.scan (written ++ '"' :: behind) = some (operand.toList, behind) :=
    (Quoted.spells_escape operand.toList).scan_append behind
  refine ⟨?_, hScan, fun body text rest => ⟨?_, ?_⟩⟩
  · rw [String.toList_append, css_compares]
    simp only [written, behind, List.append_assoc, List.cons_append, List.nil_append]
  · rintro ⟨hSpells, hSame⟩
    have hRead := Quoted.scan_eq_some_iff.mpr ⟨body, hSpells, hSame.symm⟩
    rw [hScan] at hRead
    cases hRead
    exact ⟨List.append_cancel_right hSame, rfl, rfl⟩
  · rintro ⟨rfl, rfl, rfl⟩
    exact ⟨Quoted.spells_escape operand.toList, rfl⟩

end SelectorStream
