/-
# `SelectorStream.Proofs.JsonReading` — reading JSON undoes writing it

The compact text of a value is read back as that value, whatever follows the
text and however the value is nested: `Json.read?_text`.  Two restrictions are
needed, and each names what it leaves out.

`Json.Exact` leaves out numbers that are not integers.  They are kept as they
were written, and nothing says that this was a numeral.

`Json.Reader.EndsNumeral` is about what follows.  An integer has no mark at its
end, so the next character must not be one that would make the numeral longer.
In the text of a value the next character is a comma or a closing mark.

The reader counts down a depth.  Each nested call has a shorter text to read, so
a depth above the length of the text is always enough; no other measure of
values is called for.
-/
import SelectorStream.Proofs.NthNotation
import SelectorStream.Text.Json.Reader

namespace SelectorStream.Json

/-! ## Values with exact numbers -/

mutual

def Exact : Json → Prop
  | .real _ => False
  | .arr items => ExactItems items
  | .obj fields => ExactFields fields
  | .null | .bool _ | .int _ | .str _ => True

def ExactItems : List Json → Prop
  | [] => True
  | item :: rest => Exact item ∧ ExactItems rest

def ExactFields : List (String × Json) → Prop
  | [] => True
  | (_, value) :: rest => Exact value ∧ ExactFields rest

end

namespace Reader

/-! ## Strings -/

theorem string?_short {letter c : Char} (hLetter : letter ≠ 'u') (h : unescape? letter = some c)
    (rest : List Char) :
    string? ('\\' :: letter :: rest) =
      (string? rest).map fun (text, after) => (c :: text, after) := by
  rw [string?, h]
  intro _ _ _ _ _ hu
  exact absurd hu hLetter

theorem unescape?_of_mem_shortEscapes :
    ∀ pair ∈ shortEscapes, pair.2 ≠ 'u' ∧ unescape? pair.2 = some pair.1 := by
  decide

theorem codeUnit?_control :
    ∀ n < 0x20, codeUnit? '0' '0' (Nat.digitChar (n / 16)) (Nat.digitChar (n % 16)) = some n := by
  decide

theorem not_surrogate_control :
    ∀ n < 0x20, isHighSurrogate n = false ∧ isLowSurrogate n = false := by
  decide

theorem string?_control {c : Char} (h : c.toNat < 0x20) (rest : List Char) :
    string? ('\\' :: 'u' :: '0' :: '0' :: Nat.digitChar (c.toNat / 16) ::
        Nat.digitChar (c.toNat % 16) :: rest) =
      (string? rest).map fun (text, after) => (c :: text, after) := by
  obtain ⟨notHigh, notLow⟩ := not_surrogate_control c.toNat h
  rw [string?, codeUnit?_control c.toNat h]
  simp only [notHigh, notLow, Bool.false_eq_true, if_false, Char.ofNat_toNat]

theorem string?_plain {c : Char} (hQuote : c ≠ '"') (hBackslash : c ≠ '\\')
    (hControl : ¬ c.toNat < 0x20) (rest : List Char) :
    string? (c :: rest) = (string? rest).map fun (text, after) => (c :: text, after) := by
  rw [string?, if_neg (not_or.mpr ⟨hControl, hBackslash⟩)]
  · exact hQuote
  · intro _ _ _ _ _ hc
    exact absurd hc hBackslash
  · intro _ _ hc
    exact absurd hc hBackslash

theorem string?_escapeChar (c : Char) (rest : List Char) :
    string? (escapeChar c ++ rest) =
      (string? rest).map fun (text, after) => (c :: text, after) := by
  cases hLookup : shortEscapes.lookup c with
  | some letter =>
      obtain ⟨before, after, hSplit, _⟩ := List.lookup_eq_some_iff.mp hLookup
      have hMem : (c, letter) ∈ shortEscapes := by
        rw [hSplit]
        exact List.mem_append_right before List.mem_cons_self
      obtain ⟨hLetter, hUnescape⟩ := unescape?_of_mem_shortEscapes (c, letter) hMem
      simp only [escapeChar, hLookup]
      exact string?_short hLetter hUnescape rest
  | none =>
      simp only [escapeChar, hLookup]
      split
      · rename_i hControl
        exact string?_control hControl rest
      · rename_i hControl
        refine string?_plain ?_ ?_ hControl rest
        · rintro rfl
          cases hLookup
        · rintro rfl
          cases hLookup

/-- A literal is read up to its closing quote. -/
theorem string?_flatMap_escapeChar (rest : List Char) : ∀ text : List Char,
    string? (text.flatMap escapeChar ++ '"' :: rest) = some (text, rest) := by
  intro text
  induction text with
  | nil => rfl
  | cons c text ih =>
      rw [List.flatMap_cons, List.append_assoc, string?_escapeChar, ih]
      rfl

/-! ## Numbers -/

/-- What may follow an integer: nothing that would make the numeral longer. -/
def EndsNumeral (rest : List Char) : Prop :=
  ∀ c ∈ rest.head?, c.isDigit = false ∧ c ≠ '.' ∧ c ≠ 'e' ∧ c ≠ 'E'

theorem digits_natural {rest : List Char} (hRest : EndsNumeral rest) (n : Nat) :
    digits (Decimal.natural n ++ rest) = (Decimal.natural n, rest) := by
  have hDigits : ∀ c ∈ Decimal.natural n, c.isDigit = true := fun _ =>
    Decimal.isDigit_of_mem_natural
  obtain ⟨hRun, hAfter⟩ := longest_run hDigits fun c hc => (hRest c hc).1
  rw [digits, hRun, hAfter]

theorem fraction?_of_endsNumeral {rest : List Char} (hRest : EndsNumeral rest) :
    fraction? rest = some ([], rest) := by
  cases rest with
  | nil => rfl
  | cons c rest =>
      have hPoint : c ≠ '.' := (hRest c rfl).2.1
      rw [fraction?]
      intro _ h
      exact absurd (List.cons.inj h).1 hPoint

theorem exponent?_of_endsNumeral {rest : List Char} (hRest : EndsNumeral rest) :
    exponent? rest = some ([], rest) := by
  cases rest with
  | nil => rfl
  | cons c rest =>
      obtain ⟨_, _, hLower, hUpper⟩ := hRest c rfl
      exact if_neg (not_or.mpr ⟨hLower, hUpper⟩)

theorem unsigned?_natural {negative : Bool} {n : Nat} (hSign : ¬ (negative = true ∧ n = 0))
    {rest : List Char} (hRest : EndsNumeral rest) :
    unsigned? negative (Decimal.natural n ++ rest) =
      some (.int (if negative then -(n : Int) else n), rest) := by
  have hShort : ¬ (Decimal.natural n = [] ∨
      ((Decimal.natural n).head? = some '0' ∧ Decimal.natural n ≠ ['0'])) := by
    rintro (hNil | ⟨hZero, hLonger⟩)
    · exact Decimal.natural_ne_nil n hNil
    · obtain rfl := Decimal.eq_zero_of_head?_natural n hZero
      exact hLonger rfl
  simp only [unsigned?, digits_natural hRest, if_neg hShort, fraction?_of_endsNumeral hRest,
    exponent?_of_endsNumeral hRest, Decimal.value_natural, Option.bind_eq_bind, Option.bind_some]
  exact if_pos ⟨trivial, trivial, hSign⟩

theorem exists_natural_eq_cons (n : Nat) :
    ∃ d text, Decimal.natural n = d :: text ∧ d.isDigit = true := by
  obtain ⟨d, text, hNatural⟩ := List.exists_cons_of_ne_nil (Decimal.natural_ne_nil n)
  exact ⟨d, text, hNatural, Decimal.isDigit_of_mem_natural (hNatural ▸ List.mem_cons_self)⟩

theorem number?_integer (i : Int) {rest : List Char} (hRest : EndsNumeral rest) :
    number? (Decimal.integer i ++ rest) = some (.int i, rest) := by
  cases i with
  | ofNat n =>
      have hNumeral : unsigned? false (Decimal.natural n ++ rest) = some (.int n, rest) :=
        unsigned?_natural (by simp) hRest
      obtain ⟨d, text, hNatural, hDigit⟩ := exists_natural_eq_cons n
      rw [Decimal.integer, hNatural, List.cons_append, number?, ← List.cons_append, ← hNatural,
        hNumeral]
      · rfl
      · intro _ hMinus
        rw [(List.cons.inj hMinus).1] at hDigit
        cases hDigit
  | negSucc n =>
      show unsigned? true (Decimal.natural (n + 1) ++ rest) = _
      rw [unsigned?_natural (by simp) hRest]
      rfl

/-! ## Values

The text of a value begins with a character that tells what sort of value it
is, and is no blank. -/

theorem skipBlanks_cons {c : Char} (h : isBlank c = false) (rest : List Char) :
    skipBlanks (c :: rest) = c :: rest := by
  rw [skipBlanks, List.dropWhile_cons_of_neg (by simp [h])]

theorem isBlank_of_numeral {c : Char} (h : c = '-' ∨ c.isDigit = true) :
    isBlank c = false ∧ c ≠ ']' := by
  rcases h with rfl | h
  · exact ⟨rfl, by decide⟩
  · simp only [isBlank, Bool.or_eq_false_iff, decide_eq_false_iff_not]
    refine ⟨⟨⟨⟨?_, ?_⟩, ?_⟩, ?_⟩, ?_⟩ <;> (rintro rfl; cases h)

theorem value?_numeral (depth : Nat) {c : Char} (h : c = '-' ∨ c.isDigit = true)
    (rest : List Char) : value? (depth + 1) (c :: rest) = number? (c :: rest) := by
  rw [value?, skipBlanks_cons (isBlank_of_numeral h).1]
  split
  case h_7 => rfl
  all_goals
    rename_i hStart
    rw [(List.cons.inj hStart).1] at h
    exact absurd h (by decide)

theorem exists_integer_eq_cons (i : Int) :
    ∃ c text, Decimal.integer i = c :: text ∧ (c = '-' ∨ c.isDigit = true) := by
  cases i with
  | ofNat n =>
      obtain ⟨d, text, hNatural, hDigit⟩ := exists_natural_eq_cons n
      exact ⟨d, text, hNatural, .inr hDigit⟩
  | negSucc n => exact ⟨'-', _, rfl, .inl rfl⟩

/-- A value does not begin with a blank, and not as an array ends. -/
theorem exists_write_eq_cons : ∀ v : Json, v.Exact →
    ∃ c text, v.write = c :: text ∧ isBlank c = false ∧ c ≠ ']'
  | .null, _ => ⟨'n', _, rfl, rfl, by decide⟩
  | .bool true, _ => ⟨'t', _, rfl, rfl, by decide⟩
  | .bool false, _ => ⟨'f', _, rfl, rfl, by decide⟩
  | .int i, _ => by
      obtain ⟨c, text, hInteger, hStart⟩ := exists_integer_eq_cons i
      exact ⟨c, text, hInteger, isBlank_of_numeral hStart⟩
  | .real _, hExact => hExact.elim
  | .str _, _ => ⟨'"', _, rfl, rfl, by decide⟩
  | .arr [], _ => ⟨'[', _, rfl, rfl, by decide⟩
  | .arr (_ :: _), _ => ⟨'[', _, rfl, rfl, by decide⟩
  | .obj [], _ => ⟨'\x7b', _, rfl, rfl, by decide⟩
  | .obj (_ :: _), _ => ⟨'\x7b', _, rfl, rfl, by decide⟩

theorem endsNumeral_writeItems (items : List Json) (rest : List Char) :
    EndsNumeral (writeItems items ++ rest) := by
  cases items with
  | nil => exact forall_mem_head?_cons.mpr (by decide)
  | cons item items => exact forall_mem_head?_cons.mpr (by decide)

theorem endsNumeral_writeFields (fields : List (String × Json)) (rest : List Char) :
    EndsNumeral (writeFields fields ++ rest) := by
  cases fields with
  | nil => exact forall_mem_head?_cons.mpr (by decide)
  | cons field fields => exact forall_mem_head?_cons.mpr (by decide)

theorem string?_writeString (key : String) (rest : List Char) :
    ∃ literal, writeString key ++ rest = '"' :: literal ∧
      string? literal = some (key.toList, rest) := by
  refine ⟨key.toList.flatMap escapeChar ++ '"' :: rest, ?_, string?_flatMap_escapeChar rest _⟩
  simp [writeString]

theorem member?_of_value? (key : String) {depth : Nat} {v : Json} {rest : List Char}
    (h : value? depth (v.write ++ rest) = some (v, rest)) :
    member? (depth + 1) (writeString key ++ ':' :: (v.write ++ rest)) = some ((key, v), rest) := by
  obtain ⟨literal, hLiteral, hKey⟩ := string?_writeString key (':' :: (v.write ++ rest))
  rw [hLiteral, member?, skipBlanks_cons rfl]
  simp only [hKey]
  rw [skipBlanks_cons rfl]
  simp only [h, Option.map_some, String.ofList_toList]

theorem value?_bracket {c : Char} (hBlank : isBlank c = false) (hOpen : c ≠ ']') (depth : Nat)
    (text : List Char) :
    value? (depth + 1) ('[' :: c :: text) =
      match value? depth (c :: text) with
      | none => none
      | some (item, rest) =>
        (items? depth rest).map fun (items, rest) => (.arr (item :: items), rest) := by
  rw [value?, skipBlanks_cons rfl]
  simp only [skipBlanks_cons hBlank]
  split
  · rename_i hClose
    exact absurd (List.cons.inj hClose).1 hOpen
  · rfl

theorem value?_brace (depth : Nat) (key : String) (rest : List Char) :
    value? (depth + 1) ('\x7b' :: (writeString key ++ rest)) =
      match member? depth (writeString key ++ rest) with
      | none => none
      | some (field, rest) =>
        (members? depth rest).map fun (fields, rest) => (.obj (field :: fields), rest) := by
  obtain ⟨literal, hLiteral, _⟩ := string?_writeString key rest
  rw [hLiteral]
  rfl

mutual

/-- The text of a value is read as the value, whatever follows it. -/
theorem value?_write : ∀ (v : Json) (depth : Nat) (rest : List Char), v.Exact →
    v.write.length < depth → EndsNumeral rest → value? depth (v.write ++ rest) = some (v, rest)
  | _, 0, _, _, hDepth, _ => absurd hDepth (Nat.not_lt_zero _)
  | .null, _ + 1, _, _, _, _ => rfl
  | .bool true, _ + 1, _, _, _, _ => rfl
  | .bool false, _ + 1, _, _, _, _ => rfl
  | .real _, _ + 1, _, hExact, _, _ => hExact.elim
  | .int i, depth + 1, rest, _, _, hRest => by
      obtain ⟨c, text, hInteger, hStart⟩ := exists_integer_eq_cons i
      rw [write, hInteger, List.cons_append, value?_numeral depth hStart, ← List.cons_append,
        ← hInteger]
      exact number?_integer i hRest
  | .str s, depth + 1, rest, _, _, _ => by
      obtain ⟨literal, hLiteral, hText⟩ := string?_writeString s rest
      rw [write, hLiteral, value?, skipBlanks_cons rfl]
      simp only [hText, String.ofList_toList]
  | .arr [], _ + 1, _, _, _, _ => rfl
  | .arr (item :: items), depth + 1, rest, hExact, hDepth, _ => by
      simp only [write, List.length_cons, List.length_append] at hDepth
      have hItem := value?_write item depth (writeItems items ++ rest) hExact.1 (by omega)
        (endsNumeral_writeItems items rest)
      have hItems := items?_writeItems items depth rest hExact.2 (by omega)
      obtain ⟨c, text, hText, hBlank, hOpen⟩ := exists_write_eq_cons item hExact.1
      rw [hText, List.cons_append] at hItem
      rw [write, List.cons_append, List.append_assoc, hText, List.cons_append,
        value?_bracket hBlank hOpen, hItem]
      simp only [hItems, Option.map_some]
  | .obj [], _ + 1, _, _, _, _ => rfl
  | .obj ((key, value) :: fields), depth + 1, rest, hExact, hDepth, _ => by
      simp only [write, List.length_cons, List.length_append] at hDepth
      obtain ⟨depth, rfl⟩ := Nat.exists_eq_succ_of_ne_zero (n := depth) (by omega)
      have hValue := value?_write value depth (writeFields fields ++ rest) hExact.1 (by omega)
        (endsNumeral_writeFields fields rest)
      have hFields := members?_writeFields fields (depth + 1) rest hExact.2 (by omega)
      have hMember := member?_of_value? key hValue
      rw [write, List.cons_append, List.append_assoc, List.cons_append, List.append_assoc,
        value?_brace, hMember]
      simp only [hFields, Option.map_some]

theorem items?_writeItems : ∀ (items : List Json) (depth : Nat) (rest : List Char),
    ExactItems items → (writeItems items).length < depth →
      items? depth (writeItems items ++ rest) = some (items, rest)
  | _, 0, _, _, hDepth => absurd hDepth (Nat.not_lt_zero _)
  | [], _ + 1, _, _, _ => rfl
  | item :: items, depth + 1, rest, hExact, hDepth => by
      simp only [writeItems, List.length_cons, List.length_append] at hDepth
      have hItem := value?_write item depth (writeItems items ++ rest) hExact.1 (by omega)
        (endsNumeral_writeItems items rest)
      have hItems := items?_writeItems items depth rest hExact.2 (by omega)
      rw [writeItems, List.cons_append, List.append_assoc, items?, skipBlanks_cons rfl]
      simp only [hItem, hItems, Option.map_some]

theorem members?_writeFields : ∀ (fields : List (String × Json)) (depth : Nat) (rest : List Char),
    ExactFields fields → (writeFields fields).length < depth →
      members? depth (writeFields fields ++ rest) = some (fields, rest)
  | _, 0, _, _, hDepth => absurd hDepth (Nat.not_lt_zero _)
  | [], _ + 1, _, _, _ => rfl
  | (key, value) :: fields, depth + 1, rest, hExact, hDepth => by
      simp only [writeFields, List.length_cons, List.length_append] at hDepth
      obtain ⟨depth, rfl⟩ := Nat.exists_eq_succ_of_ne_zero (n := depth) (by omega)
      have hValue := value?_write value depth (writeFields fields ++ rest) hExact.1 (by omega)
        (endsNumeral_writeFields fields rest)
      have hFields := members?_writeFields fields (depth + 1) rest hExact.2 (by omega)
      have hMember := member?_of_value? key hValue
      rw [writeFields, List.cons_append, List.append_assoc, List.cons_append, List.append_assoc,
        members?, skipBlanks_cons rfl]
      simp only [hMember, hFields, Option.map_some]

end

end Reader

/-- Reading undoes writing. -/
theorem read?_text {v : Json} (hExact : v.Exact) : read? v.text = some v := by
  have hValue : Reader.value? (v.write.length + 1) v.write = some (v, []) := by
    have h := Reader.value?_write v _ [] hExact (Nat.lt_succ_self _) fun _ h => by cases h
    rwa [List.append_nil] at h
  simp only [read?, text, String.toList_ofList, hValue]
  rfl

theorem readWithin?_text {v : Json} (hExact : v.Exact) {limit : Nat} (hLevels : v.levels ≤ limit) :
    readWithin? limit v.text = some v := by
  simp only [readWithin?, read?_text hExact, Option.filter_some, hLevels, decide_true, if_true]

end SelectorStream.Json
