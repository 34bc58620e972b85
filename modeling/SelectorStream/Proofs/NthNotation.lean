/-
# `SelectorStream.Proofs.NthNotation` — reading `an+b`

The notation of a position is either an integer, which is the offset, or a term
in `n` and then an offset with a sign, which may be missing.  The numeral before
`n` may be missing as well, and counts as one.  `Nth.denotation?` reads by these
rules alone, and `Nth.denotation?_chars` says that what is written for two
coefficients denotes them.
-/
import SelectorStream.Nth

namespace SelectorStream

theorem forall_mem_head?_cons {p : Char → Prop} {c : Char} {text : List Char} :
    (∀ d ∈ (c :: text).head?, p d) ↔ p c := by
  simp

/-- A run of characters of one sort ends before the first of another sort. -/
theorem longest_run {p : Char → Bool} {run rest : List Char} (hRun : ∀ c ∈ run, p c = true)
    (hRest : ∀ c ∈ rest.head?, p c = false) :
    (run ++ rest).takeWhile p = run ∧ (run ++ rest).dropWhile p = rest := by
  rw [List.takeWhile_append_of_pos hRun, List.dropWhile_append_of_pos hRun]
  cases rest with
  | nil => simp
  | cons c rest => simp [hRest c rfl]

namespace Nth

/-! ## The reader -/

def readSign : List Char → Int × List Char
  | '+' :: rest => (1, rest)
  | '-' :: rest => (-1, rest)
  | rest => (1, rest)

def readNatural? (text : List Char) : Option Int :=
  if text ≠ [] ∧ text.dropWhile Char.isDigit = [] then some (Decimal.value text) else none

/-- The offset after the term in `n`: its sign must be there. -/
def readOffset? : List Char → Option Int
  | [] => some 0
  | '+' :: rest => readNatural? rest
  | '-' :: rest => (readNatural? rest).map (- ·)
  | _ => none

/-- The coefficients `a` and `b` that a text denotes. -/
def denotation? (text : List Char) : Option (Int × Int) :=
  let (sign, rest) := readSign text
  let digits := rest.takeWhile Char.isDigit
  match rest.dropWhile Char.isDigit with
  | [] => (readNatural? digits).map fun b => (0, sign * b)
  | 'n' :: after =>
    let a := if digits = [] then 1 else (Decimal.value digits : Int)
    (readOffset? after).map fun b => (sign * a, b)
  | _ => none

/-! ## Writing, then reading -/

theorem readSign_natural (n : Nat) (rest : List Char) :
    readSign (Decimal.natural n ++ rest) = (1, Decimal.natural n ++ rest) := by
  cases hNatural : Decimal.natural n with
  | nil => exact absurd hNatural (Decimal.natural_ne_nil n)
  | cons d digits =>
      have hDigit : d.isDigit = true :=
        Decimal.isDigit_of_mem_natural (hNatural ▸ List.mem_cons_self)
      rw [List.cons_append, readSign]
      all_goals
        rintro _ h
        obtain rfl := (List.cons.inj h).1
        cases hDigit

theorem run_natural (n : Nat) :
    (Decimal.natural n).takeWhile Char.isDigit = Decimal.natural n ∧
      (Decimal.natural n).dropWhile Char.isDigit = [] := by
  have hRun : ∀ c ∈ Decimal.natural n, c.isDigit = true := fun _ => Decimal.isDigit_of_mem_natural
  have whole := longest_run hRun fun c (h : c ∈ [].head?) => by cases h
  rwa [List.append_nil] at whole

theorem readNatural?_natural (n : Nat) : readNatural? (Decimal.natural n) = some (n : Int) := by
  rw [readNatural?, if_pos ⟨Decimal.natural_ne_nil n, (run_natural n).2⟩, Decimal.value_natural]

theorem readOffset?_offsetChars (b : Int) : readOffset? (offsetChars b) = some b := by
  match b with
  | .ofNat 0 => rfl
  | .ofNat (n + 1) =>
      have hPos : 0 < Int.ofNat (n + 1) := Int.natCast_succ_pos n
      rw [offsetChars, if_neg (Int.ne_of_gt hPos), if_pos hPos]
      exact readNatural?_natural (n + 1)
  | .negSucc n =>
      show (readNatural? (Decimal.natural (n + 1))).map _ = _
      rw [readNatural?_natural]
      rfl

theorem denotation?_integer (b : Int) : denotation? (Decimal.integer b) = some (0, b) := by
  cases b with
  | ofNat n =>
      obtain ⟨hDigits, hRest⟩ := run_natural n
      have hSign := readSign_natural n []
      rw [List.append_nil] at hSign
      simp only [denotation?, Decimal.integer, hSign, hDigits, hRest, readNatural?_natural]
      simp
  | negSucc n =>
      obtain ⟨hDigits, hRest⟩ := run_natural (n + 1)
      simp only [denotation?, Decimal.integer, readSign, hDigits, hRest, readNatural?_natural]
      simp [Int.negSucc_eq]

theorem denotation?_of_readSign {sign b : Int} {text digits : List Char}
    (hSign : readSign text = (sign, digits ++ 'n' :: offsetChars b))
    (hDigits : ∀ c ∈ digits, c.isDigit = true) :
    denotation? text =
      some (sign * if digits = [] then 1 else (Decimal.value digits : Int), b) := by
  have hStop : ∀ c ∈ ('n' :: offsetChars b).head?, c.isDigit = false :=
    forall_mem_head?_cons.mpr rfl
  obtain ⟨hRun, hRest⟩ := longest_run hDigits hStop
  simp only [denotation?, hSign, hRun, hRest, readOffset?_offsetChars, Option.map_some]

theorem denotation?_stepChars (a b : Int) :
    denotation? (stepChars a ++ offsetChars b) = some (a, b) := by
  have noDigits : ∀ c ∈ ([] : List Char), c.isDigit = true := fun _ h => absurd h List.not_mem_nil
  have numeral (n : Nat) : ∀ c ∈ Decimal.natural n, c.isDigit = true := fun _ =>
    Decimal.isDigit_of_mem_natural
  unfold stepChars
  split
  · rename_i h
    have hSign : readSign ('n' :: offsetChars b) = (1, [] ++ 'n' :: offsetChars b) := rfl
    rw [h]
    exact denotation?_of_readSign hSign noDigits
  · split
    · rename_i h
      have hSign : readSign ('-' :: 'n' :: offsetChars b) = (-1, [] ++ 'n' :: offsetChars b) := rfl
      rw [h]
      exact denotation?_of_readSign hSign noDigits
    · rw [List.append_assoc]
      cases a with
      | ofNat n =>
          have hSign := readSign_natural n ('n' :: offsetChars b)
          refine (denotation?_of_readSign hSign (numeral n)).trans ?_
          rw [if_neg (Decimal.natural_ne_nil n), Decimal.value_natural, Int.one_mul]
          rfl
      | negSucc n =>
          have hSign : readSign ('-' :: (Decimal.natural (n + 1) ++ 'n' :: offsetChars b)) =
            (-1, Decimal.natural (n + 1) ++ 'n' :: offsetChars b) := rfl
          refine (denotation?_of_readSign hSign (numeral (n + 1))).trans ?_
          rw [if_neg (Decimal.natural_ne_nil (n + 1)), Decimal.value_natural]
          simp [Int.negSucc_eq]

/-- The notation of two coefficients denotes them. -/
theorem denotation?_chars (x : Nth) :
    denotation? x.chars = some (x.step.toInt, x.offset.toInt) := by
  unfold chars
  split
  · rename_i hStep
    rw [denotation?_integer, hStep]
  · exact denotation?_stepChars _ _

/-! ## The characters of the notation -/

def isNotation (c : Char) : Prop :=
  c.isDigit = true ∨ c ∈ ['n', '+', '-']

theorem isNotation_of_mem_integer {c : Char} {i : Int} (h : c ∈ Decimal.integer i) :
    isNotation c := by
  cases i with
  | ofNat n => exact .inl (Decimal.isDigit_of_mem_natural h)
  | negSucc n =>
      rcases List.mem_cons.mp h with rfl | h
      · exact .inr (by decide)
      · exact .inl (Decimal.isDigit_of_mem_natural h)

theorem isNotation_of_mem_stepChars {c : Char} {a : Int} (h : c ∈ stepChars a) : isNotation c := by
  unfold stepChars at h
  split at h
  · exact .inr (List.mem_cons.mpr (.inl (List.mem_singleton.mp h)))
  · split at h
    · rcases List.mem_cons.mp h with rfl | h
      · exact .inr (by decide)
      · exact .inr (List.mem_cons.mpr (.inl (List.mem_singleton.mp h)))
    · rcases List.mem_append.mp h with h | h
      · exact isNotation_of_mem_integer h
      · exact .inr (List.mem_cons.mpr (.inl (List.mem_singleton.mp h)))

theorem isNotation_of_mem_offsetChars {c : Char} {b : Int} (h : c ∈ offsetChars b) :
    isNotation c := by
  unfold offsetChars at h
  split at h
  · cases h
  · split at h
    · rcases List.mem_cons.mp h with rfl | h
      · exact .inr (by decide)
      · exact isNotation_of_mem_integer h
    · exact isNotation_of_mem_integer h

theorem isNotation_of_mem_chars {x : Nth} {c : Char} (h : c ∈ x.chars) : isNotation c := by
  unfold chars at h
  split at h
  · exact isNotation_of_mem_integer h
  · rcases List.mem_append.mp h with h | h
    · exact isNotation_of_mem_stepChars h
    · exact isNotation_of_mem_offsetChars h

end Nth

end SelectorStream
