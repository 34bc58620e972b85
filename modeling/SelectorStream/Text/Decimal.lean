/-
# `SelectorStream.Text.Decimal` — decimal numerals

Numbers are written with the fewest digits: no leading zero, and one `-` in
front of a negative number.  `natural` and `integer` write, `value` reads a
run of digits back.  `value_natural` says that reading undoes writing,
`isDigit_of_mem_natural` that a numeral holds digits only, so a reader may
take the longest run of digits, and `eq_zero_of_head?_natural` that none but
zero begins with a zero.
-/

namespace SelectorStream.Decimal

/-- The digits of a natural number, most significant first. -/
def natural (n : Nat) : List Char :=
  Nat.toDigits 10 n

def integer : Int → List Char
  | .ofNat n => natural n
  | .negSucc n => '-' :: natural (n + 1)

def text (n : Nat) : String :=
  String.ofList (natural n)

def signedText (i : Int) : String :=
  String.ofList (integer i)

/-- The number that a run of digits denotes; the empty run denotes zero. -/
def value (digits : List Char) : Nat :=
  digits.foldl (fun v d => 10 * v + (d.toNat - 48)) 0

/-! ## Writing, then reading -/

theorem value_append_digit (digits : List Char) (d : Char) :
    value (digits ++ [d]) = 10 * value digits + (d.toNat - 48) := by
  simp [value, List.foldl_append]

theorem value_natural (n : Nat) : value (natural n) = n := by
  induction n using Nat.strongRecOn with
  | _ n ih =>
    rw [natural, Nat.toDigits_eq_if (by decide)]
    split
    · rename_i h
      exact (value_append_digit [] _).trans (by
        rw [Nat.toNat_digitChar_sub_48_of_lt_ten h]; simp [value])
    · have initial := ih (n / 10) (by omega)
      rw [natural] at initial
      rw [value_append_digit, initial,
        Nat.toNat_digitChar_sub_48_of_lt_ten (Nat.mod_lt n (by decide))]
      omega

theorem isDigit_of_mem_natural {n : Nat} {c : Char} (h : c ∈ natural n) : c.isDigit = true :=
  Nat.isDigit_of_mem_toDigits (by decide) (by decide) h

theorem natural_ne_nil (n : Nat) : natural n ≠ [] :=
  Nat.toDigits_ne_nil

theorem eq_zero_of_head?_natural (n : Nat) : (natural n).head? = some '0' → n = 0 := by
  induction n using Nat.strongRecOn with
  | _ n ih =>
    intro hZero
    rw [natural, Nat.toDigits_eq_if (by decide)] at hZero
    split at hZero
    · rename_i h
      rw [← Nat.toNat_digitChar_sub_48_of_lt_ten h, Option.some.inj hZero]
      rfl
    · obtain ⟨d, digits, hInitial⟩ := List.exists_cons_of_ne_nil (natural_ne_nil (n / 10))
      have initial := ih (n / 10) (by omega)
      rw [hInitial] at initial
      rw [natural] at hInitial
      rw [hInitial] at hZero
      have := initial hZero
      omega

end SelectorStream.Decimal
