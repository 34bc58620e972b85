/-
# `SelectorStream.Proofs.NormalNotation` — the normal form of `an+b`

Coefficients can be written in many ways: `0n+3` is `3`, `1n` is `n`, and `2n+0` is
`2n`.  What is written for two coefficients is in normal form, `Nth.IsNormal`: it
leaves out what an absence says as well, and puts one sign where two would meet.
That says nothing about what the text denotes, which `Nth.denotation?` reads off it:

    Nth.argument_denotes
-/
import Mathlib.Data.List.Basic
import Mathlib.Data.List.Chain
import SelectorStream.Event.Css
import SelectorStream.Proofs.NthNotation

namespace SelectorStream.Nth

def readInteger? (text : List Char) : Option Int :=
  let (sign, rest) := readSign text
  (readNatural? rest).map (sign * ·)

def isSign (c : Char) : Bool :=
  c == '+' || c == '-'

/-- A text that writes no coefficient which its absence would say, and no two signs in
a row. -/
structure IsNormal (text : List Char) : Prop where
  /-- A numeral before `n` is none of those that `n` or a sign before it stand for. -/
  numeral : ∀ before after i, text = before ++ 'n' :: after → readInteger? before = some i →
    i ∉ [0, 1, -1]
  offset : ∀ before after, text = before ++ 'n' :: after → after ≠ [] → readOffset? after ≠ some 0
  signs : text.IsChain fun c d => ¬ (isSign c = true ∧ isSign d = true)

theorem readInteger?_integer (i : Int) : readInteger? (Decimal.integer i) = some i := by
  cases i with
  | ofNat n =>
      have hSign := readSign_natural n []
      rw [List.append_nil] at hSign
      simp only [readInteger?, Decimal.integer, hSign, readNatural?_natural]
      simp
  | negSucc n =>
      simp only [readInteger?, Decimal.integer, readSign, readNatural?_natural]
      simp [Int.negSucc_eq]

/-! ## The parts of the notation

The notation has `n` once, between a stem and an offset, or not at all.  In each part
a sign may stand at the front and nowhere else. -/

theorem isSign_of_isDigit {c : Char} (h : c.isDigit = true) : isSign c = false := by
  refine (Bool.not_eq_true _).mp fun hSign => ?_
  rcases Bool.or_eq_true_iff.mp hSign with hSign | hSign
  · obtain rfl := beq_iff_eq.mp hSign
    cases h
  · obtain rfl := beq_iff_eq.mp hSign
    cases h

structure IsPart (part : List Char) : Prop where
  noStep : 'n' ∉ part
  signFirst : ∀ c ∈ part.tail, isSign c = false

theorem isPart_of_digits {digits : List Char} (h : ∀ c ∈ digits, c.isDigit = true) :
    IsPart digits where
  noStep hStep := by cases h _ hStep
  signFirst _ hDigit := isSign_of_isDigit (h _ (List.mem_of_mem_tail hDigit))

theorem isPart_sign_cons {sign : Char} {digits : List Char} (hSign : isSign sign = true)
    (h : ∀ c ∈ digits, c.isDigit = true) : IsPart (sign :: digits) where
  noStep hStep := by
    rcases List.mem_cons.mp hStep with rfl | hStep
    · cases hSign
    · exact (isPart_of_digits h).noStep hStep
  signFirst _ hDigit := isSign_of_isDigit (h _ hDigit)

theorem isPart_nil : IsPart [] :=
  isPart_of_digits (List.forall_mem_nil _)

theorem isPart_integer (i : Int) : IsPart (Decimal.integer i) := by
  cases i with
  | ofNat n => exact isPart_of_digits fun _ => Decimal.isDigit_of_mem_natural
  | negSucc n => exact isPart_sign_cons rfl fun _ => Decimal.isDigit_of_mem_natural

theorem isPart_offsetChars (b : Int) : IsPart (offsetChars b) := by
  match b with
  | .ofNat 0 => exact isPart_nil
  | .ofNat (n + 1) =>
      have hPos : 0 < Int.ofNat (n + 1) := Int.natCast_succ_pos n
      rw [offsetChars, if_neg (Int.ne_of_gt hPos), if_pos hPos]
      exact isPart_sign_cons rfl fun _ => Decimal.isDigit_of_mem_natural
  | .negSucc n => exact isPart_integer (.negSucc n)

theorem IsPart.isChain {part : List Char} (h : IsPart part) :
    part.IsChain fun c d => ¬ (isSign c = true ∧ isSign d = true) := by
  cases part with
  | nil => exact .nil
  | cons c rest =>
      have hRest : ∀ d ∈ rest, isSign d = false := h.signFirst
      refine List.Pairwise.isChain (List.pairwise_cons.mpr ⟨fun d hd => ?_, ?_⟩)
      · simp [hRest d hd]
      · refine List.pairwise_of_forall_mem_list fun d hd d' _ => ?_
        simp [hRest d hd]

/-! ## Writing in normal form -/

theorem IsPart.isNormal {part : List Char} (h : IsPart part) : IsNormal part where
  numeral before after i hText := absurd (hText ▸ by simp) h.noStep
  offset before after hText := absurd (hText ▸ by simp) h.noStep
  signs := h.isChain

theorem isNormal_append {stem after : List Char} (hStem : IsPart stem) (hAfter : IsPart after)
    (numeral : ∀ i, readInteger? stem = some i → i ∉ [0, 1, -1])
    (offset : after ≠ [] → readOffset? after ≠ some 0) : IsNormal (stem ++ 'n' :: after) := by
  have unique {before after' : List Char} (hText : stem ++ 'n' :: after = before ++ 'n' :: after') :
      stem = before ∧ after = after' := by
    obtain ⟨hBefore, _, hAfter'⟩ :=
      (List.append_cons_inj_of_notMem hStem.noStep hAfter.noStep).mp hText
    exact ⟨hBefore, hAfter'⟩
  refine ⟨fun before after' i hText => ?_, fun before after' hText => ?_, ?_⟩
  · obtain ⟨rfl, _⟩ := unique hText
    exact numeral i
  · obtain ⟨_, rfl⟩ := unique hText
    exact offset
  · refine List.isChain_append.mpr ⟨hStem.isChain, List.isChain_cons.mpr ⟨?_, hAfter.isChain⟩, ?_⟩
    · rintro _ _ ⟨hSign, _⟩
      cases hSign
    · rintro _ _ _ hHead ⟨_, hSign⟩
      obtain rfl := Option.some.inj hHead
      cases hSign

theorem exists_stem (a : Int) (ha : a ≠ 0) :
    ∃ stem, stepChars a = stem ++ ['n'] ∧ IsPart stem ∧
      ∀ i, readInteger? stem = some i → i ∉ [0, 1, -1] := by
  rw [stepChars]
  split
  · exact ⟨[], rfl, isPart_nil, fun i h => by cases h⟩
  · split
    · exact ⟨['-'], rfl, isPart_sign_cons rfl (List.forall_mem_nil _), fun i h => by cases h⟩
    · rename_i hOne hMinusOne
      refine ⟨Decimal.integer a, rfl, isPart_integer a, fun i h => ?_⟩
      rw [readInteger?_integer] at h
      obtain rfl := Option.some.inj h
      simp [ha, hOne, hMinusOne]

theorem readOffset?_ne_zero {b : Int} (h : offsetChars b ≠ []) :
    readOffset? (offsetChars b) ≠ some 0 := by
  rw [readOffset?_offsetChars]
  intro hZero
  obtain rfl := Option.some.inj hZero
  exact h rfl

theorem isNormal_chars (x : Nth) : IsNormal x.chars := by
  rw [chars]
  split
  · exact (isPart_integer _).isNormal
  · rename_i hStep
    obtain ⟨stem, hStem, hPart, hNumeral⟩ := exists_stem _ hStep
    rw [hStem, List.append_assoc]
    exact isNormal_append hPart (isPart_offsetChars _) hNumeral readOffset?_ne_zero

/-- The argument of `:nth-child` denotes its coefficients, in normal form.

Read by the rules for `an+b` alone, what stands between the brackets is the step and the
offset of the event, whichever 32 bit integers they are.  No numeral before `n` is zero,
one or minus one, no offset after `n` is zero, and no sign follows another. -/
theorem argument_denotes (x : Nth) :
    ∃ argument : List Char,
      (Event.css (.filter (.nthChild x))).toList = ":nth-child(".toList ++ argument ++ [')'] ∧
        denotation? argument = some (x.step.toInt, x.offset.toInt) ∧ IsNormal argument :=
  ⟨x.chars, String.toList_ofList, denotation?_chars x, isNormal_chars x⟩

end SelectorStream.Nth
