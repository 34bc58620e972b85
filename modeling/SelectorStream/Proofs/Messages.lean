/-
# `SelectorStream.Proofs.Messages` — errors read off their messages

A message is a row of words with a blank between any two.  Kinds and numbers are written as
one word each, so blanks part the words again, whatever the message is about
(`Violation.message_eq_intercalate`).  Two rules never share all their fixed words: the words
tell the rule, and then which of them are its fields (`Violation.eq_of_words_eq`).

A receiver that has failed speaks in its own words, which may be any.  They stand behind a
first letter that no other message begins with:

    Rejection.messages_identify
-/
import Mathlib.Data.List.Nodup
import SelectorStream.Notice
import SelectorStream.Proofs.Commas
import SelectorStream.Proofs.NormalNotation
import SelectorStream.Rejection

namespace SelectorStream

/-! ## Words -/

def IsWord (text : String) : Prop :=
  ' ' ∉ text.toList

instance : DecidablePred IsWord := fun text =>
  inferInstanceAs (Decidable (' ' ∉ text.toList))

def spaced (words : List String) : String :=
  String.join (words.map (" " ++ ·))

theorem isWord_append {a b : String} : IsWord (a ++ b) ↔ IsWord a ∧ IsWord b := by
  rw [IsWord, IsWord, IsWord, String.toList_append, List.mem_append, not_or]

theorem spaced_cons (word : String) (words : List String) :
    spaced (word :: words) = " " ++ word ++ spaced words := by
  rw [spaced, List.map_cons, String.join_cons]
  rfl

theorem intercalate_cons_eq_spaced (word : String) (words : List String) :
    " ".intercalate (word :: words) = word ++ spaced words := by
  induction words generalizing word with
  | nil => exact (String.append_empty).symm
  | cons next words ih =>
      rw [String.intercalate_cons_cons, ih, spaced_cons, String.append_assoc, String.append_assoc]

theorem intercalate_append_eq_spaced {words : List String} (h : words ≠ []) (more : List String) :
    " ".intercalate (words ++ more) = " ".intercalate words ++ spaced more := by
  obtain ⟨word, words, rfl⟩ := List.exists_cons_of_ne_nil h
  rw [List.cons_append, intercalate_cons_eq_spaced, intercalate_cons_eq_spaced, spaced,
    List.map_append, String.join_append, String.append_assoc]
  rfl

theorem spaced_concat (words : List String) (word : String) :
    spaced (words ++ [word]) = spaced words ++ " " ++ word := by
  rw [spaced, List.map_append, String.join_append, List.map_singleton, String.join_cons,
    String.join_nil, String.append_empty, ← String.append_assoc]
  rfl

theorem eq_of_intercalate_eq {words others : List String} (hWords : ∀ word ∈ words, IsWord word)
    (hOthers : ∀ word ∈ others, IsWord word) (hSome : words ≠ []) (hSome' : others ≠ [])
    (h : " ".intercalate words = " ".intercalate others) : words = others := by
  obtain ⟨word, words, rfl⟩ := List.exists_cons_of_ne_nil hSome
  obtain ⟨other, others, rfl⟩ := List.exists_cons_of_ne_nil hSome'
  have hBlank : " ".toList = [' '] := rfl
  rw [← toList_split_intercalate_cons hBlank hWords, h, toList_split_intercalate_cons hBlank hOthers]

/-! ## Fields -/

theorem Kind.name_inj {k l : Kind} : k.name = l.name ↔ k = l := by
  have apart : (all.map name).Nodup := by decide
  constructor
  · intro h
    exact List.inj_on_of_nodup_map apart (mem_all k) (mem_all l) h
  · rintro rfl
    rfl

theorem ticked_inj {a b : String} : ticked a = ticked b ↔ a = b := by
  rw [ticked, ticked, String.append_left_inj, String.append_right_inj]

theorem Decimal.text_inj {m n : Nat} : text m = text n ↔ m = n := by
  constructor
  · intro h
    have hValue := congrArg value (String.ofList_injective h)
    rwa [value_natural, value_natural] at hValue
  · rintro rfl
    rfl

theorem Decimal.signedText_inj {i j : Int} : signedText i = signedText j ↔ i = j := by
  constructor
  · intro h
    have hRead := congrArg Nth.readInteger? (String.ofList_injective h)
    rw [Nth.readInteger?_integer, Nth.readInteger?_integer] at hRead
    exact Option.some.inj hRead
  · rintro rfl
    rfl

theorem isWord_ticked (kind : Kind) : IsWord (ticked kind.name) := by
  have hTick : IsWord "`" := by decide
  have every : ∀ k ∈ Kind.all, IsWord k.name := by decide
  rw [ticked, isWord_append, isWord_append]
  exact ⟨⟨hTick, every kind kind.mem_all⟩, hTick⟩

theorem isWord_text (n : Nat) : IsWord (Decimal.text n) := by
  intro h
  rw [Decimal.text, String.toList_ofList] at h
  cases Decimal.isDigit_of_mem_natural h

theorem isWord_signedText (i : Int) : IsWord (Decimal.signedText i) := by
  intro h
  rw [Decimal.signedText, String.toList_ofList] at h
  rcases Nth.isNotation_of_mem_integer h with hDigit | hSign
  · cases hDigit
  · revert hSign
    decide

/-! ## The words of a violation

Every message names the position.  Its words are those before, the position, and those
after. -/

def Refusal.opening : Refusal → List String
  | .notOpened kind | .afterClose kind | .afterBreach kind => [ticked kind.name]
  | .reopened => ["`init`"]

def Refusal.closing : Refusal → List String
  | .notOpened _ => ["arrived", "before", "`init`"]
  | .reopened => ["arrived", "while", "a", "selector", "list", "was", "already", "open"]
  | .afterClose _ => ["arrived", "after", "`close`"]
  | .afterBreach _ => ["arrived", "after", "a", "grammar", "violation", "aborted", "the", "parse"]

def Breach.opening : Breach → List String
  | .missingSelector kind | .misplacedHead kind _ | .emptyCompound kind => [ticked kind.name]
  | .danglingCombinator kind => ["combinator", ticked kind.name]
  | .emptyList => ["`close`"]
  | .tooManyAlternatives limit => ["selector", "list", "exceeds", Decimal.text limit, "alternatives"]
  | .compoundTooLong limit =>
    ["simple-selector", "sequence", "exceeds", Decimal.text limit, "components"]
  | .unsatisfiableNth step offset =>
    ["`:nth-child`", "with", "a=" ++ Decimal.signedText step.toInt ++ ",",
      "b=" ++ Decimal.signedText offset.toInt]

def Breach.closing : Breach → List String
  | .missingSelector _ => ["arrived", "before", "the", "first", "`selector`", "boundary"]
  | .misplacedHead _ after =>
    ["must", "open", "a", "simple-selector", "sequence,", "but", "follows", ticked after.name]
  | .danglingCombinator _ => ["has", "no", "simple-selector", "sequence", "on", "its", "left"]
  | .emptyCompound _ => ["ends", "an", "empty", "simple-selector", "sequence"]
  | .emptyList => ["ends", "a", "selector", "list", "with", "no", "selectors"]
  | .tooManyAlternatives _ | .compoundTooLong _ => []
  | .unsatisfiableNth _ _ => ["can", "never", "match"]

def sentence (opening : List String) (position : Nat) (closing : List String) : List String :=
  opening ++ "at" :: "position" :: Decimal.text position :: closing

def Violation.words (v : Violation) : List String :=
  match v.cause with
  | .refusal r => sentence r.opening v.position r.closing
  | .breach b => sentence b.opening v.position b.closing

theorem intercalate_sentence {opening : List String} (h : opening ≠ []) (position : Nat)
    (closing : List String) :
    " ".intercalate (sentence opening position closing) =
      " ".intercalate opening ++ " at position " ++ Decimal.text position ++ spaced closing := by
  have hPosition : " at position " = " " ++ "at" ++ (" " ++ "position") ++ " " := rfl
  rw [sentence, intercalate_append_eq_spaced h, spaced_cons, spaced_cons, spaced_cons, hPosition]
  simp only [String.append_assoc]

theorem intercalate_limit {subject : List String} (h : subject ≠ []) (limit : Nat) (unit : String)
    (position : Nat) :
    " ".intercalate (sentence (subject ++ [Decimal.text limit, unit]) position []) =
      (" ".intercalate subject ++ " ") ++ Decimal.text limit ++ (" " ++ unit ++ " at position ") ++
        Decimal.text position := by
  rw [intercalate_sentence (List.append_ne_nil_of_left_ne_nil h _), intercalate_append_eq_spaced h,
    spaced_cons, spaced_cons]
  simp [spaced, String.append_assoc]

theorem intercalate_coefficients (step offset : String) :
    " ".intercalate ["`:nth-child`", "with", "a=" ++ step ++ ",", "b=" ++ offset] =
      "`:nth-child` with a=" ++ step ++ ", b=" ++ offset := by
  have hParts : " ".intercalate ["`:nth-child`", "with", "a=" ++ step ++ ",", "b=" ++ offset] =
      ("`:nth-child`" ++ " " ++ "with" ++ " " ++ "a=") ++ step ++ ("," ++ " " ++ "b=") ++ offset := by
    simp only [String.intercalate_cons_cons, String.intercalate_singleton, String.append_assoc]
  exact hParts

theorem Refusal.opening_ne_nil (r : Refusal) : r.opening ≠ [] := by
  cases r <;> exact List.cons_ne_nil _ _

theorem Breach.opening_ne_nil (b : Breach) : b.opening ≠ [] := by
  cases b <;> exact List.cons_ne_nil _ _

theorem Refusal.message_eq (position : Nat) (r : Refusal) :
    r.message (Decimal.text position) = " ".intercalate (sentence r.opening position r.closing) := by
  rw [intercalate_sentence r.opening_ne_nil]
  cases r <;> rfl

theorem Breach.message_eq (position : Nat) (b : Breach) :
    b.message (Decimal.text position) = " ".intercalate (sentence b.opening position b.closing) := by
  have hParts := intercalate_sentence b.opening_ne_nil position b.closing
  cases b with
  | missingSelector _ | danglingCombinator _ | emptyCompound _ | emptyList => exact hParts.symm
  | misplacedHead kind after =>
      have hClosing := spaced_concat
        ["must", "open", "a", "simple-selector", "sequence,", "but", "follows"] (ticked after.name)
      rw [hParts]
      exact String.append_assoc.trans (congrArg (_ ++ ·) hClosing.symm)
  | tooManyAlternatives limit =>
      exact (intercalate_limit (List.cons_ne_nil "selector" ["list", "exceeds"]) limit "alternatives"
        position).symm
  | compoundTooLong limit =>
      exact (intercalate_limit (List.cons_ne_nil "simple-selector" ["sequence", "exceeds"]) limit
        "components" position).symm
  | unsatisfiableNth step offset =>
      rw [hParts, opening, intercalate_coefficients]
      rfl

theorem Violation.message_eq_intercalate (v : Violation) :
    v.message = " ".intercalate v.words := by
  obtain ⟨position, cause⟩ := v
  cases cause with
  | refusal r => exact r.message_eq position
  | breach b => exact b.message_eq position

theorem Violation.isWord_of_mem_words (v : Violation) : ∀ word ∈ v.words, IsWord word := by
  have hPosition := isWord_text v.position
  obtain ⟨position, cause⟩ := v
  cases cause with
  | refusal r =>
      cases r <;>
        simp +decide [words, sentence, Refusal.opening, Refusal.closing, isWord_ticked, hPosition]
  | breach b =>
      cases b <;>
        simp +decide [words, sentence, Breach.opening, Breach.closing, isWord_ticked, isWord_text,
          isWord_append, isWord_signedText]

/-! ### The words tell the violation

Two rules that are not the same differ in a fixed word, or in the number of their words; of
one rule the words are equal only if the fields are. -/

theorem Refusal.eq_of_sentence_eq {p q : Nat} {r s : Refusal}
    (h : sentence r.opening p r.closing = sentence s.opening q s.closing) : p = q ∧ r = s := by
  cases r <;> cases s <;>
    simp_all [sentence, opening, closing, ticked_inj, Kind.name_inj, Decimal.text_inj]

theorem Breach.eq_of_sentence_eq {p q : Nat} {b c : Breach}
    (h : sentence b.opening p b.closing = sentence c.opening q c.closing) : p = q ∧ b = c := by
  cases b <;> cases c <;>
    simp_all [sentence, opening, closing, ticked_inj, Kind.name_inj, Decimal.text_inj,
      Decimal.signedText_inj, Int32.toInt_inj]

theorem sentence_refusal_ne_breach {p q : Nat} {r : Refusal} {b : Breach} :
    sentence r.opening p r.closing ≠ sentence b.opening q b.closing := by
  cases r <;> cases b <;>
    simp [sentence, Refusal.opening, Refusal.closing, Breach.opening, Breach.closing]

namespace Violation

theorem eq_of_words_eq {v w : Violation} (h : v.words = w.words) : v = w := by
  obtain ⟨p, cause⟩ := v
  obtain ⟨q, cause'⟩ := w
  cases cause with
  | refusal r =>
      cases cause' with
      | refusal s =>
          obtain ⟨rfl, rfl⟩ := Refusal.eq_of_sentence_eq h
          rfl
      | breach c => exact absurd h sentence_refusal_ne_breach
  | breach b =>
      cases cause' with
      | refusal s => exact absurd h.symm sentence_refusal_ne_breach
      | breach c =>
          obtain ⟨rfl, rfl⟩ := Breach.eq_of_sentence_eq h
          rfl

theorem words_ne_nil (v : Violation) : v.words ≠ [] := by
  obtain ⟨position, cause⟩ := v
  cases cause <;> exact List.append_ne_nil_of_right_ne_nil _ (List.cons_ne_nil _ _)

theorem message_inj {v w : Violation} : v.message = w.message ↔ v = w := by
  constructor
  · intro h
    rw [message_eq_intercalate, message_eq_intercalate] at h
    exact eq_of_words_eq (eq_of_intercalate_eq v.isWord_of_mem_words w.isWord_of_mem_words
      v.words_ne_nil w.words_ne_nil h)
  · rintro rfl
    rfl

end Violation

/-! ## Rejections

The first letter tells the three sorts of rejections apart. -/

theorem head?_append_of_eq_some {a : String} {c : Char} (h : a.toList.head? = some c) (b : String) :
    (a ++ b).toList.head? = some c := by
  rw [String.toList_append, List.head?_append, h]
  rfl

theorem head?_ticked (name : String) : (ticked name).toList.head? = some '`' := by
  rw [ticked, String.append_assoc]
  exact head?_append_of_eq_some rfl _

theorem Violation.exists_words_eq_cons (v : Violation) :
    ∃ word rest, v.words = word :: rest ∧ ∃ c ∈ ['`', 'c', 's'], word.toList.head? = some c := by
  obtain ⟨position, cause⟩ := v
  cases cause with
  | refusal r =>
      cases r with
      | notOpened kind | afterClose kind | afterBreach kind =>
          exact ⟨_, _, rfl, '`', by simp, head?_ticked kind.name⟩
      | reopened => exact ⟨_, _, rfl, '`', by simp, rfl⟩
  | breach b =>
      cases b with
      | missingSelector kind | misplacedHead kind _ | emptyCompound kind =>
          exact ⟨_, _, rfl, '`', by simp, head?_ticked kind.name⟩
      | emptyList | unsatisfiableNth _ _ => exact ⟨_, _, rfl, '`', by simp, rfl⟩
      | danglingCombinator _ => exact ⟨_, _, rfl, 'c', by simp, rfl⟩
      | tooManyAlternatives _ | compoundTooLong _ => exact ⟨_, _, rfl, 's', by simp, rfl⟩

/-- A text with another first letter is not the message of a violation. -/
theorem Violation.message_ne (v : Violation) {text : String} {c : Char}
    (hText : text.toList.head? = some c) (hLetter : c ∉ ['`', 'c', 's']) : v.message ≠ text := by
  rintro rfl
  obtain ⟨word, rest, hWords, d, hd, hWord⟩ := v.exists_words_eq_cons
  rw [message_eq_intercalate, hWords, intercalate_cons_eq_spaced,
    head?_append_of_eq_some hWord] at hText
  exact hLetter (Option.some.inj hText ▸ hd)

namespace Rejection

theorem head?_unsupported (kind : Kind) : (unsupported kind).message.toList.head? = some 'u' :=
  head?_append_of_eq_some rfl _

theorem head?_failed (reason : String) : (failed reason).message.toList.head? = some 'g' :=
  head?_append_of_eq_some rfl _

theorem unsupported_ne_failed (kind : Kind) (reason : String) :
    (unsupported kind).message ≠ (failed reason).message := by
  intro h
  have hHead := head?_unsupported kind
  rw [h, head?_failed] at hHead
  cases hHead

theorem eq_of_message_eq {r s : Rejection} (h : r.message = s.message) : r = s := by
  cases r with
  | unsupported kind =>
      cases s with
      | unsupported other =>
          have hName : ticked kind.name = ticked other.name := (String.append_right_inj _).mp h
          rw [Kind.name_inj.mp (ticked_inj.mp hName)]
      | violation w => exact absurd h.symm (w.message_ne (head?_unsupported kind) (by simp))
      | failed reason => exact absurd h (unsupported_ne_failed kind reason)
  | violation v =>
      cases s with
      | unsupported other => exact absurd h (v.message_ne (head?_unsupported other) (by simp))
      | violation w => rw [Violation.message_inj.mp h]
      | failed reason => exact absurd h (v.message_ne (head?_failed reason) (by simp))
  | failed reason =>
      cases s with
      | unsupported other => exact absurd h.symm (unsupported_ne_failed other reason)
      | violation w => exact absurd h.symm (w.message_ne (head?_failed reason) (by simp))
      | failed other =>
          have hReason : reason = other := (String.append_right_inj _).mp h
          rw [hReason]

/-- The message of a rejection tells the rejection.

Two rejections with one message are one: of the same sort, for the same rule, and with the
same position, kinds, limit and coefficients, or in the same words of the receiver.  What a
notice says of a violation is that message, so it tells the violation as well. -/
theorem messages_identify :
    (∀ r s : Rejection, r.message = s.message ↔ r = s) ∧
      ∀ m n : Notice, m.violation?.map Violation.message = n.violation?.map Violation.message ↔
        m.violation? = n.violation? := by
  refine ⟨fun r s => ⟨eq_of_message_eq, congrArg message⟩, fun m n => ?_⟩
  have hMessage : Function.Injective Violation.message := fun _ _ => Violation.message_inj.mp
  exact (Option.map_injective hMessage).eq_iff

end Rejection

end SelectorStream
