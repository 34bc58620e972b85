/-
# `SelectorStream.Text.Quoted` — quoted text with backslashes

Inside quotes a quote or a backslash is written after a backslash, and every
other character stands for itself.  `scan` is the reader's rule: a backslash
makes the next character literal, and the first quote without one ends the
text.  `scan_escape` says that the rule finds the closing quote and nothing
but the text, whatever follows.
-/

namespace SelectorStream.Quoted

def escape : List Char → List Char
  | [] => []
  | c :: rest =>
    if c = '"' ∨ c = '\\' then '\\' :: c :: escape rest else c :: escape rest

def quote (text : List Char) : List Char :=
  '"' :: (escape text ++ ['"'])

/-- Reads up to the first quote that no backslash makes literal: the text
before it and what follows it. -/
def scan : List Char → Option (List Char × List Char)
  | [] => none
  | '"' :: rest => some ([], rest)
  | ['\\'] => none
  | '\\' :: c :: rest => (scan rest).map fun (text, after) => (c :: text, after)
  | c :: rest => (scan rest).map fun (text, after) => (c :: text, after)

/-- Reading what was written gives the text back and leaves what follows. -/
theorem scan_escape (text after : List Char) :
    scan (escape text ++ '"' :: after) = some (text, after) := by
  induction text with
  | nil => rfl
  | cons c rest ih =>
    by_cases h : c = '"' ∨ c = '\\'
    · simp [escape, h, scan, ih]
    · obtain ⟨notQuote, notBackslash⟩ := not_or.mp h
      simp only [escape, h, if_false, List.cons_append]
      rw [scan]
      · simp [ih]
      all_goals simp_all

end SelectorStream.Quoted
