/-
# `SelectorStream.Text.Json.Reader` — reading JSON text

A reader for whole texts: one value, with blanks allowed around it and around
every mark.  Each function reads from the front and returns what it read with
the characters that are left.  The readers of values call each other on nested
values; `depth` bounds how deep, and a text has no more levels than characters,
so `read?` starts with the length of the text.

The reader keeps all members of an object in their order, also those with one key.
Which of these counts is decided where a value is used: `Json.field?` and
`Json.tagged?` go by the last one.
-/
import SelectorStream.Text.Json.Basic

namespace SelectorStream.Json.Reader

def isBlank (c : Char) : Bool :=
  c = ' ' || c = '\t' || c = '\n' || c = '\r'

def skipBlanks (cs : List Char) : List Char :=
  cs.dropWhile isBlank

/-! ## Strings -/

def hexDigit? (c : Char) : Option Nat :=
  if '0' ≤ c ∧ c ≤ '9' then some (c.toNat - 48)
  else if 'a' ≤ c ∧ c ≤ 'f' then some (c.toNat - 87)
  else if 'A' ≤ c ∧ c ≤ 'F' then some (c.toNat - 55)
  else none

def codeUnit? (a b c d : Char) : Option Nat := do
  return 4096 * (← hexDigit? a) + 256 * (← hexDigit? b) + 16 * (← hexDigit? c) + (← hexDigit? d)

def isHighSurrogate (unit : Nat) : Bool :=
  0xD800 ≤ unit && unit < 0xDC00

def isLowSurrogate (unit : Nat) : Bool :=
  0xDC00 ≤ unit && unit < 0xE000

def pairedChar (high low : Nat) : Char :=
  Char.ofNat (0x10000 + 0x400 * (high - 0xD800) + (low - 0xDC00))

def unescape? (letter : Char) : Option Char :=
  if letter = '/' then some '/'
  else (shortEscapes.find? fun pair => pair.2 == letter).map Prod.fst

/-- The rest of a string literal, after its opening quote.  Half of a pair of
code units is no character, and neither are the characters below U+0020
allowed unescaped. -/
def string? : List Char → Option (List Char × List Char)
  | [] => none
  | '"' :: rest => some ([], rest)
  | '\\' :: 'u' :: a :: b :: c :: d :: rest =>
    match codeUnit? a b c d with
    | none => none
    | some unit =>
      if isHighSurrogate unit then
        match rest with
        | '\\' :: 'u' :: e :: f :: g :: h :: rest =>
          match codeUnit? e f g h with
          | none => none
          | some low =>
            if isLowSurrogate low then
              (string? rest).map fun (text, after) => (pairedChar unit low :: text, after)
            else none
        | _ => none
      else if isLowSurrogate unit then none
      else (string? rest).map fun (text, after) => (Char.ofNat unit :: text, after)
  | '\\' :: letter :: rest =>
    match unescape? letter with
    | none => none
    | some c => (string? rest).map fun (text, after) => (c :: text, after)
  | c :: rest =>
    if c.toNat < 0x20 ∨ c = '\\' then none
    else (string? rest).map fun (text, after) => (c :: text, after)

/-! ## Numbers -/

def digits (cs : List Char) : List Char × List Char :=
  (cs.takeWhile Char.isDigit, cs.dropWhile Char.isDigit)

/-- A fraction, if one stands here: its text and what follows it.  A point
without a digit after it is an error. -/
def fraction? : List Char → Option (List Char × List Char)
  | '.' :: rest =>
    let (run, after) := digits rest
    if run = [] then none else some ('.' :: run, after)
  | cs => some ([], cs)

def exponent? : List Char → Option (List Char × List Char)
  | [] => some ([], [])
  | e :: rest =>
    if e = 'e' ∨ e = 'E' then
      let (sign, rest) := match rest with
        | '+' :: r => (['+'], r)
        | '-' :: r => (['-'], r)
        | r => ([], r)
      let (run, after) := digits rest
      if run = [] then none else some (e :: (sign ++ run), after)
    else some ([], e :: rest)

/-- A number whose sign has been read.  A leading zero is not allowed, and
minus zero is no integer. -/
def unsigned? (negative : Bool) (cs : List Char) : Option (Json × List Char) := do
  let (run, rest) := digits cs
  if run = [] ∨ (run.head? = some '0' ∧ run ≠ ['0']) then none
  else
    let (fraction, rest) ← fraction? rest
    let (exponent, rest) ← exponent? rest
    let n := Decimal.value run
    if fraction = [] ∧ exponent = [] ∧ ¬ (negative = true ∧ n = 0) then
      some (.int (if negative then -(n : Int) else n), rest)
    else
      let sign := if negative then ['-'] else []
      some (.real (String.ofList (sign ++ run ++ fraction ++ exponent)), rest)

def number? : List Char → Option (Json × List Char)
  | '-' :: rest => unsigned? true rest
  | cs => unsigned? false cs

/-! ## Values -/

mutual

def value? : (depth : Nat) → List Char → Option (Json × List Char)
  | 0, _ => none
  | depth + 1, cs =>
    match skipBlanks cs with
    | 'n' :: 'u' :: 'l' :: 'l' :: rest => some (.null, rest)
    | 't' :: 'r' :: 'u' :: 'e' :: rest => some (.bool true, rest)
    | 'f' :: 'a' :: 'l' :: 's' :: 'e' :: rest => some (.bool false, rest)
    | '"' :: rest =>
      match string? rest with
      | none => none
      | some (text, rest) => some (.str (String.ofList text), rest)
    | '[' :: rest =>
      match skipBlanks rest with
      | ']' :: rest => some (.arr [], rest)
      | rest =>
        match value? depth rest with
        | none => none
        | some (item, rest) =>
          (items? depth rest).map fun (items, rest) => (.arr (item :: items), rest)
    | '\x7b' :: rest =>
      match skipBlanks rest with
      | '\x7d' :: rest => some (.obj [], rest)
      | rest =>
        match member? depth rest with
        | none => none
        | some (field, rest) =>
          (members? depth rest).map fun (fields, rest) => (.obj (field :: fields), rest)
    | rest => number? rest

def items? : (depth : Nat) → List Char → Option (List Json × List Char)
  | 0, _ => none
  | depth + 1, cs =>
    match skipBlanks cs with
    | ']' :: rest => some ([], rest)
    | ',' :: rest =>
      match value? depth rest with
      | none => none
      | some (item, rest) =>
        (items? depth rest).map fun (items, rest) => (item :: items, rest)
    | _ => none

def member? : (depth : Nat) → List Char → Option ((String × Json) × List Char)
  | 0, _ => none
  | depth + 1, cs =>
    match skipBlanks cs with
    | '"' :: rest =>
      match string? rest with
      | none => none
      | some (key, rest) =>
        match skipBlanks rest with
        | ':' :: rest =>
          (value? depth rest).map fun (value, rest) => ((String.ofList key, value), rest)
        | _ => none
    | _ => none

def members? : (depth : Nat) → List Char → Option (List (String × Json) × List Char)
  | 0, _ => none
  | depth + 1, cs =>
    match skipBlanks cs with
    | '\x7d' :: rest => some ([], rest)
    | ',' :: rest =>
      match member? depth rest with
      | none => none
      | some (field, rest) =>
        (members? depth rest).map fun (fields, rest) => (field :: fields, rest)
    | _ => none

end

end SelectorStream.Json.Reader

/-- The value that a whole text denotes. -/
def SelectorStream.Json.read? (text : String) : Option SelectorStream.Json :=
  let cs := text.toList
  match Reader.value? (cs.length + 1) cs with
  | some (value, rest) => if Reader.skipBlanks rest = [] then some value else none
  | none => none

/-- The value that a whole text denotes, if it is nested no deeper than a given
number of levels. -/
def SelectorStream.Json.readWithin? (limit : Nat) (text : String) : Option SelectorStream.Json :=
  (read? text).filter fun value => value.levels ≤ limit
