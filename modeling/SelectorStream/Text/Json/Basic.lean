/-
# `SelectorStream.Text.Json.Basic` — JSON values and their compact text

A value of the data format, with integers kept exact: a number with a fraction
or an exponent is a different constructor, so no function can take it for an
integer.  `write` gives the compact text: no blanks, fields in the order of the
list, and in strings only what JSON forbids is escaped — the two marks `"` and
`\`, and the characters below U+0020, of which five have a short form.
-/
import SelectorStream.Text.Decimal

namespace SelectorStream

inductive Json where
  | null
  | bool (value : Bool)
  | int (value : Int)
  /-- A number that is not written as an integer, as it was written. -/
  | real (text : String)
  | str (value : String)
  | arr (items : List Json)
  | obj (fields : List (String × Json))

namespace Json

/-- The value of a field; of several fields with one key the last counts. -/
def field? (key : String) : Json → Option Json
  | .obj fields => (fields.findRev? fun field => field.1 == key).map Prod.snd
  | _ => none

/-- A tagged value: a bare string is a tag alone, and an object with a single
key is a tag with a value. -/
def tagged? : Json → Option (String × Option Json)
  | .str tag => some (tag, none)
  | .obj (first :: rest) =>
    if rest.all (fun field => field.1 == first.1) then
      some (first.1, some (rest.getLast?.getD first).2)
    else none
  | _ => none

/-! ## Nesting -/

mutual

def levels : Json → Nat
  | .arr items => levelsOfItems items + 1
  | .obj fields => levelsOfFields fields + 1
  | _ => 0

def levelsOfItems : List Json → Nat
  | [] => 0
  | item :: rest => max (levels item) (levelsOfItems rest)

def levelsOfFields : List (String × Json) → Nat
  | [] => 0
  | (_, value) :: rest => max (levels value) (levelsOfFields rest)

end

/-! ## Compact text -/

/-- The characters that have a short escape, with the letter that follows the
backslash. -/
def shortEscapes : List (Char × Char) :=
  [('"', '"'), ('\\', '\\'), ('\x08', 'b'), ('\x0c', 'f'), ('\n', 'n'), ('\r', 'r'), ('\t', 't')]

def escapeChar (c : Char) : List Char :=
  match shortEscapes.lookup c with
  | some letter => ['\\', letter]
  | none =>
    if c.toNat < 0x20 then
      ['\\', 'u', '0', '0', Nat.digitChar (c.toNat / 16), Nat.digitChar (c.toNat % 16)]
    else [c]

def writeString (s : String) : List Char :=
  '"' :: (s.toList.flatMap escapeChar ++ ['"'])

mutual

def write : Json → List Char
  | .null => "null".toList
  | .bool true => "true".toList
  | .bool false => "false".toList
  | .int value => Decimal.integer value
  | .real text => text.toList
  | .str value => writeString value
  | .arr [] => "[]".toList
  | .arr (item :: rest) => '[' :: (write item ++ writeItems rest)
  | .obj [] => ['\x7b', '\x7d']
  | .obj ((key, value) :: rest) =>
    '\x7b' :: (writeString key ++ ':' :: (write value ++ writeFields rest))

/-- The items that follow a first one, and the closing bracket. -/
def writeItems : List Json → List Char
  | [] => [']']
  | item :: rest => ',' :: (write item ++ writeItems rest)

def writeFields : List (String × Json) → List Char
  | [] => ['\x7d']
  | (key, value) :: rest =>
    ',' :: (writeString key ++ ':' :: (write value ++ writeFields rest))

end

def text (value : Json) : String :=
  String.ofList value.write

end Json

end SelectorStream
