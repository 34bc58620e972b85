/-
# `SelectorStream.Event.Stored` — the stored form of events

Events, kinds and namespaces are kept as JSON.  A value without payload is its
tag as a string, and a value with payload an object whose one key is the tag:

    "Init"
    {"Id": "main"}
    {"Type": {"prefix": {"Named": "svg"}, "name": "rect"}}
    {"NthChild": {"a": 2, "b": 1}}

Reading is a little wider than writing: a tag without payload may also be the
key of a `null`, and fields of a payload that are not called for are ignored.
A field that is called for must be there and have its type.

The rules are those of a reader that first turns the text into a value, in which
an object is a map.  So a key that stands twice in an object is no error, and the
last of its values counts.  Fields of a payload are taken from an object only; the
same fields in an array, in their order, are refused.  What is written has neither
form.
-/
import SelectorStream.Event.Basic
import SelectorStream.Text.Json.Basic

namespace SelectorStream

namespace Json

def string? : Json → Option String
  | .str value => some value
  | _ => none

def int32? : Json → Option Int32
  | .int value =>
    if Int32.minValue.toInt ≤ value ∧ value ≤ Int32.maxValue.toInt then some (Int32.ofInt value)
    else none
  | _ => none

/-- A tag that carries nothing: the bare string, or the key of a `null`. -/
def bareTag? (value : Json) : Option String :=
  match value.tagged? with
  | some (tag, none) | some (tag, some .null) => some tag
  | _ => none

end Json

/-! ## Namespaces and kinds -/

def Namespace.toJson : Namespace → Json
  | .implied => .str "None"
  | .empty => .str "Empty"
  | .any => .str "Any"
  | .declared label => .obj [("Named", .str label)]

def Namespace.ofJson? (value : Json) : Option Namespace :=
  match value.tagged? with
  | some ("Named", some label) => label.string?.map .declared
  | _ =>
    match value.bareTag? with
    | some "None" => some .implied
    | some "Empty" => some .empty
    | some "Any" => some .any
    | _ => none

def Kind.toJson (kind : Kind) : Json :=
  .str kind.tag

def Kind.ofJson? (value : Json) : Option Kind :=
  value.bareTag?.bind Kind.ofTag?

/-! ## Events -/

def Payload.toJson? : Payload → Option Json
  | .bare => none
  | .text value => some (.str value)
  | .name q => some (.obj [("prefix", q.ns.toJson), ("name", .str q.name)])
  | .comparison q operand =>
    some (.obj [("prefix", q.ns.toJson), ("name", .str q.name), ("value", .str operand)])
  | .coefficients x =>
    some (.obj [("a", .int x.step.toInt), ("b", .int x.offset.toInt)])

def QualifiedName.ofFields? (fields : Json) : Option QualifiedName := do
  let ns ← Namespace.ofJson? (← fields.field? "prefix")
  let name ← (← fields.field? "name").string?
  return ⟨ns, name⟩

def Nth.ofFields? (fields : Json) : Option Nth := do
  let step ← (← fields.field? "a").int32?
  let offset ← (← fields.field? "b").int32?
  return ⟨step, offset⟩

/-- The payload of a given shape that a stored form holds.  A payload that is
nothing may be absent or `null`; any other must be there. -/
def Payload.ofJson? : Shape → Option Json → Option Payload
  | .bare, none | .bare, some .null => some .bare
  | .text, some value => value.string?.map .text
  | .name, some fields => (QualifiedName.ofFields? fields).map .name
  | .comparison, some fields => do
    let name ← QualifiedName.ofFields? fields
    let operand ← (← fields.field? "value").string?
    return .comparison name operand
  | .coefficients, some fields => (Nth.ofFields? fields).map .coefficients
  | _, _ => none

namespace Event

def toJson (e : Event) : Json :=
  match e.payload.toJson? with
  | none => .str e.kind.tag
  | some payload => .obj [(e.kind.tag, payload)]

def ofJson? (value : Json) : Option Event := do
  let (tag, stored) ← value.tagged?
  let kind ← Kind.ofTag? tag
  let payload ← Payload.ofJson? kind.shape stored
  ofPayload? kind payload

def listToJson (events : List Event) : Json :=
  .arr (events.map toJson)

def listOfJson? : Json → Option (List Event)
  | .arr items => items.mapM ofJson?
  | _ => none

end Event

end SelectorStream
