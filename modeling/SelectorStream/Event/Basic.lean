/-
# `SelectorStream.Event.Basic` — the events of a stream

One event reports one production of a selector list, with the names and values
that the kind calls for.  `Event.payload` and `Event.ofPayload?` take an event
apart into its kind and its payload and put it together again; the payload has
one of five shapes, and `Kind.shape` says which one a kind calls for.
-/
import SelectorStream.Event.Kind
import SelectorStream.Nth
import SelectorStream.QualifiedName

namespace SelectorStream

inductive Head where
  | element (name : QualifiedName)
  | universal
deriving DecidableEq

inductive AttributeTest where
  | present
  | compares (comparison : Comparison) (operand : String)
deriving DecidableEq

inductive Filter where
  | identifier (value : String)
  | styleClass (value : String)
  | attribute (name : QualifiedName) (test : AttributeTest)
  | structural (predicate : Structural)
  | nthChild (coefficients : Nth)
deriving DecidableEq

/-- One production of a selector list. -/
inductive Event where
  | init
  | close
  | selector
  | head (head : Head)
  | filter (filter : Filter)
  | combinator (combinator : Combinator)
deriving DecidableEq

/-! ## Kinds of events -/

def Head.kind : Head → HeadKind
  | .element _ => .element
  | .universal => .universal

def AttributeTest.comparison? : AttributeTest → Option Comparison
  | .present => none
  | .compares comparison _ => some comparison

def AttributeTest.operand? : AttributeTest → Option String
  | .present => none
  | .compares _ operand => some operand

def Filter.kind : Filter → FilterKind
  | .identifier _ => .identifier
  | .styleClass _ => .styleClass
  | .attribute _ test => .attribute test.comparison?
  | .structural predicate => .structural predicate
  | .nthChild _ => .nthChild

namespace Event

def kind : Event → Kind
  | .init => .init
  | .close => .close
  | .selector => .selector
  | .head h => .head h.kind
  | .filter f => .filter f.kind
  | .combinator c => .combinator c

def attribute? : Event → Option (QualifiedName × Option String)
  | .filter (.attribute name test) => some (name, test.operand?)
  | _ => none

end Event

/-! ## Payloads -/

/-- The names and values of an event, apart from its kind. -/
inductive Payload where
  | bare
  | text (value : String)
  | name (name : QualifiedName)
  | comparison (name : QualifiedName) (operand : String)
  | coefficients (value : Nth)
deriving DecidableEq

inductive Shape where
  | bare
  | text
  | name
  | comparison
  | coefficients
deriving DecidableEq

def Kind.shape : Kind → Shape
  | .head .element | .filter (.attribute none) => .name
  | .filter .identifier | .filter .styleClass => .text
  | .filter (.attribute (some _)) => .comparison
  | .filter .nthChild => .coefficients
  | .init | .close | .selector | .head .universal | .filter (.structural _) | .combinator _ => .bare

def Payload.shape : Payload → Shape
  | .bare => .bare
  | .text _ => .text
  | .name _ => .name
  | .comparison _ _ => .comparison
  | .coefficients _ => .coefficients

namespace Event

def payload : Event → Payload
  | .head (.element name) => .name name
  | .filter (.identifier value) | .filter (.styleClass value) => .text value
  | .filter (.attribute name .present) => .name name
  | .filter (.attribute name (.compares _ operand)) => .comparison name operand
  | .filter (.nthChild value) => .coefficients value
  | .init | .close | .selector | .head .universal | .filter (.structural _) | .combinator _ => .bare

def ofPayload? : Kind → Payload → Option Event
  | .init, .bare => some .init
  | .close, .bare => some .close
  | .selector, .bare => some .selector
  | .head .element, .name name => some (.head (.element name))
  | .head .universal, .bare => some (.head .universal)
  | .filter .identifier, .text value => some (.filter (.identifier value))
  | .filter .styleClass, .text value => some (.filter (.styleClass value))
  | .filter (.attribute none), .name name => some (.filter (.attribute name .present))
  | .filter (.attribute (some c)), .comparison name operand =>
    some (.filter (.attribute name (.compares c operand)))
  | .filter (.structural predicate), .bare => some (.filter (.structural predicate))
  | .filter .nthChild, .coefficients value => some (.filter (.nthChild value))
  | .combinator c, .bare => some (.combinator c)
  | _, _ => none

theorem ofPayload?_payload (e : Event) : ofPayload? e.kind e.payload = some e := by
  match e with
  | .init | .close | .selector | .combinator _ => rfl
  | .head (.element _) | .head .universal => rfl
  | .filter (.identifier _) | .filter (.styleClass _) => rfl
  | .filter (.attribute _ .present) | .filter (.attribute _ (.compares _ _)) => rfl
  | .filter (.structural _) | .filter (.nthChild _) => rfl

theorem shape_payload (e : Event) : e.payload.shape = e.kind.shape := by
  match e with
  | .init | .close | .selector | .combinator _ => rfl
  | .head (.element _) | .head .universal => rfl
  | .filter (.identifier _) | .filter (.styleClass _) => rfl
  | .filter (.attribute _ .present) | .filter (.attribute _ (.compares _ _)) => rfl
  | .filter (.structural _) | .filter (.nthChild _) => rfl

end Event

end SelectorStream
