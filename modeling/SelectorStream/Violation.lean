/-
# `SelectorStream.Violation` — calls that break the rules of a stream

A violation is a cause and the position of the call that is at fault, counted
in accepted calls.  Causes are of two sorts.  A *refusal* concerns the bracket
of the stream, `init` before everything and `close` after everything; it leaves
the stream usable.  A *breach* concerns the grammar inside the bracket and ends
the stream.
-/
import SelectorStream.Event.Kind
import SelectorStream.Text.Decimal

namespace SelectorStream

inductive Refusal where
  | notOpened (kind : Kind)
  | reopened
  | afterClose (kind : Kind)
  /-- A breach of the grammar has ended the stream. -/
  | afterBreach (kind : Kind)
deriving DecidableEq

/-- How a call breaks the grammar inside the bracket. -/
inductive Breach where
  | missingSelector (kind : Kind)
  /-- A head in a compound that has begun, after its last component. -/
  | misplacedHead (kind after : Kind)
  | danglingCombinator (kind : Kind)
  /-- An alternative that ends without a compound, and what ends it. -/
  | emptyCompound (kind : Kind)
  | emptyList
  | tooManyAlternatives (limit : Nat)
  | compoundTooLong (limit : Nat)
  /-- Positions that no element has. -/
  | unsatisfiableNth (step offset : Int32)
deriving DecidableEq

inductive Cause where
  | refusal (refusal : Refusal)
  | breach (breach : Breach)
deriving DecidableEq

structure Violation where
  /-- How many calls were accepted before. -/
  position : Nat
  cause : Cause
deriving DecidableEq

/-- A type of errors with an error for every violation.  Whoever finds a
violation reports it in the errors that its caller works with. -/
class OfViolation (E : Type) where
  ofViolation : Violation → E

export OfViolation (ofViolation)

/-! ## Messages -/

def ticked (name : String) : String :=
  "`" ++ name ++ "`"

def Refusal.message (position : String) : Refusal → String
  | .notOpened kind => ticked kind.name ++ " at position " ++ position ++ " arrived before `init`"
  | .reopened =>
    "`init` at position " ++ position ++ " arrived while a selector list was already open"
  | .afterClose kind => ticked kind.name ++ " at position " ++ position ++ " arrived after `close`"
  | .afterBreach kind =>
    ticked kind.name ++ " at position " ++ position
      ++ " arrived after a grammar violation aborted the parse"

def Breach.message (position : String) : Breach → String
  | .missingSelector kind =>
    ticked kind.name ++ " at position " ++ position ++ " arrived before the first `selector` boundary"
  | .misplacedHead kind after =>
    ticked kind.name ++ " at position " ++ position
      ++ " must open a simple-selector sequence, but follows " ++ ticked after.name
  | .danglingCombinator kind =>
    "combinator " ++ ticked kind.name ++ " at position " ++ position
      ++ " has no simple-selector sequence on its left"
  | .emptyCompound kind =>
    ticked kind.name ++ " at position " ++ position ++ " ends an empty simple-selector sequence"
  | .emptyList => "`close` at position " ++ position ++ " ends a selector list with no selectors"
  | .tooManyAlternatives limit =>
    "selector list exceeds " ++ Decimal.text limit ++ " alternatives at position " ++ position
  | .compoundTooLong limit =>
    "simple-selector sequence exceeds " ++ Decimal.text limit ++ " components at position " ++ position
  | .unsatisfiableNth step offset =>
    "`:nth-child` with a=" ++ Decimal.signedText step.toInt ++ ", b="
      ++ Decimal.signedText offset.toInt ++ " at position " ++ position ++ " can never match"

namespace Violation

def message (v : Violation) : String :=
  match v.cause with
  | .refusal r => r.message (Decimal.text v.position)
  | .breach b => b.message (Decimal.text v.position)

/-- The violation concerns the bracket and leaves the stream usable. -/
def isRefusal (v : Violation) : Bool :=
  match v.cause with
  | .refusal _ => true
  | .breach _ => false

def code (v : Violation) : String :=
  match v.cause with
  | .refusal (.notOpened _) => "sequence::not_initialized"
  | .refusal .reopened => "sequence::already_initialized"
  | .refusal (.afterClose _) => "sequence::after_close"
  | .refusal (.afterBreach _) => "sequence::faulted"
  | .breach (.missingSelector _) => "sequence::missing_selector"
  | .breach (.misplacedHead _ _) => "sequence::misplaced_type"
  | .breach (.danglingCombinator _) => "sequence::dangling_combinator"
  | .breach (.emptyCompound _) => "sequence::empty_sequence"
  | .breach .emptyList => "sequence::empty_list"
  | .breach (.tooManyAlternatives _) => "sequence::too_many_alternatives"
  | .breach (.compoundTooLong _) => "sequence::sequence_too_long"
  | .breach (.unsatisfiableNth _ _) => "sequence::unsatisfiable_nth"

def help? (v : Violation) : Option String :=
  match v.cause with
  | .refusal (.afterBreach _) =>
    some "the stream broke the call-sequence grammar earlier in this pass; start a new pass"
  | _ => none

end Violation

end SelectorStream
