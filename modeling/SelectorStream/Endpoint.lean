/-
# `SelectorStream.Endpoint` — the receivers at the leaves of a session

Four receivers can stand at a leaf: a recorder, a checker that lets a validator
judge the stream, a sink that takes in everything, and a tally that counts its
calls and may fail on one kind.  A checker's and a sink's state can be
described on one line.

In a session all of them reject with a `Rejection`.  A checker can stand among
receivers with other errors too; `Checker` is the checker for these.
-/
import SelectorStream.Recorder
import SelectorStream.Validator

namespace SelectorStream

structure Tally where
  calls : Nat := 0
  failsOn : Option Kind := none
  reason : String := ""

inductive Endpoint where
  | recorder (recorder : Recorder)
  | checker (validator : Validator)
  | sink
  | tally (tally : Tally)

def Tally.receive {W : Type} (e : Event) (t : Tally) (w : W) : Outcome Rejection Tally W :=
  { answer := if t.failsOn = some e.kind then .error (.failed t.reason) else .ok ()
    state := { t with calls := t.calls + 1 }
    world := w }

def Validator.receive {E W : Type} [OfViolation E] (e : Event) (v : Validator) (w : W) :
    Outcome E Validator W :=
  let (verdict, after) := v.check e
  { answer := verdict.mapError ofViolation, state := after, world := w, notices := v.notices e }

/-- A receiver that lets a validator judge the stream, with errors of type `E`. -/
structure Checker (E : Type) where
  validator : Validator

instance {E W : Type} [OfViolation E] : Receiver E (Checker E) W where
  receive e checker w := (checker.validator.receive e w).map Checker.mk

namespace Endpoint

def receive (e : Event) (endpoint : Endpoint) (clocks : Clocks) :
    Outcome Rejection Endpoint Clocks :=
  match endpoint with
  | .recorder r => (r.receive e clocks).map .recorder
  | .checker v => (v.receive e clocks).map .checker
  | .sink => { answer := .ok (), state := .sink, world := clocks }
  | .tally t => (t.receive e clocks).map .tally

instance : Receiver Rejection Endpoint Clocks := ⟨receive⟩

def recorder? : Endpoint → Option Recorder
  | .recorder r => some r
  | _ => none

end Endpoint

/-! ## Descriptions -/

def describeParts (name : String) (parts : List (String × String)) : String :=
  name ++ " \x7b " ++ ", ".intercalate (parts.map fun (label, value) => label ++ ": " ++ value)
    ++ " \x7d"

def describeBool (b : Bool) : String :=
  if b then "true" else "false"

def Limits.describe (limits : Limits) : String :=
  describeParts "ValidatorConfig" [
    ("max_alternatives", Decimal.text limits.maxAlternatives),
    ("max_sequence_len", Decimal.text limits.maxComponents),
    ("allow_empty_list", describeBool limits.allowEmptyList),
    ("reject_unsatisfiable_nth", describeBool limits.rejectUnsatisfiable)]

def Pass.describe (pass : Pass) : String :=
  describeParts "Lifecycle" [
    ("phase", pass.phase.name),
    ("position", Decimal.text pass.position)]

def Validator.describe (v : Validator) : String :=
  describeParts "SequenceValidator" [
    ("config", v.limits.describe),
    ("lifecycle", v.pass.describe),
    ("in_selector", describeBool v.place.inSelector),
    ("alternatives", Decimal.text v.place.alternatives),
    ("sequence", "[" ++ ", ".intercalate (v.place.compound.toList.map Kind.tag) ++ "]")]

def Endpoint.describe? : Endpoint → Option String
  | .checker v => some (describeParts "ContractChecker" [("validator", v.describe)])
  | .sink => some "NullGenerator"
  | .recorder _ | .tally _ => none

end SelectorStream
