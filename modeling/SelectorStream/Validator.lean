/-
# `SelectorStream.Validator` — checking a stream call by call

A validator judges each event of a stream by the bracket first and by the
grammar second.  Inside the bracket the grammar asks for alternatives, each
begun by `selector`; an alternative is compounds joined by combinators; a
compound is at least one component, and a head only as the first.

`Place` is where a stream stands in the grammar.  `Place.breach?` says which
rule an event would break there, and `Place.after` where an event that breaks
none leads.  A refusal changes nothing; a breach ends the stream.
-/
import SelectorStream.Event.Basic
import SelectorStream.Notice
import SelectorStream.Pass
import SelectorStream.Trail

namespace SelectorStream

structure Limits where
  maxAlternatives : Nat := 1024
  maxComponents : Nat := 256
  /-- A list without alternatives is accepted. -/
  allowEmptyList : Bool := false
  /-- Positions `an+b` that no element has are rejected. -/
  rejectUnsatisfiable : Bool := false
deriving DecidableEq

/-! ## Places in the grammar -/

/-- Where a stream stands inside the bracket. -/
structure Place where
  inSelector : Bool := false
  /-- The number of alternatives that have begun. -/
  alternatives : Nat := 0
  /-- The components of the compound being built. -/
  compound : Trail Kind := .empty
deriving DecidableEq

namespace Place

def fresh : Place := {}

/-- An alternative has begun, and what would have to end it is missing. -/
def endsEmpty (place : Place) : Bool :=
  place.inSelector && place.compound.isEmpty

/-- The compound has no room for another component. -/
def overlong? (place : Place) (limits : Limits) : Option Breach :=
  if limits.maxComponents ≤ place.compound.size then some (.compoundTooLong limits.maxComponents)
  else none

def headBreach? (place : Place) (limits : Limits) (kind : Kind) : Option Breach :=
  if !place.inSelector then some (.missingSelector kind)
  else match place.compound.latest? with
    | some last => some (.misplacedHead kind last)
    | none => place.overlong? limits

def filterBreach? (place : Place) (limits : Limits) (f : Filter) : Option Breach :=
  if !place.inSelector then some (.missingSelector (.filter f.kind))
  else match f with
    | .nthChild x =>
      if limits.rejectUnsatisfiable && x.neverMatches then
        some (.unsatisfiableNth x.step x.offset)
      else place.overlong? limits
    | _ => place.overlong? limits

/-- The rule that an event would break. -/
def breach? (place : Place) (limits : Limits) : Event → Option Breach
  | .init => none
  | .close =>
    if place.endsEmpty then some (.emptyCompound .close)
    else if place.alternatives = 0 && !limits.allowEmptyList then some .emptyList
    else none
  | .selector =>
    if place.endsEmpty then some (.emptyCompound .selector)
    else if limits.maxAlternatives ≤ place.alternatives then
      some (.tooManyAlternatives limits.maxAlternatives)
    else none
  | .head h => place.headBreach? limits (.head h.kind)
  | .filter f => place.filterBreach? limits f
  | .combinator c =>
    if !place.inSelector then some (.missingSelector (.combinator c))
    else if place.compound.isEmpty then some (.danglingCombinator (.combinator c))
    else none

/-- Where an event leads that breaks no rule. -/
def after (place : Place) : Event → Place
  | .init => place
  | .close | .combinator _ => { place with compound := .empty }
  | .selector => ⟨true, place.alternatives + 1, .empty⟩
  | .head h => { place with compound := place.compound.push (.head h.kind) }
  | .filter f => { place with compound := place.compound.push (.filter f.kind) }

/-- Where a breach leaves the stream: the compound before a surplus alternative
has been ended, and nothing else changes. -/
def afterBreach (place : Place) : Breach → Place
  | .tooManyAlternatives _ => { place with compound := .empty }
  | _ => place

end Place

/-! ## Validators -/

structure Validator where
  limits : Limits := {}
  pass : Pass := .fresh
  place : Place := .fresh
deriving DecidableEq

namespace Validator

def fresh (limits : Limits) : Validator :=
  { limits }

def isComplete (v : Validator) : Bool :=
  v.pass.isClosed

/-- The verdict on the next event, and the validator after it. -/
def check (v : Validator) (e : Event) : Except Violation Unit × Validator :=
  match v.pass.accept e.kind with
  | .error violation => (.error violation, v)
  | .ok pass =>
    match v.place.breach? v.limits e with
    | none => (.ok (), { v with pass, place := v.place.after e })
    | some breach =>
      (.error ⟨v.pass.position, .breach breach⟩,
        { v with pass := v.pass.abort, place := v.place.afterBreach breach })

def notices (v : Validator) (e : Event) : List Notice :=
  match (v.check e).1 with
  | .ok _ => []
  | .error violation => [⟨e.kind, v.pass.position, .violated violation⟩]

/-- The validator after a stream, refused and rejected events included. -/
def run (v : Validator) (stream : List Event) : Validator :=
  stream.foldl (fun v e => (v.check e).2) v

end Validator

end SelectorStream
