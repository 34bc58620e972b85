/-
# `SelectorStream.Rejection` — why a call fails

A receiver rejects a call because it does not support the construct, because
the call breaks the rules of the stream, or for a reason of its own.  These are
the errors of the receivers of a session; nothing that is said of tees depends
on the choice, since a tee passes the error of a receiver on as it is.
-/
import SelectorStream.Violation

namespace SelectorStream

inductive Rejection where
  | unsupported (construct : Kind)
  | violation (violation : Violation)
  | failed (reason : String)
deriving DecidableEq

def Rejection.message : Rejection → String
  | .unsupported construct => "unsupported construct " ++ ticked construct.name
  | .violation v => v.message
  | .failed reason => "generator failed: " ++ reason

instance : OfViolation Rejection := ⟨.violation⟩

inductive MissingSide where
  | primary
  | secondary
deriving DecidableEq

namespace MissingSide

def message : MissingSide → String
  | .primary => "primary generator is required"
  | .secondary => "secondary generator is required"

def code : MissingSide → String
  | .primary => "tee::missing_primary"
  | .secondary => "tee::missing_secondary"

end MissingSide

end SelectorStream
