/-
# `SelectorStream.Notice` — what a call reports along the way

Tees and validators leave a notice of what they did with a call.  A notice
names the kind of the event and the position that the reporter itself had
before the call.  Forwarding is routine and reported at the finest level; what
goes wrong is reported one level above.
-/
import SelectorStream.Violation

namespace SelectorStream

inductive Report where
  | violated (violation : Violation)
  | refused (violation : Violation)
  | forwarding
  /-- The primary side rejected the event, so the secondary does not get it. -/
  | primaryRejected
  /-- The secondary side rejected the event after the primary accepted it. -/
  | secondaryRejected
deriving DecidableEq

inductive Level where
  | trace
  | debug
deriving DecidableEq

structure Notice where
  kind : Kind
  /-- The position of the reporter before the call. -/
  position : Nat
  report : Report
deriving DecidableEq

def Level.name : Level → String
  | .trace => "TRACE"
  | .debug => "DEBUG"

namespace Notice

def level (notice : Notice) : Level :=
  match notice.report with
  | .forwarding => .trace
  | .violated _ | .refused _ | .primaryRejected | .secondaryRejected => .debug

def message (notice : Notice) : String :=
  match notice.report with
  | .violated _ => "selector event stream violates the call sequence"
  | .refused _ => "tee refused event"
  | .forwarding => "tee forwarding event"
  | .primaryRejected => "primary generator rejected event; secondary skipped"
  | .secondaryRejected => "secondary generator rejected event after primary accepted it"

def violation? (notice : Notice) : Option Violation :=
  match notice.report with
  | .violated v | .refused v => some v
  | .forwarding | .primaryRejected | .secondaryRejected => none

end Notice

end SelectorStream
