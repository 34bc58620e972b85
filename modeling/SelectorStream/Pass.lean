/-
# `SelectorStream.Pass` — the bracket of a stream

    idle --init--> opened --close--> closed
      \________ breach ________> faulted

Nothing may come before `init` or after `close`, and nothing after a breach of
the grammar.  `Phase.next` is the automaton; a pass adds the number of admitted
calls, which is the position of the next one.  A refused call leaves the pass
as it was, because `Pass.accept` then returns no pass at all.
-/
import SelectorStream.Violation

namespace SelectorStream

inductive Phase where
  | idle
  | opened
  | closed
  /-- The stream broke the grammar and is over. -/
  | faulted
deriving DecidableEq

namespace Phase

/-- The phase after a call of a kind, or why the call is turned away. -/
def next : Phase → Kind → Except Refusal Phase
  | .idle, .init => .ok .opened
  | .idle, kind => .error (.notOpened kind)
  | .opened, .init => .error .reopened
  | .opened, .close => .ok .closed
  | .opened, _ => .ok .opened
  | .closed, kind => .error (.afterClose kind)
  | .faulted, kind => .error (.afterBreach kind)

def name : Phase → String
  | .idle => "Idle"
  | .opened => "Open"
  | .closed => "Closed"
  | .faulted => "Faulted"

end Phase

structure Pass where
  phase : Phase := .idle
  /-- The number of admitted calls. -/
  position : Nat := 0
deriving DecidableEq

namespace Pass

def fresh : Pass := {}

def isOpened (pass : Pass) : Bool :=
  pass.phase = .opened

def isClosed (pass : Pass) : Bool :=
  pass.phase = .closed

/-- The pass after a call of a kind, or the violation that the call is. -/
def accept (pass : Pass) (kind : Kind) : Except Violation Pass :=
  match pass.phase.next kind with
  | .ok phase => .ok ⟨phase, pass.position + 1⟩
  | .error refusal => .error ⟨pass.position, .refusal refusal⟩

def abort (pass : Pass) : Pass :=
  { pass with phase := .faulted }

end Pass

end SelectorStream
