/-
# `SelectorStream.Recorder` — a receiver that remembers, and may fail on demand

A recorder logs every call with a stamp of its clock.  Its faults make it
reject chosen calls: a fault names a kind and an occurrence, counted from one
over all calls of that kind, the rejected ones included.  Each fault counts for
itself, so several may name one kind; the occurrence zero never comes.
-/
import SelectorStream.Clocks
import SelectorStream.Log
import SelectorStream.Receiver
import SelectorStream.Rejection

namespace SelectorStream

structure Fault where
  kind : Kind
  /-- Which call of the kind, counted from one. -/
  occurrence : Nat
  seen : Nat := 0
deriving DecidableEq

namespace Fault

def observe (kind : Kind) (fault : Fault) : Fault :=
  if fault.kind = kind then { fault with seen := fault.seen + 1 } else fault

/-- The fault rejects the call of its kind that it has just observed. -/
def fires (kind : Kind) (fault : Fault) : Bool :=
  fault.kind = kind && fault.seen = fault.occurrence

end Fault

structure Recorder where
  clock : String
  log : Log := {}
  faults : List Fault := []

namespace Recorder

def withFaults (clock : String) (faults : List (Kind × Nat)) : Recorder :=
  { clock, faults := faults.map fun (kind, occurrence) => { kind, occurrence } }

def receive (e : Event) (r : Recorder) (clocks : Clocks) : Outcome Rejection Recorder Clocks :=
  let faults := r.faults.map (Fault.observe e.kind)
  let rejected := faults.any (Fault.fires e.kind)
  let (stamp, clocks) := clocks.tick r.clock
  { answer := if rejected then .error (.unsupported e.kind) else .ok ()
    state := { r with log := r.log.push ⟨stamp, e, !rejected⟩, faults }
    world := clocks }

instance : Receiver Rejection Recorder Clocks := ⟨receive⟩

theorem toList_log_receive (e : Event) (r : Recorder) (clocks : Clocks) :
    (r.receive e clocks).state.log.toList =
      r.log.toList ++ [⟨clocks.now r.clock, e, (r.receive e clocks).answer.isOk⟩] := by
  simp only [receive, Log.toList_push, Clocks.stamp_tick]
  cases (r.faults.map (Fault.observe e.kind)).any (Fault.fires e.kind) <;> rfl

end Recorder

end SelectorStream
