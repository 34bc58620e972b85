/-
# `SelectorStream.Receiver` — what takes in a stream

A receiver has a state of its own and may share a world with other receivers,
such as clocks.  A call hands it one event; it answers, and its state and the
world move on, whether it accepts the event or not.  The errors that it rejects
with are a type of its own choice.
-/
import SelectorStream.Event.Basic
import SelectorStream.Notice

namespace SelectorStream

/-- The answer to a call: accepted, or rejected for a reason. -/
abbrev Answer (E : Type) := Except E Unit

structure Outcome (E S W : Type) where
  answer : Answer E
  state : S
  world : W
  notices : List Notice := []

def Outcome.map {E S T W : Type} (wrap : S → T) (outcome : Outcome E S W) : Outcome E T W :=
  { outcome with state := wrap outcome.state }

/-- States of type `S` take in events, in a world `W`, and reject some with an
error of type `E`. -/
class Receiver (E : outParam Type) (S W : Type) where
  receive : Event → S → W → Outcome E S W

end SelectorStream
