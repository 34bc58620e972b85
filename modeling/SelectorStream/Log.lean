/-
# `SelectorStream.Log` — what a receiver was sent

A log lists the calls a receiver got, in order, each with the stamp it was
given and whether it was accepted.  Its `histogram` counts the calls of each
kind.  Two logs of one stream can be compared call by call: `isBefore` holds
when both saw the same events and the first was stamped earlier every time.
-/
import SelectorStream.Event.Css
import SelectorStream.Trail

namespace SelectorStream

structure Entry where
  /-- The stamp taken when the call arrived. -/
  stamp : Nat
  event : Event
  /-- False when the receiver rejected the call. -/
  accepted : Bool
deriving DecidableEq

def Entry.isBefore (ours theirs : Entry) : Bool :=
  ours.event = theirs.event && ours.stamp < theirs.stamp

/-- Recorded calls, the oldest first. -/
structure Log where
  entries : Trail Entry := .empty
deriving DecidableEq

namespace Log

def toList (log : Log) : List Entry :=
  log.entries.toList

def ofList (entries : List Entry) : Log :=
  ⟨.ofList entries⟩

def push (log : Log) (entry : Entry) : Log :=
  ⟨log.entries.push entry⟩

def size (log : Log) : Nat :=
  log.entries.size

def events (log : Log) : List Event :=
  log.toList.map Entry.event

def kinds (log : Log) : List Kind :=
  log.events.map Event.kind

/-- Counts with one more of a kind: its count grows by one, and a kind without a
count gets one. -/
def increment (kind : Kind) : List (Kind × Nat) → List (Kind × Nat)
  | [] => [(kind, 1)]
  | (other, n) :: rest =>
    if other = kind then (other, n + 1) :: rest else (other, n) :: increment kind rest

def tally (kinds : List Kind) : List (Kind × Nat) :=
  kinds.foldl (fun counts kind => increment kind counts) []

/-- How often each kind occurs, for the kinds that occur, in the order of the
kinds. -/
def histogram (log : Log) : List (Kind × Nat) :=
  (tally log.kinds).mergeSort fun a b => a.1.rank ≤ b.1.rank

/-- Entry for entry the same events, each stamped earlier on our side. -/
def isBefore (ours theirs : Log) : Bool :=
  ours.size = theirs.size && (ours.toList.zip theirs.toList).all fun (a, b) => a.isBefore b

@[simp] theorem toList_push (log : Log) (entry : Entry) :
    (log.push entry).toList = log.toList ++ [entry] := by
  simp [toList, push]

@[simp] theorem toList_ofList (entries : List Entry) : (ofList entries).toList = entries := by
  simp [toList, ofList]

theorem size_eq_length_toList (log : Log) : log.size = log.toList.length :=
  log.entries.size_eq_length_toList

end Log

end SelectorStream
