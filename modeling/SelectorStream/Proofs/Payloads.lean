/-
# `SelectorStream.Proofs.Payloads` — names and values steer nothing

Two streams that differ only in names and values are told apart by nothing but
the logs that keep the events.  The kind of an event and the coefficients of an
`:nth-child` are all that a receiver of a session looks at.

What is left of an event without its names, `Event.bare`, is determined by
these two (`Event.Alike.bare_eq`).  A call with the bare event, of a relay whose
logs hold bare events, is the bare form of the call itself: this holds of the
receivers (`Endpoint.receive_bare`), and tees add nothing to it
(`Relay.deliver_map`).  So a whole run has a bare form, and runs of streams that
are alike share it:

    Relay.payloads_never_steer
-/
import Mathlib.Data.List.Forall2
import SelectorStream.Endpoint
import SelectorStream.Relay

namespace SelectorStream

/-! ## Events without names -/

/-- The event of a kind whose names and values are empty, up to coefficients. -/
def Kind.bareEvent (coefficients : Option Nth) : Kind → Event
  | .init => .init
  | .close => .close
  | .selector => .selector
  | .head .element => .head (.element ⟨.implied, ""⟩)
  | .head .universal => .head .universal
  | .filter .identifier => .filter (.identifier "")
  | .filter .styleClass => .filter (.styleClass "")
  | .filter (.attribute none) => .filter (.attribute ⟨.implied, ""⟩ .present)
  | .filter (.attribute (some c)) => .filter (.attribute ⟨.implied, ""⟩ (.compares c ""))
  | .filter (.structural predicate) => .filter (.structural predicate)
  | .filter .nthChild => .filter (.nthChild (coefficients.getD ⟨0, 0⟩))
  | .combinator c => .combinator c

namespace Event

def nth? : Event → Option Nth
  | .filter (.nthChild coefficients) => some coefficients
  | _ => none

/-- The events differ in names and values only. -/
structure Alike (e e' : Event) : Prop where
  kind : e.kind = e'.kind
  nth? : e.nth? = e'.nth?

def bare (e : Event) : Event :=
  e.kind.bareEvent e.nth?

theorem Alike.bare_eq {e e' : Event} (alike : e.Alike e') : e.bare = e'.bare := by
  rw [bare, bare, alike.kind, alike.nth?]

theorem alike_bare (e : Event) : e.bare.Alike e := by
  match e with
  | .init | .close | .selector | .combinator _ => exact ⟨rfl, rfl⟩
  | .head (.element _) | .head .universal => exact ⟨rfl, rfl⟩
  | .filter (.identifier _) | .filter (.styleClass _) => exact ⟨rfl, rfl⟩
  | .filter (.attribute _ .present) | .filter (.attribute _ (.compares _ _)) => exact ⟨rfl, rfl⟩
  | .filter (.structural _) | .filter (.nthChild _) => exact ⟨rfl, rfl⟩

@[simp] theorem kind_bare (e : Event) : e.bare.kind = e.kind := e.alike_bare.kind

end Event

theorem Place.grammar_bare (place : Place) (limits : Limits) (e : Event) :
    place.breach? limits e.bare = place.breach? limits e ∧ place.after e.bare = place.after e := by
  match e with
  | .init | .close | .selector | .combinator _ => exact ⟨rfl, rfl⟩
  | .head (.element _) | .head .universal => exact ⟨rfl, rfl⟩
  | .filter (.identifier _) | .filter (.styleClass _) => exact ⟨rfl, rfl⟩
  | .filter (.attribute _ .present) | .filter (.attribute _ (.compares _ _)) => exact ⟨rfl, rfl⟩
  | .filter (.structural _) | .filter (.nthChild _) => exact ⟨rfl, rfl⟩

/-! ## Receivers -/

theorem Validator.check_bare (v : Validator) (e : Event) : v.check e.bare = v.check e := by
  obtain ⟨hBreach, hAfter⟩ := v.place.grammar_bare v.limits e
  simp only [check, Event.kind_bare, hBreach, hAfter]

theorem Validator.receive_bare {E W : Type} [OfViolation E] (v : Validator) (e : Event) (w : W) :
    (v.receive e.bare w : Outcome E Validator W) = v.receive e w := by
  simp only [receive, notices, check_bare, Event.kind_bare]

def Entry.bare (entry : Entry) : Entry :=
  { entry with event := entry.event.bare }

def Log.bare (log : Log) : Log :=
  .ofList (log.toList.map Entry.bare)

theorem Log.bare_push (log : Log) (entry : Entry) :
    (log.push entry).bare = log.bare.push entry.bare := by
  have hItems : (log.push entry).bare.toList = (log.bare.push entry.bare).toList := by
    simp [bare]
  exact congrArg Log.mk (Trail.toList_inj.mp hItems)

def Recorder.bare (r : Recorder) : Recorder :=
  { r with log := r.log.bare }

theorem Recorder.receive_bare (r : Recorder) (e : Event) (clocks : Clocks) :
    r.bare.receive e.bare clocks = (r.receive e clocks).map bare := by
  simp only [receive, bare, Outcome.map, Event.kind_bare, Log.bare_push, Entry.bare]

namespace Endpoint

def bare : Endpoint → Endpoint
  | .recorder r => .recorder r.bare
  | other => other

theorem receive_bare (e : Event) (endpoint : Endpoint) (clocks : Clocks) :
    Receiver.receive e.bare endpoint.bare clocks = (Receiver.receive e endpoint clocks).map bare := by
  cases endpoint with
  | recorder r => exact congrArg (Outcome.map recorder) (r.receive_bare e clocks)
  | checker v => exact congrArg (Outcome.map checker) (v.receive_bare e clocks)
  | sink => rfl
  | tally t =>
      show (t.receive e.bare clocks).map tally = (t.receive e clocks).map tally
      rw [Tally.receive, Tally.receive, Event.kind_bare]

end Endpoint

namespace Relay

/-! ## Relays -/

section Map

variable {E L M W : Type}

def map (view : L → M) : Relay L → Relay M
  | .leaf l => .leaf (view l)
  | .tee guard primary secondary => .tee guard (primary.map view) (secondary.map view)

variable [OfViolation E] [Receiver E L W] [Receiver E M W]

/-- A correspondence of calls at the leaves is one of calls of relays: tees
look at the kind of an event and at the answers alone. -/
theorem deliver_map {view : L → M} {e e' : Event} (hKind : e'.kind = e.kind)
    (hView : ∀ (l : L) (w : W),
      Receiver.receive e' (view l) w = (Receiver.receive e l w).map view) :
    ∀ (relay : Relay L) (w : W),
      deliver e' (relay.map view) w = (deliver e relay w).map (map view) := by
  intro relay
  induction relay with
  | leaf l =>
      intro w
      show (Receiver.receive e' (view l) w).map leaf = _
      rw [hView]
      rfl
  | tee guard primary secondary ihp ihs =>
      intro w
      simp only [map, deliver, hKind, ihp, ihs]
      cases guard.accept e.kind with
      | error violation => rfl
      | ok next =>
          obtain ⟨answer, state, world, notices⟩ := deliver e primary w
          cases answer with
          | error rejection => rfl
          | ok _ =>
              simp only [Outcome.map]
              cases (deliver e secondary world).answer <;> rfl

/-- What the calls of a stream leave behind one after the other, whatever the
answers. -/
def outcomes (relay : Relay L) : List Event → W → List (Outcome E (Relay L) W)
  | [], _ => []
  | e :: rest, w =>
    let called := deliver e relay w
    called :: called.state.outcomes rest called.world

end Map

theorem outcomes_bare : ∀ (stream : List Event) (relay : Relay Endpoint) (clocks : Clocks),
    (relay.map Endpoint.bare).outcomes (stream.map Event.bare) clocks =
      (relay.outcomes stream clocks).map (Outcome.map (map Endpoint.bare)) := by
  intro stream
  induction stream with
  | nil => intro relay clocks; rfl
  | cons e rest ih =>
      intro relay clocks
      have hCalled := deliver_map e.kind_bare (Endpoint.receive_bare e) relay clocks
      simp only [List.map_cons, outcomes, hCalled]
      exact congrArg (_ :: ·) (ih _ _)

/-- Names and values steer nothing, whatever a relay of a session is and whatever
state it is in.

Two streams whose events agree in kind and in coefficients get the same answers,
call by call, and leave the same notices and clocks.  After each call the two
relays differ in nothing but the names and values of the events in their
logs. -/
theorem payloads_never_steer : ∀ (relay : Relay Endpoint) (clocks : Clocks)
    (stream stream' : List Event), List.Forall₂ Event.Alike stream stream' →
      (relay.outcomes stream clocks).map (Outcome.map (map Endpoint.bare)) =
        (relay.outcomes stream' clocks).map (Outcome.map (map Endpoint.bare)) := by
  intro relay clocks stream stream' hAlike
  have hBare : stream.map Event.bare = stream'.map Event.bare := by
    induction hAlike with
    | nil => rfl
    | cons alike _ ih => rw [List.map_cons, List.map_cons, alike.bare_eq, ih]
  rw [← outcomes_bare, ← outcomes_bare, hBare]

/-- A checker beside a recorder that fails on the first identifier: another
identifier makes no difference, although the log keeps it. -/
theorem payloads_never_steer_identifier :
    let relay : Relay Endpoint := pair (.leaf (.checker {}))
      (.leaf (.recorder (.withFaults "main" [(.filter .identifier, 1)])))
    let stream name : List Event := [.init, .selector, .filter (.identifier name)]
    List.Forall₂ Event.Alike (stream "a") (stream "*") ∧
      (relay.outcomes (stream "a") ({} : Clocks)).map (Outcome.map (map Endpoint.bare)) =
        (relay.outcomes (stream "*") ({} : Clocks)).map (Outcome.map (map Endpoint.bare)) := by
  intro relay stream
  have hAlike : List.Forall₂ Event.Alike (stream "a") (stream "*") :=
    .cons ⟨rfl, rfl⟩ (.cons ⟨rfl, rfl⟩ (.cons ⟨rfl, rfl⟩ .nil))
  exact ⟨hAlike, payloads_never_steer relay {} _ _ hAlike⟩

end Relay

end SelectorStream
