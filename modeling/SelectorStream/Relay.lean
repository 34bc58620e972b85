/-
# `SelectorStream.Relay` — one stream for several receivers

A relay is a tree whose leaves are receivers and whose inner nodes are tees.
A tee guards the bracket of the stream with a pass of its own.  What the guard
admits goes to the primary side, and once the primary side has accepted it to
the secondary side; the first rejection ends the call and is its answer.
Nothing is taken back: the guard has moved on, and so has every receiver that
got the event.

Leaves are of any type of receivers, so what holds of `deliver` holds whatever
the receivers do and whatever errors they reject with.  Of the errors a tee
needs to know only how a violation becomes one.
-/
import SelectorStream.Pass
import SelectorStream.Receiver
import SelectorStream.Rejection
import SelectorStream.Trail

namespace SelectorStream

/-- A tree of tees over receivers. -/
inductive Relay (L : Type) where
  | leaf (receiver : L)
  | tee (guard : Pass) (primary secondary : Relay L)

inductive Side where
  | primary
  | secondary
deriving DecidableEq

namespace Relay

variable {E L W : Type} [OfViolation E]

def pair (primary secondary : Relay L) : Relay L :=
  .tee .fresh primary secondary

def pair? : Option (Relay L) → Option (Relay L) → Except MissingSide (Relay L)
  | none, _ => .error .primary
  | some _, none => .error .secondary
  | some primary, some secondary => .ok (pair primary secondary)

def leaves : Relay L → List L
  | .leaf l => [l]
  | .tee _ primary secondary => primary.leaves ++ secondary.leaves

/-! ## Calls -/

/-- Sends one event to a relay. -/
def deliver [Receiver E L W] (e : Event) : Relay L → W → Outcome E (Relay L) W
  | .leaf l, w => (Receiver.receive e l w).map .leaf
  | .tee guard primary secondary, w =>
    let notice := Notice.mk e.kind guard.position
    match guard.accept e.kind with
    | .error violation =>
      ⟨.error (ofViolation violation), .tee guard primary secondary, w, [notice (.refused violation)]⟩
    | .ok guard =>
      let first := deliver e primary w
      match first.answer with
      | .error rejection =>
        ⟨.error rejection, .tee guard first.state secondary, first.world,
          notice .forwarding :: (first.notices ++ [notice .primaryRejected])⟩
      | .ok () =>
        let second := deliver e secondary first.world
        let state := .tee guard first.state second.state
        let notices := notice .forwarding :: (first.notices ++ second.notices)
        match second.answer with
        | .error rejection =>
          ⟨.error rejection, state, second.world, notices ++ [notice .secondaryRejected]⟩
        | .ok () => ⟨.ok (), state, second.world, notices⟩

/-- Sends the rest of a stream to a relay, after the notices of what was sent
before. -/
def replayAfter [Receiver E L W] (past : Trail Notice) :
    List Event → Relay L → W → Outcome E (Relay L) W
  | [], relay, w => ⟨.ok (), relay, w, past.toList⟩
  | e :: rest, relay, w =>
    match deliver e relay w with
    | ⟨.ok (), relay, w, notices⟩ => replayAfter (past.pushAll notices) rest relay w
    | ⟨.error rejection, relay, w, notices⟩ =>
      ⟨.error rejection, relay, w, (past.pushAll notices).toList⟩

/-- Sends a stream to a relay, up to the first event that is rejected. -/
def replay [Receiver E L W] (stream : List Event) (relay : Relay L) (w : W) :
    Outcome E (Relay L) W :=
  replayAfter .empty stream relay w

theorem replayAfter_eq [Receiver E L W] (past : Trail Notice) (stream : List Event)
    (relay : Relay L) (w : W) :
    replayAfter past stream relay w =
      { replay stream relay w with notices := past.toList ++ (replay stream relay w).notices } := by
  induction stream generalizing past relay w with
  | nil => simp [replay, replayAfter]
  | cons e rest ih =>
    simp only [replay, replayAfter]
    split
    · rename_i notices _
      rw [ih (past.pushAll notices), ih (Trail.empty.pushAll notices)]
      simp
    · simp

theorem replay_nil [Receiver E L W] (relay : Relay L) (w : W) :
    replay [] relay w = ⟨.ok (), relay, w, []⟩ := rfl

theorem replay_cons_of_ok [Receiver E L W] {e : Event} {relay : Relay L} {w : W}
    (h : (deliver e relay w).answer = .ok ()) (rest : List Event) :
    replay (e :: rest) relay w =
      let first := deliver e relay w
      let last := replay rest first.state first.world
      { last with notices := first.notices ++ last.notices } := by
  rcases called : deliver e relay w with ⟨answer, state, world, notices⟩
  simp only [called] at h
  subst h
  simp only [replay, replayAfter, called]
  rw [replayAfter_eq]
  simp [replay]

theorem replay_cons_of_error [Receiver E L W] {e : Event} {relay : Relay L} {w : W}
    {rejection : E} (h : (deliver e relay w).answer = .error rejection)
    (rest : List Event) :
    replay (e :: rest) relay w = deliver e relay w := by
  rcases called : deliver e relay w with ⟨answer, state, world, notices⟩
  simp only [called] at h
  subst h
  simp [replay, replayAfter, called]

/-! ## Places in a relay -/

def get? : List Side → Relay L → Option (Relay L)
  | [], relay => some relay
  | .primary :: path, .tee _ primary _ => primary.get? path
  | .secondary :: path, .tee _ _ secondary => secondary.get? path
  | _ :: _, .leaf _ => none

/-- The relay with another subtree where a path leads; a path that leads
nowhere changes nothing. -/
def set : List Side → Relay L → Relay L → Relay L
  | [], _, subtree => subtree
  | .primary :: path, .tee guard primary secondary, subtree =>
    .tee guard (primary.set path subtree) secondary
  | .secondary :: path, .tee guard primary secondary, subtree =>
    .tee guard primary (secondary.set path subtree)
  | _ :: _, .leaf l, _ => .leaf l

def sides? : Relay L → Option (Relay L × Relay L)
  | .leaf _ => none
  | .tee _ primary secondary => some (primary, secondary)

/-- The nodes of a relay in preorder: a tee's guard, or a receiver. -/
def nodes : Relay L → List (Pass ⊕ L)
  | .leaf l => [.inr l]
  | .tee guard primary secondary => .inl guard :: (primary.nodes ++ secondary.nodes)

end Relay

end SelectorStream
