/-
# `SelectorStream.Proofs.Journal` — who received what

What a relay hands to its leaves cannot be read off its answers.  So the leaves
are numbered, from left to right, and the world is given a journal, into which
every leaf writes the calls it receives together with its answer.  The leaves
write it themselves: the journal knows nothing of tees.

`Relay.deliver_number` says that keeping the journal changes neither answers
nor states nor notices.  What is said of the journal is therefore said of the
relay as it is without one; `receipts` are the entries of one call, `journal`
those of a whole stream.
-/
import SelectorStream.Relay

namespace SelectorStream

/-! ## Streams that go on after errors -/

namespace Receiver

variable {E S W : Type} [Receiver E S W]

/-- State and world after a stream, all of which is sent, whatever the
answers. -/
def run : List Event → S → W → S × W
  | [], s, w => (s, w)
  | e :: rest, s, w =>
    let called := receive e s w
    run rest called.state called.world

theorem run_concat (past : List Event) (e : Event) : ∀ (s : S) (w : W),
    run (past ++ [e]) s w =
      let before := run past s w
      let called := receive e before.1 before.2
      (called.state, called.world) := by
  induction past with
  | nil => intro s w; rfl
  | cons first past ih => intro s w; exact ih _ _

end Receiver

instance {E L W : Type} [OfViolation E] [Receiver E L W] : Receiver E (Relay L) W :=
  ⟨Relay.deliver⟩

/-- Receivers of two sorts are receivers, if they reject with the same errors. -/
instance {E A B W : Type} [Receiver E A W] [Receiver E B W] : Receiver E (A ⊕ B) W where
  receive
    | e, .inl a, w => (Receiver.receive e a w).map .inl
    | e, .inr b, w => (Receiver.receive e b w).map .inr

/-! ## One call of a tee

The guard refuses the event, or the primary side rejects it, or the secondary
side has the last word. -/

namespace Relay

variable {E L W : Type} [OfViolation E] [Receiver E L W]

section Tee

variable {guard next : Pass} {primary secondary : Relay L} {e : Event} {w : W}

theorem deliver_tee_of_refused {violation : Violation}
    (h : guard.accept e.kind = .error violation) :
    deliver e (.tee guard primary secondary) w =
      ⟨.error (ofViolation violation), .tee guard primary secondary, w,
        [⟨e.kind, guard.position, .refused violation⟩]⟩ := by
  simp only [deliver, h]

theorem deliver_tee_of_rejected {rejection : E} (h : guard.accept e.kind = .ok next)
    (hp : (deliver e primary w).answer = .error rejection) (secondary : Relay L) :
    let called := deliver e (.tee guard primary secondary) w
    called.answer = .error rejection ∧
      called.state = .tee next (deliver e primary w).state secondary ∧
      called.world = (deliver e primary w).world := by
  simp only [deliver, h, hp, and_self]

theorem deliver_tee_of_accepted (h : guard.accept e.kind = .ok next)
    (hp : (deliver e primary w).answer = .ok ()) (secondary : Relay L) :
    let called := deliver e (.tee guard primary secondary) w
    let last := deliver e secondary (deliver e primary w).world
    called.answer = last.answer ∧
      called.state = .tee next (deliver e primary w).state last.state ∧
      called.world = last.world := by
  simp only [deliver, h, hp]
  cases hs : (deliver e secondary (deliver e primary w).world).answer <;> simp

end Tee

end Relay

/-! ## Journals -/

structure Receipt (E : Type) where
  receiver : Nat
  event : Event
  answer : Answer E

structure Numbered (L : Type) where
  number : Nat
  receiver : L

structure Journaled (E W : Type) where
  world : W
  journal : List (Receipt E)

instance {E L W : Type} [Receiver E L W] : Receiver E (Numbered L) (Journaled E W) where
  receive e l w :=
    let called := Receiver.receive e l.receiver w.world
    { answer := called.answer
      state := { l with receiver := called.state }
      world := ⟨called.world, w.journal ++ [⟨l.number, e, called.answer⟩]⟩
      notices := called.notices }

def receivedBy {E : Type} (i : Nat) (journal : List (Receipt E)) : List Event :=
  (journal.filter fun receipt => receipt.receiver = i).map Receipt.event

def acceptedBy {E : Type} (i : Nat) (journal : List (Receipt E)) : List Event :=
  (journal.filter fun receipt => receipt.receiver = i && receipt.answer.isOk).map Receipt.event

namespace Relay

variable {E L W : Type} [OfViolation E] [Receiver E L W]

/-- The relay with its leaves numbered from left to right. -/
def number (n : Nat) : Relay L → Relay (Numbered L)
  | .leaf l => .leaf ⟨n, l⟩
  | .tee guard primary secondary =>
    .tee guard (primary.number n) (secondary.number (n + primary.leaves.length))

/-- The entries of one call, the leaves being numbered from `n`. -/
def receiptsFrom (relay : Relay L) (n : Nat) (e : Event) (w : W) : List (Receipt E) :=
  (deliver e (relay.number n) (Journaled.mk (E := E) w [])).world.journal

def receipts (relay : Relay L) (e : Event) (w : W) : List (Receipt E) :=
  relay.receiptsFrom 0 e w

def journal (relay : Relay L) (stream : List Event) (w : W) : List (Receipt E) :=
  (Receiver.run stream (relay.number 0) (Journaled.mk (E := E) w [])).2.journal

theorem length_leaves_deliver (e : Event) : ∀ (relay : Relay L) (w : W),
    (deliver e relay w).state.leaves.length = relay.leaves.length := by
  intro relay
  induction relay with
  | leaf l => intro w; rfl
  | tee guard primary secondary ihp ihs =>
      intro w
      simp only [deliver]
      cases guard.accept e.kind with
      | error violation => rfl
      | ok next =>
          simp only
          cases (deliver e primary w).answer with
          | error rejection => simp [leaves, ihp]
          | ok _ =>
              simp only
              cases (deliver e secondary (deliver e primary w).world).answer <;>
                simp [leaves, ihp, ihs]

/-- Keeping a journal changes nothing else. -/
theorem deliver_number (e : Event) : ∀ (relay : Relay L) (n : Nat) (w : W)
    (past : List (Receipt E)),
    deliver e (relay.number n) (Journaled.mk w past) =
      let called := deliver e relay w
      ⟨called.answer, called.state.number n,
        ⟨called.world, past ++ relay.receiptsFrom n e w⟩, called.notices⟩ := by
  intro relay
  induction relay with
  | leaf l => intro n w past; rfl
  | tee guard primary secondary ihp ihs =>
      intro n w past
      simp only [receiptsFrom, number, deliver]
      cases guard.accept e.kind with
      | error violation => simp [number]
      | ok next =>
          simp only [ihp n w]
          cases hp : (deliver e primary w).answer with
          | error rejection => simp [number, length_leaves_deliver]
          | ok _ =>
              simp only [ihs]
              cases hs : (deliver e secondary (deliver e primary w).world).answer <;>
                simp [number, length_leaves_deliver]

section Tee

variable {guard next : Pass} {primary secondary : Relay L} {n : Nat} {e : Event} {w : W}

theorem receiptsFrom_leaf (n : Nat) (e : Event) (l : L) (w : W) :
    receiptsFrom (.leaf l) n e w = [⟨n, e, (Receiver.receive e l w).answer⟩] := rfl

theorem receiptsFrom_tee_of_refused {violation : Violation}
    (h : guard.accept e.kind = .error violation) :
    receiptsFrom (.tee guard primary secondary) n e w = [] := by
  simp only [receiptsFrom, number, deliver, h]

theorem receiptsFrom_tee_of_rejected {rejection : E} (h : guard.accept e.kind = .ok next)
    (hp : (deliver e primary w).answer = .error rejection) (secondary : Relay L) :
    receiptsFrom (.tee guard primary secondary) n e w = primary.receiptsFrom n e w := by
  have hn : (deliver e (primary.number n) (Journaled.mk (E := E) w [])).answer = .error rejection := by
    rw [deliver_number]
    exact hp
  exact congrArg Journaled.journal (deliver_tee_of_rejected h hn _).2.2

theorem receiptsFrom_tee_of_accepted (h : guard.accept e.kind = .ok next)
    (hp : (deliver e primary w).answer = .ok ()) (secondary : Relay L) :
    receiptsFrom (.tee guard primary secondary) n e w = primary.receiptsFrom n e w ++
      secondary.receiptsFrom (n + primary.leaves.length) e (deliver e primary w).world := by
  have hn : (deliver e (primary.number n) (Journaled.mk (E := E) w [])).answer = .ok () := by
    rw [deliver_number]
    exact hp
  have hw : (deliver e (primary.number n) (Journaled.mk (E := E) w [])).world =
      ⟨(deliver e primary w).world, primary.receiptsFrom n e w⟩ := by
    rw [deliver_number]
    rfl
  rw [receiptsFrom, number, (deliver_tee_of_accepted h hn _).2.2, hw, deliver_number]

end Tee

/-! ## Streams -/

theorem run_number (stream : List Event) : ∀ (relay : Relay L) (w : W) (past : List (Receipt E)),
    Receiver.run stream (relay.number 0) (Journaled.mk w past) =
      ((Receiver.run stream relay w).1.number 0,
        ⟨(Receiver.run stream relay w).2, past ++ relay.journal stream w⟩) := by
  induction stream with
  | nil => intro relay w past; simp [Receiver.run, journal]
  | cons e rest ih =>
      intro relay w past
      have step : ∀ past, Receiver.run (e :: rest) (relay.number 0) (Journaled.mk w past) =
          Receiver.run rest ((deliver e relay w).state.number 0)
            (Journaled.mk (deliver e relay w).world (past ++ relay.receipts e w)) := by
        intro past
        show Receiver.run rest (deliver e (relay.number 0) (Journaled.mk w past)).state
          (deliver e (relay.number 0) (Journaled.mk w past)).world = _
        rw [deliver_number]
        rfl
      have entries : relay.journal (e :: rest) w = relay.receipts e w ++
          (deliver e relay w).state.journal rest (deliver e relay w).world := by
        rw [journal, step, ih]
        rfl
      rw [step, ih, entries, List.append_assoc]
      rfl

theorem journal_concat (past : List Event) (e : Event) (relay : Relay L) (w : W) :
    relay.journal (past ++ [e]) w = relay.journal past w ++
      (Receiver.run past relay w).1.receipts e (Receiver.run past relay w).2 := by
  have before := run_number past relay w []
  rw [journal, Receiver.run_concat, before]
  show (deliver e _ (Journaled.mk _ _)).world.journal = _
  rw [deliver_number]
  rfl

end Relay

end SelectorStream
