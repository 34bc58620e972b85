/-
# `SelectorStream.Proofs.Notices` — what the notices of a call tell

A tee leaves notices before and after those of its sides, so the notices of a
whole relay are nested.  Read in order they tell the way of the event down the
tree and the way of the answer up again: first the tees that admitted the event,
in preorder, and, if the call fails, the node that turned it away and then the
tees from there up to the root.

A call either is forwarded by every tee (`Relay.Forwarded`), or fails at the end
of a path (`Relay.FailedAt`); `Relay.forwarded_or_failedAt` says so for every
relay, by induction on the tree.  The two ways differ in their prominent
notices, so the outcome can be told from the notices:

    Relay.notices_tell_outcome
-/
import SelectorStream.Proofs.Course

namespace SelectorStream

def routine (notices : List Notice) : List Notice :=
  notices.filter fun notice => notice.level = .trace

def prominent (notices : List Notice) : List Notice :=
  notices.filter fun notice => notice.level = .debug

/-- Tees that forward a call, each with its own position before it. -/
def forwards (kind : Kind) (guards : List Pass) : List Notice :=
  guards.map fun guard => ⟨kind, guard.position, .forwarding⟩

theorem level_forwards (kind : Kind) (guards : List Pass) :
    ∀ notice ∈ forwards kind guards, notice.level = .trace := by
  intro notice hm
  obtain ⟨_, _, rfl⟩ := List.mem_map.mp hm
  rfl

theorem routine_append_prominent {traces debugs : List Notice}
    (hTraces : ∀ notice ∈ traces, notice.level = .trace)
    (hDebugs : ∀ notice ∈ debugs, notice.level = .debug) :
    routine (traces ++ debugs) = traces ∧ prominent (traces ++ debugs) = debugs := by
  have hNoDebug : prominent traces = [] :=
    List.filter_eq_nil_iff.mpr fun notice hm => by simp [hTraces notice hm]
  have hNoTrace : routine debugs = [] :=
    List.filter_eq_nil_iff.mpr fun notice hm => by simp [hDebugs notice hm]
  have hAllTrace : routine traces = traces :=
    List.filter_eq_self.mpr fun notice hm => by simp [hTraces notice hm]
  have hAllDebug : prominent debugs = debugs :=
    List.filter_eq_self.mpr fun notice hm => by simp [hDebugs notice hm]
  rw [routine, prominent, List.filter_append, List.filter_append]
  exact ⟨by rw [← routine, ← routine, hAllTrace, hNoTrace, List.append_nil],
    by rw [← prominent, ← prominent, hNoDebug, hAllDebug, List.nil_append]⟩

/-! ## Receivers that leave notices -/

variable {E L W : Type} [OfViolation E] [Receiver E L W]

variable (W) in
/-- Among receivers the checkers leave the notices of a validator, and the others
leave none. -/
structure Reporting (checker? : L → Option Validator) : Prop where
  checker : ∀ {l v}, checker? l = some v → ∀ e (w : W),
    (Receiver.receive e l w).answer = (v.check e).1.mapError ofViolation ∧
      (Receiver.receive e l w).notices = v.notices e
  silent : ∀ {l}, checker? l = none → ∀ e (w : W), (Receiver.receive e l w).notices = []

namespace Relay

/-- The root of a relay leaves a notice when it turns a call away. -/
def reports (checker? : L → Option Validator) : Relay L → Bool
  | .leaf l => (checker? l).isSome
  | .tee _ _ _ => true

/-- A node turns an event away, in a world, and leaves its own notices: one if it
is a tee or a checker. -/
inductive TurnsAway (checker? : L → Option Validator) (e : Event) (w : W) :
    Relay L → E → List Notice → Prop where
  | refused {guard : Pass} {primary secondary : Relay L} {violation : Violation} :
    guard.accept e.kind = .error violation →
    TurnsAway checker? e w (.tee guard primary secondary) (ofViolation violation)
      [⟨e.kind, guard.position, .refused violation⟩]
  | violated {l : L} {v : Validator} {violation : Violation} :
    checker? l = some v → (v.check e).1 = .error violation →
    TurnsAway checker? e w (.leaf l) (ofViolation violation)
      [⟨e.kind, v.pass.position, .violated violation⟩]
  | rejected {l : L} {rejection : E} :
    checker? l = none → (Receiver.receive e l w).answer = .error rejection →
    TurnsAway checker? e w (.leaf l) rejection []

namespace TurnsAway

variable {checker? : L → Option Validator} {e : Event} {w : W} {node : Relay L}
  {rejection : E} {own : List Notice}

theorem level (turnsAway : TurnsAway checker? e w node rejection own) :
    ∀ notice ∈ own, notice.level = .debug := by
  intro notice hm
  cases turnsAway with
  | refused _ | violated _ _ => rw [List.mem_singleton.mp hm]; rfl
  | rejected _ _ => cases hm

theorem length_own (turnsAway : TurnsAway checker? e w node rejection own) :
    own.length = if node.reports checker? then 1 else 0 := by
  cases turnsAway with
  | refused _ => rfl
  | violated hChecker _ => simp [reports, hChecker]
  | rejected hNone _ => simp [reports, hNone]

theorem violation? (turnsAway : TurnsAway checker? e w node rejection own) :
    ∀ notice ∈ own, ∃ violation,
      notice.violation? = some violation ∧ rejection = ofViolation violation := by
  intro notice hm
  cases turnsAway with
  | @refused _ _ _ violation _ | @violated _ _ violation _ _ =>
      exact ⟨violation, by rw [List.mem_singleton.mp hm]; rfl, rfl⟩
  | rejected _ _ => cases hm

end TurnsAway

/-! ## Along a path -/

/-- The guards before the node that a path leads to, in preorder. -/
def guardsBefore : List Side → Relay L → List Pass
  | .primary :: path, .tee guard primary _ => guard :: primary.guardsBefore path
  | .secondary :: path, .tee guard primary secondary =>
    guard :: (primary.guards ++ secondary.guardsBefore path)
  | _, _ => []

def leavesBefore : List Side → Relay L → List L
  | .primary :: path, .tee _ primary _ => primary.leavesBefore path
  | .secondary :: path, .tee _ primary secondary => primary.leaves ++ secondary.leavesBefore path
  | _, _ => []

/-- The tees on a path from its end up to the root, each with the side on which
the call failed. -/
def passedUp (kind : Kind) : List Side → Relay L → List Notice
  | .primary :: path, .tee guard primary _ =>
    primary.passedUp kind path ++ [⟨kind, guard.position, .primaryRejected⟩]
  | .secondary :: path, .tee guard _ secondary =>
    secondary.passedUp kind path ++ [⟨kind, guard.position, .secondaryRejected⟩]
  | _, _ => []

theorem report_of_mem_passedUp (kind : Kind) (path : List Side) : ∀ relay : Relay L,
    ∀ notice ∈ relay.passedUp kind path,
      notice.report = .primaryRejected ∨ notice.report = .secondaryRejected := by
  induction path with
  | nil => intro relay notice hm; cases hm
  | cons side path ih =>
      intro relay notice hm
      cases relay with
      | leaf l => cases side <;> cases hm
      | tee guard primary secondary =>
          cases side with
          | primary =>
              rcases List.mem_append.mp hm with hm | hm
              · exact ih primary notice hm
              · exact .inl (by rw [List.mem_singleton.mp hm])
          | secondary =>
              rcases List.mem_append.mp hm with hm | hm
              · exact ih secondary notice hm
              · exact .inr (by rw [List.mem_singleton.mp hm])

theorem level_passedUp (kind : Kind) (path : List Side) (relay : Relay L) :
    ∀ notice ∈ relay.passedUp kind path, notice.level = .debug := by
  intro notice hm
  rcases report_of_mem_passedUp kind path relay notice hm with h | h <;> rw [Notice.level, h]

theorem violation?_passedUp (kind : Kind) (path : List Side) (relay : Relay L) :
    ∀ notice ∈ relay.passedUp kind path, notice.violation? = none := by
  intro notice hm
  rcases report_of_mem_passedUp kind path relay notice hm with h | h <;> rw [Notice.violation?, h]

theorem length_passedUp (kind : Kind) (path : List Side) : ∀ {relay node : Relay L},
    relay.get? path = some node → (relay.passedUp kind path).length = path.length := by
  induction path with
  | nil => intro relay node _; rfl
  | cons side path ih =>
      intro relay node h
      cases relay with
      | leaf l => cases side <;> cases h
      | tee guard primary secondary =>
          cases side with
          | primary => exact List.length_append.trans (congrArg (· + 1) (ih h))
          | secondary => exact List.length_append.trans (congrArg (· + 1) (ih h))

/-! ## Two ways for a call to end -/

/-- Every tee forwards the event, and every leaf accepts it. -/
structure Forwarded (relay : Relay L) (e : Event) (called : Outcome E (Relay L) W) : Prop where
  answer : called.answer = .ok ()
  notices : called.notices = forwards e.kind relay.guards
  admits : relay.Admits e.kind
  guards : called.state.guards = relay.guards.map (·.settle e.kind)

/-- The event fails at the node that a path leads to.  The tees before that node
have admitted the event, which shows in their guards, and the leaves before it
have had it; no other tee has moved on. -/
structure FailedAt (checker? : L → Option Validator) (relay : Relay L) (e : Event) (w : W)
    (called : Outcome E (Relay L) W) (rejection : E) (path : List Side) (node : Relay L)
    (own : List Notice) : Prop where
  answer : called.answer = .error rejection
  get? : relay.get? path = some node
  turnsAway : TurnsAway checker? e (visit e (relay.leavesBefore path) w).2 node rejection own
  notices : called.notices =
    forwards e.kind (relay.guardsBefore path) ++ (own ++ relay.passedUp e.kind path)
  admits : ∀ guard ∈ relay.guardsBefore path, ∃ next, guard.accept e.kind = .ok next
  guards : ∃ others, relay.guards = relay.guardsBefore path ++ others ∧
    called.state.guards = (relay.guardsBefore path).map (·.settle e.kind) ++ others

section Tee

variable {checker? : L → Option Validator} {guard next : Pass} {primary secondary : Relay L}
  {e : Event} {w : W} {rejection : E} {path : List Side} {node : Relay L}
  {own : List Notice}

theorem FailedAt.of_primary (h : guard.accept e.kind = .ok next)
    (failed : FailedAt checker? primary e w (deliver e primary w) rejection path node own)
    (secondary : Relay L) :
    let relay := tee guard primary secondary
    FailedAt checker? relay e w (deliver e relay w) rejection (.primary :: path) node own := by
  obtain ⟨hAnswer, hState, _⟩ := deliver_tee_of_rejected h failed.answer secondary
  obtain ⟨others, hBefore, hAfter⟩ := failed.guards
  refine ⟨hAnswer, failed.get?, failed.turnsAway, ?_, ?_, others ++ secondary.guards, ?_, ?_⟩
  · simp only [deliver, h, failed.answer, failed.notices]
    simp [forwards, guardsBefore, passedUp]
  · exact List.forall_mem_cons.mpr ⟨⟨next, h⟩, failed.admits⟩
  · simp [Relay.guards, guardsBefore, hBefore]
  · simp [hState, Relay.guards, guardsBefore, hAfter, Pass.settle_of_ok h]

theorem FailedAt.of_secondary (h : guard.accept e.kind = .ok next)
    (first : Forwarded primary e (deliver e primary w))
    (failed : FailedAt checker? secondary e (deliver e primary w).world
      (deliver e secondary (deliver e primary w).world) rejection path node own) :
    let relay := tee guard primary secondary
    FailedAt checker? relay e w (deliver e relay w) rejection (.secondary :: path) node own := by
  obtain ⟨hAnswer, hState, _⟩ := deliver_tee_of_accepted h first.answer secondary
  obtain ⟨others, hBefore, hAfter⟩ := failed.guards
  have visits := visits_deliver primary e w
  have hWorld : (deliver e primary w).world = (visit e primary.leaves w).2 := by
    rw [visits.world, (visits.answer_ok.mp first.answer).1, List.take_length]
  refine ⟨hAnswer.trans failed.answer, failed.get?, ?_, ?_, ?_, others, ?_, ?_⟩
  · rw [leavesBefore, visit_append, ← hWorld]
    exact failed.turnsAway
  · simp only [deliver, h, first.answer, failed.answer, first.notices, failed.notices]
    simp [forwards, guardsBefore, passedUp]
  · refine List.forall_mem_cons.mpr ⟨⟨next, h⟩, fun own hm => ?_⟩
    rcases List.mem_append.mp hm with hm | hm
    · exact first.admits own hm
    · exact failed.admits own hm
  · simp [Relay.guards, guardsBefore, hBefore]
  · simp [hState, Relay.guards, guardsBefore, first.guards, hAfter, Pass.settle_of_ok h]

theorem Forwarded.of_sides (h : guard.accept e.kind = .ok next)
    (first : Forwarded primary e (deliver e primary w))
    (second : Forwarded secondary e (deliver e secondary (deliver e primary w).world)) :
    let relay := tee guard primary secondary
    Forwarded relay e (deliver e relay w) := by
  obtain ⟨hAnswer, hState, _⟩ := deliver_tee_of_accepted h first.answer secondary
  refine ⟨hAnswer.trans second.answer, ?_, ?_, ?_⟩
  · simp only [deliver, h, first.answer, second.answer, first.notices, second.notices]
    simp [forwards, Relay.guards]
  · exact forall_guards_tee.mpr ⟨⟨next, h⟩, first.admits, second.admits⟩
  · simp [hState, Relay.guards, first.guards, second.guards, Pass.settle_of_ok h]

end Tee

theorem forwarded_or_failedAt_leaf {checker? : L → Option Validator}
    (reporting : Reporting W checker?) (e : Event) (l : L) (w : W) :
    Forwarded (leaf l) e (deliver e (leaf l) w) ∨
      ∃ rejection own,
        FailedAt checker? (leaf l) e w (deliver e (leaf l) w) rejection [] (leaf l) own := by
  have called : deliver e (leaf l) w = (Receiver.receive e l w).map leaf := rfl
  cases hChecker : checker? l with
  | none =>
      have hSilent := reporting.silent hChecker e w
      cases hAnswer : (Receiver.receive e l w).answer with
      | ok _ => exact .inl ⟨hAnswer, hSilent, List.forall_mem_nil _, rfl⟩
      | error rejection =>
          exact .inr ⟨rejection, [], hAnswer, rfl, .rejected hChecker hAnswer, hSilent,
            List.forall_mem_nil _, [], rfl, rfl⟩
  | some v =>
      obtain ⟨hAnswer, hNotices⟩ := reporting.checker hChecker e w
      rw [Validator.notices] at hNotices
      cases hVerdict : (v.check e).1 with
      | ok _ =>
          rw [hVerdict] at hAnswer hNotices
          exact .inl ⟨hAnswer, hNotices, List.forall_mem_nil _, rfl⟩
      | error violation =>
          rw [hVerdict] at hAnswer hNotices
          exact .inr ⟨ofViolation violation, _, hAnswer, rfl, .violated hChecker hVerdict, hNotices,
            List.forall_mem_nil _, [], rfl, rfl⟩

/-- Every call ends in one of the two ways. -/
theorem forwarded_or_failedAt {checker? : L → Option Validator}
    (reporting : Reporting W checker?) (e : Event) : ∀ (relay : Relay L) (w : W),
    Forwarded relay e (deliver e relay w) ∨
      ∃ rejection path node own,
        FailedAt checker? relay e w (deliver e relay w) rejection path node own := by
  intro relay
  induction relay with
  | leaf l =>
      intro w
      rcases forwarded_or_failedAt_leaf reporting e l w with forwarded | ⟨rejection, own, failed⟩
      · exact .inl forwarded
      · exact .inr ⟨rejection, [], leaf l, own, failed⟩
  | tee guard primary secondary ihp ihs =>
      intro w
      cases hAccept : guard.accept e.kind with
      | error violation =>
          refine .inr ⟨ofViolation violation, [], _, _, ?_, rfl, .refused hAccept, ?_,
            List.forall_mem_nil _, _, rfl, ?_⟩
          · rw [deliver_tee_of_refused hAccept]
          · rw [deliver_tee_of_refused hAccept]; rfl
          · rw [deliver_tee_of_refused hAccept]; rfl
      | ok next =>
          rcases ihp w with first | ⟨rejection, path, node, own, failed⟩
          · rcases ihs (deliver e primary w).world with second | ⟨rejection, path, node, own, failed⟩
            · exact .inl (.of_sides hAccept first second)
            · exact .inr ⟨rejection, .secondary :: path, node, own, .of_secondary hAccept first failed⟩
          · exact .inr ⟨rejection, .primary :: path, node, own, failed.of_primary hAccept secondary⟩

/-! ## What the notices tell -/

structure Told (checker? : L → Option Validator) (relay : Relay L) (e : Event) (w : W)
    (called : Outcome E (Relay L) W) : Prop where
  blocks : called.notices = routine called.notices ++ prominent called.notices
  answer_ok : called.answer = .ok () ↔ prominent called.notices = []
  accepted : called.answer = .ok () →
    Forwarded relay e called ∧ routine called.notices = forwards e.kind relay.guards
  /-- A call that fails is forwarded by the tees before the failing node.  The
  prominent notices begin with that node's own, which bears the violation that
  the answer reports, and go on with those of the tees up to the root. -/
  rejected : ∀ rejection, called.answer = .error rejection → ∃ path node own,
    FailedAt checker? relay e w called rejection path node own ∧
      routine called.notices = forwards e.kind (relay.guardsBefore path) ∧
      prominent called.notices = own ++ relay.passedUp e.kind path ∧
      (own.length = if node.reports checker? then 1 else 0) ∧
      ∀ notice ∈ own, ∃ violation,
        notice.violation? = some violation ∧ rejection = ofViolation violation

theorem told_deliver {checker? : L → Option Validator} (reporting : Reporting W checker?)
    {relay : Relay L} (hRoot : relay.reports checker? = true) (e : Event) (w : W) :
    Told checker? relay e w (deliver e relay w) := by
  rcases forwarded_or_failedAt reporting e relay w with
    forwarded | ⟨rejection, path, node, own, failed⟩
  · obtain ⟨hRoutine, hProminent⟩ := routine_append_prominent
      (level_forwards e.kind relay.guards)
      (fun notice hm => absurd hm List.not_mem_nil)
    rw [List.append_nil, ← forwarded.notices] at hRoutine hProminent
    refine ⟨?_, ⟨fun _ => hProminent, fun _ => forwarded.answer⟩,
      fun _ => ⟨forwarded, hRoutine.trans forwarded.notices⟩, fun rejection hError => ?_⟩
    · rw [hRoutine, hProminent, List.append_nil]
    · rw [forwarded.answer] at hError
      cases hError
  · have hLevel : ∀ notice ∈ own ++ relay.passedUp e.kind path, notice.level = .debug := by
      intro notice hm
      rcases List.mem_append.mp hm with hm | hm
      · exact failed.turnsAway.level notice hm
      · exact level_passedUp e.kind path relay notice hm
    obtain ⟨hRoutine, hProminent⟩ := routine_append_prominent
      (level_forwards e.kind (relay.guardsBefore path)) hLevel
    rw [← failed.notices] at hRoutine hProminent
    -- A failing root leaves a notice itself, and any other node is below a tee.
    have hSome : own ++ relay.passedUp e.kind path ≠ [] := by
      intro hNone
      obtain ⟨hOwn, hUp⟩ := List.append_eq_nil_iff.mp hNone
      have hLength := length_passedUp e.kind path failed.get?
      rw [hUp] at hLength
      obtain rfl := List.eq_nil_of_length_eq_zero hLength.symm
      obtain rfl := Option.some.inj failed.get?
      have hOne := failed.turnsAway.length_own
      rw [hOwn, hRoot] at hOne
      cases hOne
    refine ⟨?_, ⟨fun hOk => ?_, fun hNone => ?_⟩, fun hOk => ?_, fun other hError => ?_⟩
    · rw [hRoutine, hProminent, ← failed.notices]
    · rw [failed.answer] at hOk
      cases hOk
    · exact absurd (hProminent.symm.trans hNone) hSome
    · rw [failed.answer] at hOk
      cases hOk
    · obtain rfl := Except.error.inj (failed.answer.symm.trans hError)
      exact ⟨path, node, own, failed, hRoutine, hProminent, failed.turnsAway.length_own,
        failed.turnsAway.violation?⟩

end Relay

def Endpoint.checker? : Endpoint → Option Validator
  | .checker v => some v
  | _ => none

theorem Endpoint.reporting : Reporting Clocks Endpoint.checker? where
  checker := by
    intro endpoint v h e clocks
    cases endpoint with
    | checker own => obtain rfl := Option.some.inj h; exact ⟨rfl, rfl⟩
    | recorder _ | sink | tally _ => cases h
  silent := by
    intro endpoint h e clocks
    cases endpoint with
    | checker own => cases h
    | recorder _ | sink | tally _ => rfl

def checkerOf? {A : Type} (receiver : Checker E ⊕ A) : Option Validator :=
  receiver.getLeft?.map Checker.validator

theorem reporting_sum {A : Type} [Receiver E A W]
    (silent : ∀ e (a : A) (w : W), (Receiver.receive e a w).notices = []) :
    Reporting W (checkerOf? : Checker E ⊕ A → Option Validator) where
  checker := by
    intro receiver v h e w
    cases receiver with
    | inl own => obtain rfl := Option.some.inj h; exact ⟨rfl, rfl⟩
    | inr a => cases h
  silent := by
    intro receiver h e w
    cases receiver with
    | inl own => cases h
    | inr a => exact silent e a w

namespace Relay

/-- The notices of a call tell its outcome, whatever state the relay is in, if
its root is a tee or a checker.

The leaves may be checkers and any receivers that leave no notices of their own,
as all other receivers of a session do.  Where calls are rejected as in a session,
a violation in a prominent notice has the words of the answer. -/
theorem notices_tell_outcome :
    (∀ {E A W : Type} [OfViolation E] [Receiver E A W],
      (∀ e (a : A) (w : W), (Receiver.receive e a w).notices = []) →
      ∀ relay : Relay (Checker E ⊕ A), relay.reports checkerOf? = true → ∀ (e : Event) (w : W),
        Told checkerOf? relay e w (deliver e relay w)) ∧
    (∀ relay : Relay Endpoint, relay.reports Endpoint.checker? = true →
      ∀ (e : Event) (clocks : Clocks),
        Told Endpoint.checker? relay e clocks (deliver e relay clocks)) ∧
    ∀ {L W : Type} [Receiver Rejection L W] {checker? : L → Option Validator} {relay : Relay L}
        {e : Event} {w : W}, Told checker? relay e w (deliver e relay w) →
      ∀ rejection, (deliver e relay w).answer = .error rejection →
        ∀ notice ∈ prominent (deliver e relay w).notices, ∀ violation,
          notice.violation? = some violation → violation.message = rejection.message := by
  refine ⟨?_, ?_, ?_⟩
  · intro E A W _ _ silent relay hRoot e w
    exact told_deliver (reporting_sum silent) hRoot e w
  · intro relay hRoot e clocks
    exact told_deliver Endpoint.reporting hRoot e clocks
  · intro L W _ checker? relay e w told rejection hError notice hm violation hViolation
    obtain ⟨path, node, own, _, _, hProminent, _, hOwn⟩ := told.rejected rejection hError
    rw [hProminent] at hm
    rcases List.mem_append.mp hm with hm | hm
    · obtain ⟨violation', hViolation', rfl⟩ := hOwn notice hm
      rw [Option.some.inj (hViolation.symm.trans hViolation')]
      rfl
    · rw [violation?_passedUp e.kind path relay notice hm] at hViolation
      cases hViolation

/-- A checker that has not seen `init`, below a tee that lags behind the root: two
tees forward the event, the checker finds a violation, and two tees pass the
failure up.  The same with recorders for the receivers that accept everything. -/
theorem notices_of_unopened_checker :
    let unopened : Validator := {}
    let violation : Violation := ⟨0, .refusal (.notOpened .selector)⟩
    let relay : Relay Endpoint :=
      .tee ⟨.opened, 3⟩ (.leaf .sink) (.tee ⟨.opened, 1⟩ (.leaf (.checker unopened)) (.leaf .sink))
    let recorder : Relay (Checker Rejection ⊕ Recorder) := .leaf (.inr { clock := "main" })
    let recorded : Relay (Checker Rejection ⊕ Recorder) :=
      .tee ⟨.opened, 3⟩ recorder (.tee ⟨.opened, 1⟩ (.leaf (.inl ⟨unopened⟩)) recorder)
    (∀ e (r : Recorder) (clocks : Clocks), (Receiver.receive e r clocks).notices = []) ∧
      recorded.reports checkerOf? = true ∧ relay.reports Endpoint.checker? = true ∧
      (deliver .selector relay ({} : Clocks)).notices =
        [⟨.selector, 3, .forwarding⟩, ⟨.selector, 1, .forwarding⟩,
          ⟨.selector, 0, .violated violation⟩,
          ⟨.selector, 1, .primaryRejected⟩, ⟨.selector, 3, .secondaryRejected⟩] ∧
      Told checkerOf? recorded .selector ({} : Clocks) (deliver .selector recorded {}) ∧
      Told Endpoint.checker? relay .selector ({} : Clocks) (deliver .selector relay {}) ∧
      (deliver .selector relay ({} : Clocks)).answer = .error (.violation violation) ∧
      violation.message = (Rejection.violation violation).message := by
  intro unopened violation relay recorder recorded
  have silent : ∀ e (r : Recorder) (clocks : Clocks), (Receiver.receive e r clocks).notices = [] :=
    fun _ _ _ => rfl
  have told := notices_tell_outcome.2.1 relay rfl .selector {}
  have hError : (deliver .selector relay ({} : Clocks)).answer = .error (.violation violation) := rfl
  have hm : ⟨.selector, 0, .violated violation⟩ ∈
      prominent (deliver .selector relay ({} : Clocks)).notices := .head _
  exact ⟨silent, rfl, rfl, rfl, notices_tell_outcome.1 silent recorded rfl .selector {}, told,
    hError, notices_tell_outcome.2.2 told _ hError _ hm violation rfl⟩

/-- A receiver that accepts everything and leaves a notice each time. -/
structure Herald where
  notice : Notice

instance : Receiver Rejection Herald W where
  receive _ herald w := { answer := .ok (), state := herald, world := w, notices := [herald.notice] }

/-- A prominent notice of a receiver that accepts the event is taken for a failure,
so other receivers than checkers have to be silent. -/
theorem not_told_of_herald :
    let herald : Herald := ⟨⟨.init, 0, .primaryRejected⟩⟩
    let relay : Relay (Checker Rejection ⊕ Herald) :=
      pair (.leaf (.inl ⟨.fresh {}⟩)) (.leaf (.inr herald))
    relay.reports checkerOf? = true ∧ (deliver .init relay ()).answer = .ok () ∧
      ¬ Told checkerOf? relay .init () (deliver .init relay ()) := by
  intro herald relay
  have hOk : (deliver .init relay ()).answer = .ok () := rfl
  refine ⟨rfl, hOk, fun told => ?_⟩
  cases told.answer_ok.mp hOk

end Relay

end SelectorStream
