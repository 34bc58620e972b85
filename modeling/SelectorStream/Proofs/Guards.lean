/-
# `SelectorStream.Proofs.Guards` — what rejections do to the guards of a tree

A tee lets its guard move on before it asks its sides.  So a guard follows the
calls that its tee gets, whatever the sides answer, and a rejection tells in two
ways only.  The guard of the tee itself has moved although the call failed, which
changes its phase if the event was `init` or `close`:

    Relay.failure_keeps_phase_iff

And the tees behind the leaf that rejects do not get the call.  `Relay.Reaches`
says which nodes a call gets to; it moves the guards of the tees among them and
no others (`Relay.guardAt?_of_reaches`, `Relay.guardAt?_of_not_reaches`).  In a
tree of fresh tees this has a lasting effect if the event was `init`: the tees
that have missed it refuse whatever comes later.  `Relay.Standing` is the
invariant that says that nothing else can go wrong inside the tree:

    Relay.inner_refusal_of_denied_init
-/
import SelectorStream.Proofs.Notices

namespace SelectorStream

namespace Pass

theorem accept_fresh {e : Event} (h : e ≠ .init) :
    Pass.fresh.accept e.kind = .error ⟨0, .refusal (.notOpened e.kind)⟩ := by
  cases e with
  | init => exact absurd rfl h
  | _ => rfl

theorem count_init_admitted {pass : Pass} {e : Event} (h : e ≠ .init) :
    (pass.admitted [e]).count .init = 0 := by
  cases hAccept : pass.accept e.kind with
  | error violation => rw [admitted_of_error hAccept, List.count_nil]
  | ok next => rw [admitted_of_ok hAccept, List.count_singleton, beq_false_of_ne h]; rfl

end Pass

variable {E L W : Type} [OfViolation E] [Receiver E L W]

namespace Relay

/-! ## A failure and the guard of the tee -/

section Failure

variable {guard next : Pass} {primary secondary : Relay L} {e : Event} {w : W}

theorem exists_state_of_admitted (h : guard.accept e.kind = .ok next)
    (primary secondary : Relay L) (w : W) :
    ∃ other, (deliver e (tee guard primary secondary) w).state =
      .tee next (deliver e primary w).state other := by
  cases hFirst : (deliver e primary w).answer with
  | error rejection => exact ⟨secondary, (deliver_tee_of_rejected h hFirst secondary).2.1⟩
  | ok _ => exact ⟨_, (deliver_tee_of_accepted h hFirst secondary).2.1⟩

theorem error_of_side (h : guard.accept e.kind = .ok next) {rejection : E}
    (hFailed : (deliver e (tee guard primary secondary) w).answer = .error rejection) :
    (deliver e primary w).answer = .error rejection ∨
      (deliver e primary w).answer = .ok () ∧
        (deliver e secondary (deliver e primary w).world).answer = .error rejection := by
  cases hFirst : (deliver e primary w).answer with
  | error own =>
      rw [(deliver_tee_of_rejected h hFirst secondary).1] at hFailed
      exact .inl hFailed
  | ok _ =>
      rw [(deliver_tee_of_accepted h hFirst secondary).1] at hFailed
      exact .inr ⟨rfl, hFailed⟩

end Failure

/-- When a failure leaves the phase of a tee as it was.

The tee may be in any state and have any sides.  It admits an event, and the call
fails on one of the sides.  Then the guard has moved on as if the call had
succeeded: a rejected `init` opens the tee and a rejected `close` closes it, and
any other event keeps the phase. -/
theorem failure_keeps_phase_iff {guard next : Pass} {e : Event}
    (hAdmitted : guard.accept e.kind = .ok next) (primary secondary : Relay L) (w : W)
    {rejection : E}
    (hFailed : (deliver e (tee guard primary secondary) w).answer = .error rejection) :
    let after := (deliver e (tee guard primary secondary) w).state
    ((deliver e primary w).answer = .error rejection ∨
        (deliver e primary w).answer = .ok () ∧
          (deliver e secondary (deliver e primary w).world).answer = .error rejection) ∧
      after.guard? = some next ∧
      (after.guard?.map Pass.phase = some guard.phase ↔ e ≠ .init ∧ e ≠ .close) ∧
      (e = .init → guard.phase = .idle ∧ next.phase = .opened) ∧
      (e = .close → guard.phase = .opened ∧ next.phase = .closed) := by
  intro after
  obtain ⟨other, hState⟩ := exists_state_of_admitted hAdmitted primary secondary w
  have hAfter : after.guard? = some next := by
    show (deliver e _ w).state.guard? = _
    rw [hState]
    rfl
  refine ⟨error_of_side hAdmitted hFailed, hAfter, ?_⟩
  rw [hAfter]
  rcases Pass.accept_eq_ok hAdmitted with ⟨hIdle, rfl, rfl⟩ | ⟨hOpened, rfl, rfl⟩ |
    ⟨hOpened, hInit, hClose, rfl⟩
  · simp [hIdle]
  · simp [hOpened]
  · simp [hOpened, hInit, hClose]

/-- The secondary side rejects `selector`; the tee stays open. -/
theorem phase_after_rejected_selector :
    let primary : Relay Endpoint := .leaf .sink
    let secondary : Relay Endpoint := .leaf (.recorder (.withFaults "main" [(.selector, 1)]))
    let called := deliver .selector (tee ⟨.opened, 1⟩ primary secondary) ({} : Clocks)
    (Pass.mk .opened 1).accept .selector = .ok ⟨.opened, 2⟩ ∧
      called.answer = .error (.unsupported .selector) ∧
      called.state.guard?.map Pass.phase = some .opened := by
  intro primary secondary called
  have hAdmitted : (Pass.mk .opened 1).accept Event.selector.kind = .ok ⟨.opened, 2⟩ := rfl
  have hFailed : called.answer = .error (.unsupported .selector) := rfl
  obtain ⟨_, _, hPhase, _⟩ :=
    failure_keeps_phase_iff hAdmitted primary secondary ({} : Clocks) hFailed
  exact ⟨hAdmitted, hFailed, hPhase.mpr ⟨by decide, by decide⟩⟩

/-- A secondary side that rejects `close` does not keep the tee from closing: the
call fails on that side, the phase is another one after it, and no later event is
forwarded any more. -/
theorem rejected_close_closes :
    let primary : Relay Endpoint := .leaf (.recorder { clock := "main" })
    let secondary : Relay Endpoint := .leaf (.tally { failsOn := some .close, reason := "no" })
    let before := Receiver.run [.init] (pair primary secondary) (Clocks.start {} "main")
    let called := deliver .close before.1 before.2
    before.1.refusal? .close = none ∧ called.answer = .error (.failed "no") ∧
      before.1.guard?.map Pass.phase = some .opened ∧
      called.state.guard?.map Pass.phase = some .closed ∧
      (deliver .selector called.state called.world).answer =
        .error (.violation ⟨2, .refusal (.afterClose .selector)⟩) := by
  exact ⟨rfl, rfl, rfl, rfl, rfl⟩

/-! ## The nodes that a call reaches -/

def guardAt? (path : List Side) (relay : Relay L) : Option Pass :=
  (relay.get? path).bind guard?

theorem guardAt?_leaf (path : List Side) (l : L) : (leaf l).guardAt? path = none := by
  cases path with
  | nil => rfl
  | cons side path => cases side <;> rfl

/-- A call gets to the node that a path leads to: the tees on the path admit the
event, and where the path goes to a secondary side, the primary side accepts it. -/
inductive Reaches (e : Event) : List Side → Relay L → W → Prop where
  | here {relay : Relay L} {w : W} : Reaches e [] relay w
  | primary {path : List Side} {guard next : Pass} {primary secondary : Relay L} {w : W} :
    guard.accept e.kind = .ok next → Reaches e path primary w →
    Reaches e (.primary :: path) (.tee guard primary secondary) w
  | secondary {path : List Side} {guard next : Pass} {primary secondary : Relay L} {w : W} :
    guard.accept e.kind = .ok next → (deliver e primary w).answer = .ok () →
    Reaches e path secondary (deliver e primary w).world →
    Reaches e (.secondary :: path) (.tee guard primary secondary) w

section Reaches

variable {e : Event} {path : List Side} {relay : Relay L} {w : W}

theorem guardAt?_of_reaches (reaches : Reaches e path relay w) :
    (deliver e relay w).state.guardAt? path = (relay.guardAt? path).map (·.settle e.kind) := by
  induction reaches with
  | here => exact guard?_deliver _ _
  | @primary path guard next primary secondary w h _ ih =>
      obtain ⟨other, hState⟩ := exists_state_of_admitted h primary secondary w
      rw [hState]
      exact ih
  | @secondary path guard next primary secondary w h hFirst _ ih =>
      rw [(deliver_tee_of_accepted h hFirst secondary).2.1]
      exact ih

theorem guardAt?_of_not_reaches : ∀ {relay : Relay L} {path : List Side} {w : W},
    ¬ Reaches e path relay w → (deliver e relay w).state.guardAt? path = relay.guardAt? path := by
  intro relay
  induction relay with
  | leaf l =>
      intro path w _
      exact (guardAt?_leaf path _).trans (guardAt?_leaf path l).symm
  | tee guard primary secondary ihp ihs =>
      intro path w h
      cases path with
      | nil => exact absurd .here h
      | cons side path =>
          cases hAccept : guard.accept e.kind with
          | error violation => rw [deliver_tee_of_refused hAccept]
          | ok next =>
              cases side with
              | primary =>
                  obtain ⟨other, hState⟩ := exists_state_of_admitted hAccept primary secondary w
                  rw [hState]
                  exact ihp fun reaches => h (.primary hAccept reaches)
              | secondary =>
                  cases hFirst : (deliver e primary w).answer with
                  | error rejection =>
                      rw [(deliver_tee_of_rejected hAccept hFirst secondary).2.1]
                      rfl
                  | ok _ =>
                      rw [(deliver_tee_of_accepted hAccept hFirst secondary).2.1]
                      exact ihs fun reaches => h (.secondary hAccept hFirst reaches)

theorem Reaches.exists_accept (reaches : Reaches e path relay w) (h : path ≠ []) :
    ∃ guard next, relay.guard? = some guard ∧ guard.accept e.kind = .ok next := by
  cases reaches with
  | here => exact absurd rfl h
  | primary hAccept _ => exact ⟨_, _, rfl, hAccept⟩
  | secondary hAccept _ _ => exact ⟨_, _, rfl, hAccept⟩

theorem exists_rejection_of_admits (admits : relay.Admits e.kind) (n : Nat)
    {rejection : E} (h : (deliver e relay w).answer = .error rejection) :
    ∃ i < relay.leaves.length, ⟨n + i, e, .error rejection⟩ ∈ relay.receiptsFrom n e w := by
  obtain ⟨reached, course⟩ := course_deliver e relay n w
  have hEnds := course.ends
  rw [h] at hEnds
  generalize relay.receiptsFrom n e w = calls at hEnds
  cases hEnds with
  | @rejected i _ hi => exact ⟨i, hi, List.mem_append_right _ List.mem_cons_self⟩
  | refused _ barred =>
      obtain ⟨before, guard, after, hNodes, _, _, hRefused⟩ := barred
      have hm : .inl guard ∈ relay.nodes := hNodes ▸ List.mem_append_right _ List.mem_cons_self
      obtain ⟨next, hAccept⟩ := admits guard (mem_guards_of_mem_nodes hm)
      rw [hAccept] at hRefused
      cases hRefused

/-- What keeps a call that all tees admit from a tee is a leaf on its left. -/
theorem exists_rejection_of_not_reaches (e : Event) :
    ∀ {relay : Relay L} {path : List Side} {guard : Pass}, relay.guardAt? path = some guard →
      ∀ (n : Nat) (w : W), relay.Admits e.kind → ¬ Reaches e path relay w →
        ∃ i < (relay.leavesBefore path).length, ∃ rejection,
          ⟨n + i, e, .error rejection⟩ ∈ relay.receiptsFrom n e w := by
  intro relay
  induction relay with
  | leaf l =>
      intro path guard h
      rw [guardAt?_leaf] at h
      cases h
  | tee own primary secondary ihp ihs =>
      intro path guard h n w admits hNot
      obtain ⟨⟨next, hAccept⟩, hPrimary, hSecondary⟩ := forall_guards_tee.mp admits
      cases path with
      | nil => exact absurd .here hNot
      | cons side path =>
          cases hFirst : (deliver e primary w).answer with
          | error rejection =>
              rw [receiptsFrom_tee_of_rejected hAccept hFirst]
              cases side with
              | primary => exact ihp h n w hPrimary fun reaches => hNot (.primary hAccept reaches)
              | secondary =>
                  obtain ⟨i, hi, hm⟩ := exists_rejection_of_admits hPrimary n hFirst
                  refine ⟨i, ?_, rejection, hm⟩
                  rw [leavesBefore, List.length_append]
                  exact Nat.lt_add_right _ hi
          | ok _ =>
              rw [receiptsFrom_tee_of_accepted hAccept hFirst]
              cases side with
              | primary =>
                  obtain ⟨i, hi, rejection, hm⟩ :=
                    ihp h n w hPrimary fun reaches => hNot (.primary hAccept reaches)
                  exact ⟨i, hi, rejection, List.mem_append_left _ hm⟩
              | secondary =>
                  obtain ⟨i, hi, rejection, hm⟩ := ihs h (n + primary.leaves.length) _ hSecondary
                    fun reaches => hNot (.secondary hAccept hFirst reaches)
                  refine ⟨primary.leaves.length + i, ?_, rejection, List.mem_append_right _ ?_⟩
                  · rw [leavesBefore, List.length_append]
                    exact Nat.add_lt_add_left hi _
                  · rwa [← Nat.add_assoc]

end Reaches

/-! ## Streams over fresh trees -/

def DeniedInit (relay : Relay L) (path : List Side) (entries : List (Receipt E)) : Prop :=
  ∃ i < (relay.leavesBefore path).length, ∃ rejection, ⟨i, .init, .error rejection⟩ ∈ entries

/-- In a state that a tree has come to, every tee is inside the bracket, or it is
fresh still because it was denied `init`. -/
def OpenedOrDenied (relay state : Relay L) (entries : List (Receipt E)) : Prop :=
  ∀ path guard, state.guardAt? path = some guard →
    guard.phase = .opened ∨ guard = .fresh ∧ relay.DeniedInit path entries

/-- How the tees of a tree stand after a stream, if they were fresh before it. -/
inductive Standing (relay : Relay L) (w : W) (past : List Event) : Prop where
  /-- Nothing was admitted, so nothing has changed. -/
  | idle : Receiver.run past relay w = (relay, w) → Pass.fresh.admitted past = [] →
    Standing relay w past
  /-- The root has admitted `init`, and not all tees may have got it. -/
  | opened : (Pass.fresh.admitted past).count .init = 1 →
    relay.OpenedOrDenied (Receiver.run past relay w).1 (relay.journal past w) →
    Standing relay w past
  /-- The root has admitted `close`, and lets nothing through any more. -/
  | closed : (∀ guard ∈ (Receiver.run past relay w).1.guard?, guard.phase = .closed) →
    Standing relay w past

omit [OfViolation E] in
theorem OpenedOrDenied.mono {relay state : Relay L} {entries entries' : List (Receipt E)}
    (h : relay.OpenedOrDenied state entries) (hSubset : entries ⊆ entries') :
    relay.OpenedOrDenied state entries' := by
  intro path guard hGuard
  refine (h path guard hGuard).imp_right fun ⟨hFresh, i, hi, rejection, hm⟩ => ?_
  exact ⟨hFresh, i, hi, rejection, hSubset hm⟩

theorem leavesBefore_of_primary {path : List Side} (h : ∀ side ∈ path, side = .primary) :
    ∀ relay : Relay L, relay.leavesBefore path = [] := by
  induction path with
  | nil => intro relay; cases relay <;> rfl
  | cons side path ih =>
      obtain ⟨rfl, hRest⟩ := List.forall_mem_cons.mp h
      intro relay
      cases relay with
      | leaf l => rfl
      | tee guard primary secondary => exact ih hRest primary

omit [OfViolation E] in
theorem not_deniedInit_of_primary {path : List Side} (h : ∀ side ∈ path, side = .primary)
    (relay : Relay L) (entries : List (Receipt E)) : ¬ relay.DeniedInit path entries := by
  rintro ⟨i, hi, _⟩
  rw [leavesBefore_of_primary h relay] at hi
  cases hi

omit [OfViolation E] in
theorem OpenedOrDenied.opened_root {relay state : Relay L} {entries : List (Receipt E)}
    (h : relay.OpenedOrDenied state entries) {root : Pass} (hRoot : state.guard? = some root) :
    root.phase = .opened :=
  (h [] root hRoot).resolve_right fun denied =>
    not_deniedInit_of_primary (List.forall_mem_nil _) relay entries denied.2

theorem mem_guards_of_guardAt? : ∀ {relay : Relay L} {path : List Side} {guard : Pass},
    relay.guardAt? path = some guard → guard ∈ relay.guards := by
  intro relay
  induction relay with
  | leaf l =>
      intro path guard h
      rw [guardAt?_leaf] at h
      cases h
  | tee own primary secondary ihp ihs =>
      intro path guard h
      cases path with
      | nil =>
          obtain rfl := Option.some.inj h
          exact List.mem_cons_self
      | cons side path =>
          cases side with
          | primary => exact List.mem_cons_of_mem _ (List.mem_append_left _ (ihp h))
          | secondary => exact List.mem_cons_of_mem _ (List.mem_append_right _ (ihs h))

theorem guard?_run (relay : Relay L) (w : W) (past : List Event) :
    (Receiver.run past relay w).1.guard? =
      relay.guard?.map (·.follow (past.map Event.kind)) := by
  induction past using List.reverseRecOn with
  | nil => exact Option.map_id'.symm
  | append_singleton past e ih =>
      rw [Receiver.run_concat, List.map_append, List.map_singleton]
      show (deliver e (Receiver.run past relay w).1 (Receiver.run past relay w).2).state.guard? = _
      rw [guard?_deliver, ih, Option.map_map]
      simp only [Pass.follow_concat, Function.comp_def]

section Step

variable {relay : Relay L} {w : W} {past : List Event} {e : Event}

theorem Standing.of_refused (standing : Standing relay w past) {root : Pass}
    (hGuard : (Receiver.run past relay w).1.guard? = some root)
    (hRoot : root = Pass.fresh.follow (past.map Event.kind)) {violation : Violation}
    (hRefused : root.accept e.kind = .error violation) : Standing relay w (past ++ [e]) := by
  have hRefusal : (Receiver.run past relay w).1.refusal? e.kind = some violation := by
    simp only [refusal?, hGuard, hRefused]
  obtain ⟨_, hState, hWorld, hCalls⟩ := deliver_of_refusal hRefusal (Receiver.run past relay w).2
  have hRun : Receiver.run (past ++ [e]) relay w = Receiver.run past relay w := by
    rw [Receiver.run_concat]
    exact Prod.ext hState hWorld
  have hJournal : relay.journal (past ++ [e]) w = relay.journal past w := by
    rw [journal_concat, hCalls, List.append_nil]
  have hAdmitted : Pass.fresh.admitted (past ++ [e]) = Pass.fresh.admitted past := by
    rw [Pass.admitted_concat, ← hRoot, Pass.admitted_of_error hRefused, List.append_nil]
  cases standing with
  | idle hSame hNone => exact .idle (hRun.trans hSame) (hAdmitted.trans hNone)
  | opened hCount hGuards =>
      refine .opened (hAdmitted ▸ hCount) ?_
      rw [hRun, hJournal]
      exact hGuards
  | closed hClosed => exact .closed (hRun ▸ hClosed)

theorem openedOrDenied_init (fresh : relay.Guarded .fresh) (w : W) :
    relay.OpenedOrDenied (deliver .init relay w).state (relay.receipts .init w) := by
  intro path guard h
  by_cases reaches : Reaches .init path relay w
  · rw [guardAt?_of_reaches reaches] at h
    obtain ⟨own, hOwn, rfl⟩ := Option.map_eq_some_iff.mp h
    rw [fresh own (mem_guards_of_guardAt? hOwn)]
    exact .inl rfl
  · rw [guardAt?_of_not_reaches reaches] at h
    have admits : relay.Admits Event.init.kind := by
      intro own hm
      rw [fresh own hm]
      exact ⟨_, rfl⟩
    obtain ⟨i, hi, rejection, hm⟩ := exists_rejection_of_not_reaches .init h 0 w admits reaches
    rw [Nat.zero_add] at hm
    exact .inr ⟨fresh guard (mem_guards_of_guardAt? h), i, hi, rejection, hm⟩

theorem standing_init (fresh : relay.Guarded .fresh)
    (hSame : Receiver.run past relay w = (relay, w)) (hNone : Pass.fresh.admitted past = [])
    (hRoot : Pass.fresh.follow (past.map Event.kind) = .fresh) :
    Standing relay w (past ++ [.init]) := by
  refine .opened ?_ ?_
  · rw [Pass.admitted_concat, hNone, hRoot]
    rfl
  · rw [Receiver.run_concat, journal_concat, hSame]
    exact (openedOrDenied_init fresh w).mono (List.subset_append_right _ _)

/-- Inside the bracket a tee stays as it stands, whether an event reaches it or not. -/
theorem OpenedOrDenied.deliver {state : Relay L} {entries : List (Receipt E)}
    (h : relay.OpenedOrDenied state entries) (hInit : e ≠ .init) (hClose : e ≠ .close) (w : W) :
    relay.OpenedOrDenied (Relay.deliver e state w).state entries := by
  intro path guard hGuard
  by_cases reaches : Reaches e path state w
  · rw [guardAt?_of_reaches reaches] at hGuard
    obtain ⟨own, hOwn, rfl⟩ := Option.map_eq_some_iff.mp hGuard
    rcases h path own hOwn with hOpened | ⟨rfl, denied⟩
    · rw [Pass.settle_of_ok (Pass.accept_inner hOpened hInit hClose)]
      exact .inl rfl
    · rw [Pass.settle_of_error (Pass.accept_fresh hInit)]
      exact .inr ⟨rfl, denied⟩
  · rw [guardAt?_of_not_reaches reaches] at hGuard
    exact h path guard hGuard

theorem standing_inner (hInit : e ≠ .init) (hClose : e ≠ .close)
    (hCount : (Pass.fresh.admitted past).count .init = 1)
    (hGuards : relay.OpenedOrDenied (Receiver.run past relay w).1 (relay.journal past w)) :
    Standing relay w (past ++ [e]) := by
  refine .opened ?_ ?_
  · rw [Pass.admitted_concat, List.count_append, hCount, Pass.count_init_admitted hInit]
  · rw [Receiver.run_concat, journal_concat]
    exact (hGuards.deliver hInit hClose _).mono (List.subset_append_left _ _)

end Step

/-- A stream leaves the tees of a fresh tree standing in one of the three ways. -/
theorem standing_run {relay : Relay L} (fresh : relay.Guarded .fresh)
    (hFresh : relay.guard? = some .fresh) (w : W) (past : List Event) :
    Standing relay w past := by
  induction past using List.reverseRecOn with
  | nil => exact .idle rfl rfl
  | append_singleton past e ih =>
      generalize hRoot : Pass.fresh.follow (past.map Event.kind) = root
      have hGuard : (Receiver.run past relay w).1.guard? = some root := by
        rw [guard?_run, hFresh, ← hRoot]
        rfl
      cases hAccept : root.accept e.kind with
      | error violation => exact ih.of_refused hGuard hRoot.symm hAccept
      | ok next =>
          cases ih with
          | idle hSame hNone =>
              rw [hSame, hFresh] at hGuard
              obtain rfl := Option.some.inj hGuard
              rcases Pass.accept_eq_ok hAccept with ⟨_, rfl, _⟩ | ⟨hOpened, _⟩ | ⟨hOpened, _⟩
              · exact standing_init fresh hSame hNone hRoot
              · cases hOpened
              · cases hOpened
          | opened hCount hGuards =>
              have hOpened := hGuards.opened_root hGuard
              rcases Pass.accept_eq_ok hAccept with ⟨hIdle, _⟩ | ⟨_, rfl, rfl⟩ |
                ⟨_, hInit, hClose, _⟩
              · rw [hOpened] at hIdle
                cases hIdle
              · refine .closed fun guard hm => ?_
                rw [guard?_run, hFresh, List.map_append, List.map_singleton, Option.map_some,
                  Pass.follow_concat, hRoot, Pass.settle_of_ok hAccept] at hm
                rw [← Option.some.inj hm]
              · exact standing_inner hInit hClose hCount hGuards
          | closed hClosed =>
              obtain ⟨_, hRefused⟩ :=
                Pass.exists_accept_eq_error (.inl (hClosed root hGuard)) e.kind
              rw [hAccept] at hRefused
              cases hRefused

/-! ## Refusals inside a tree -/

/-- The tee that a path leads to gets a call and turns it away. -/
structure RefusedAt (relay : Relay L) (e : Event) (w : W) (path : List Side)
    (violation : Violation) : Prop where
  reaches : Reaches e path relay w
  refused : ∃ guard, relay.guardAt? path = some guard ∧ guard.accept e.kind = .error violation

theorem RefusedAt.answer {relay : Relay L} {e : Event} {w : W} {path : List Side}
    {violation : Violation} (refusedAt : relay.RefusedAt e w path violation) :
    (deliver e relay w).answer = .error (ofViolation violation) := by
  obtain ⟨reaches, guard, hGuard, hRefused⟩ := refusedAt
  induction reaches with
  | @here relay w =>
      refine (deliver_of_refusal ?_ w).1
      simp only [refusal?, show relay.guard? = some guard from hGuard, hRefused]
  | @primary _ _ _ _ secondary _ h _ ih =>
      exact (deliver_tee_of_rejected h (ih hGuard) secondary).1
  | @secondary _ _ _ _ secondary _ h hFirst _ ih =>
      exact (deliver_tee_of_accepted h hFirst secondary).1.trans (ih hGuard)

/-- A call fails because the last leaf that it got to rejects it, or because a tee that it
got to turns it away. -/
theorem rejected_or_refusedAt (e : Event) : ∀ (relay : Relay L) (n : Nat) (w : W)
    {rejection : E}, (deliver e relay w).answer = .error rejection →
      (relay.receiptsFrom n e w).getLast?.map Receipt.answer = some (.error rejection) ∨
        ∃ path violation, rejection = ofViolation violation ∧
          relay.RefusedAt e w path violation := by
  intro relay
  induction relay with
  | leaf l =>
      intro n w rejection h
      rw [receiptsFrom_leaf, List.getLast?_singleton]
      exact .inl (congrArg some h)
  | tee guard primary secondary ihp ihs =>
      intro n w rejection h
      cases hAccept : guard.accept e.kind with
      | error violation =>
          rw [deliver_tee_of_refused hAccept] at h
          exact .inr ⟨[], violation, (Except.error.inj h).symm, .here, guard, rfl, hAccept⟩
      | ok next =>
          rcases error_of_side hAccept h with hFirst | ⟨hFirst, hSecond⟩
          · rw [receiptsFrom_tee_of_rejected hAccept hFirst]
            refine (ihp n w hFirst).imp_right ?_
            rintro ⟨path, violation, hRejection, reaches, own, hOwn, hRefused⟩
            exact ⟨.primary :: path, violation, hRejection, .primary hAccept reaches, own, hOwn,
              hRefused⟩
          · rw [receiptsFrom_tee_of_accepted hAccept hFirst, List.getLast?_append]
            rcases ihs (n + primary.leaves.length) _ hSecond with
              hLast | ⟨path, violation, hRejection, reaches, own, hOwn, hRefused⟩
            · obtain ⟨last, hLast, hAnswer⟩ := Option.map_eq_some_iff.mp hLast
              rw [hLast]
              exact .inl (congrArg some hAnswer)
            · exact .inr ⟨.secondary :: path, violation, hRejection,
                .secondary hAccept hFirst reaches, own, hOwn, hRefused⟩

theorem RefusedAt.of_fresh {relay : Relay L} (fresh : relay.Guarded .fresh) {w : W}
    {past : List Event} {e : Event} {path : List Side} {violation : Violation} (hPath : path ≠ [])
    (refusedAt : (Receiver.run past relay w).1.RefusedAt e (Receiver.run past relay w).2 path
      violation) :
    violation = ⟨0, .refusal (.notOpened e.kind)⟩ ∧
      (Pass.fresh.admitted past).count .init = 1 ∧
      relay.DeniedInit path (relay.journal past w) := by
  obtain ⟨reaches, guard, hGuard, hRefused⟩ := refusedAt
  obtain ⟨root, next, hRoot, hAccept⟩ := reaches.exists_accept hPath
  have hFresh : relay.guard? = some .fresh := by
    cases relay with
    | leaf l =>
        rw [guard?_run] at hRoot
        cases hRoot
    | tee own primary secondary => rw [← fresh own List.mem_cons_self]; rfl
  cases standing_run fresh hFresh w past with
  | idle hSame _ =>
      -- All tees are fresh, so they admit what the root admits.
      rw [hSame] at hRoot hGuard
      obtain rfl := Option.some.inj (hFresh.symm.trans hRoot)
      rw [fresh guard (mem_guards_of_guardAt? hGuard), hAccept] at hRefused
      cases hRefused
  | opened hCount hGuards =>
      have hInit : e ≠ .init := by
        have hOpened := hGuards.opened_root hRoot
        rintro rfl
        rcases Pass.accept_eq_ok hAccept with ⟨hIdle, _⟩ | ⟨_, hClose, _⟩ | ⟨_, hInit, _⟩
        · rw [hOpened] at hIdle
          cases hIdle
        · cases hClose
        · exact hInit rfl
      rcases hGuards path guard hGuard with hOpened | ⟨rfl, denied⟩
      · exact absurd (Pass.eq_init_of_accept_eq_error hOpened hRefused) hInit
      · rw [Pass.accept_fresh hInit] at hRefused
        exact ⟨(Except.error.inj hRefused).symm, hCount, denied⟩
  | closed hClosed =>
      obtain ⟨_, hEnded⟩ := Pass.exists_accept_eq_error (.inl (hClosed root hRoot)) e.kind
      rw [hAccept] at hEnded
      cases hEnded

/-- A tee below the root refuses a call only because it was denied `init`.

All tees of a tree are fresh, and a stream is sent to the root.  If then a tee below
the root gets a call and turns it away, it does so for want of `init`, at position 0,
and this is the answer to the call.  The root has admitted `init` once, and a leaf on
the left of that tee has rejected it.  So a tee that is reached on primary sides only
refuses nothing that the root admits.  Any other error that the root does not give itself
is that of the leaf that got the call last. -/
theorem inner_refusal_of_denied_init (relay : Relay L) (fresh : relay.Guarded .fresh) (w : W)
    (past : List Event) (e : Event) :
    let before := Receiver.run past relay w
    (∀ path violation, path ≠ [] → before.1.RefusedAt e before.2 path violation →
        violation = ⟨0, .refusal (.notOpened e.kind)⟩ ∧
          (deliver e before.1 before.2).answer = .error (ofViolation violation) ∧
          (Pass.fresh.admitted past).count .init = 1 ∧
          ∃ i < (relay.leavesBefore path).length, ∃ rejection,
            ⟨i, .init, .error rejection⟩ ∈ relay.journal past w) ∧
      (before.1.refusal? e.kind = none →
        (∀ path violation, (∀ side ∈ path, side = .primary) →
          ¬ before.1.RefusedAt e before.2 path violation) ∧
        ∀ rejection, (deliver e before.1 before.2).answer = .error rejection →
          (before.1.receipts e before.2).getLast?.map Receipt.answer = some (.error rejection) ∨
            ∃ path violation, path ≠ [] ∧ rejection = ofViolation violation ∧
              before.1.RefusedAt e before.2 path violation) := by
  intro before
  refine ⟨fun path violation hPath refusedAt => ?_, fun hNone => ?_⟩
  · obtain ⟨hViolation, hCount, denied⟩ := refusedAt.of_fresh fresh hPath
    exact ⟨hViolation, refusedAt.answer, hCount, denied⟩
  · have notRoot : ∀ violation, ¬ before.1.RefusedAt e before.2 [] violation := by
      rintro violation ⟨_, guard, hGuard, hRefused⟩
      obtain ⟨next, hAccept⟩ := accept_of_refusal?_eq_none hNone hGuard
      rw [hAccept] at hRefused
      cases hRefused
    refine ⟨fun path violation hPrimary refusedAt => ?_, fun rejection hError => ?_⟩
    · by_cases hPath : path = []
      · exact notRoot violation (hPath ▸ refusedAt)
      · exact not_deniedInit_of_primary hPrimary relay _ (refusedAt.of_fresh fresh hPath).2.2
    · refine (rejected_or_refusedAt e before.1 0 before.2 hError).imp_right ?_
      rintro ⟨path, violation, hRejection, refusedAt⟩
      refine ⟨path, violation, ?_, hRejection, refusedAt⟩
      rintro rfl
      exact notRoot violation refusedAt

/-- The second of four receivers rejects `init`, and the tee over the last two refuses
what comes after it. -/
theorem refusal_behind_rejected_init :
    let failing : Relay Endpoint := .leaf (.tally { failsOn := some .init, reason := "no" })
    let relay := pair (pair (.leaf .sink) failing) (pair (.leaf .sink) (.leaf .sink))
    let before := Receiver.run [.init] relay ({} : Clocks)
    relay.Guarded .fresh ∧
      before.1.RefusedAt .selector before.2 [.secondary] ⟨0, .refusal (.notOpened .selector)⟩ ∧
      (deliver .selector before.1 before.2).answer =
        .error (.violation ⟨0, .refusal (.notOpened .selector)⟩) ∧
      ∃ i < 2, ∃ rejection, ⟨i, .init, .error rejection⟩ ∈ relay.journal [.init] ({} : Clocks) := by
  intro failing relay before
  have fresh : relay.Guarded .fresh := by simp [Guarded, relay, failing, pair, guards]
  have refusedAt : before.1.RefusedAt .selector before.2 [.secondary]
      ⟨0, .refusal (.notOpened .selector)⟩ :=
    ⟨.secondary rfl rfl .here, .fresh, rfl, rfl⟩
  obtain ⟨_, hAnswer, _, denied⟩ :=
    (inner_refusal_of_denied_init relay fresh ({} : Clocks) [.init] .selector).1 _ _
      (List.cons_ne_nil _ _) refusedAt
  exact ⟨fresh, refusedAt, hAnswer, denied⟩

end Relay

end SelectorStream
