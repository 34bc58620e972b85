/-
# `SelectorStream.Proofs.Grouping` — a tree of tees is the row of its leaves

How the receivers of a tree are grouped into tees could show in one way: a guard
inside the tree misses what was rejected on its left, so it lags behind the
root, and might refuse what the root admits.  As long as every guard admits an
event the tree offers it to its leaves in order, whatever its shape
(`Relay.deliver_of_admits`).

`Relay.InStep` is what can be said of the guards if they were fresh and no leaf
has rejected `init` since.  A guard inside the bracket stays there until it sees
`close`, and after `close` the root lets nothing through.  So the guards admit
what the root admits, and two trees over one row of leaves look the same:

    Relay.grouping_unobservable
-/
import SelectorStream.Proofs.Broadcast

namespace SelectorStream

/-! ## Numbered rows -/

def numberedFrom {L : Type} (n : Nat) (row : List L) : List (Numbered L) :=
  (row.zipIdx n).map fun (l, i) => ⟨i, l⟩

theorem numberedFrom_append {L : Type} (n : Nat) (row others : List L) :
    numberedFrom n (row ++ others) =
      numberedFrom n row ++ numberedFrom (n + row.length) others := by
  simp [numberedFrom, List.zipIdx_append]

variable {E L W : Type} [Receiver E L W]

theorem failFast_offer (e : Event) (row : List L) (w : W) :
    let offered := offer e (numberedFrom 0 row) (Journaled.mk (E := E) w [])
    FailFast e row.length offered.world.journal offered.answer := by
  induction row using List.reverseRecOn with
  | nil => exact .inl ⟨rfl, rfl⟩
  | append_singleton row l ih =>
      intro offered
      have hSplit : offered = offer e (numberedFrom 0 row ++ [⟨row.length, l⟩])
          (.mk w []) := by
        simp only [offered, numberedFrom_append, Nat.zero_add]
        rfl
      rw [List.length_append, hSplit]
      cases hRow : (offer e (numberedFrom 0 row) (Journaled.mk (E := E) w [])).answer with
      | error rejection =>
          obtain ⟨hAnswer, _, hWorld⟩ := offer_append_of_error [⟨row.length, l⟩] _ _ hRow
          rw [hAnswer, hWorld]
          simp only [hRow] at ih
          exact ih.succ_of_error
      | ok _ =>
          obtain ⟨hAnswer, _, hWorld⟩ := offer_append_of_ok [⟨row.length, l⟩] _ _ hRow
          rw [hAnswer, hWorld, offer_singleton]
          simp only [hRow] at ih
          exact ih.concat_of_ok _

namespace Relay

/-! ## Guards that admit an event -/

variable [OfViolation E]

theorem forall_guards_tee {P : Pass → Prop} {guard : Pass} {primary secondary : Relay L} :
    (∀ g ∈ (tee guard primary secondary).guards, P g) ↔
      P guard ∧ (∀ g ∈ primary.guards, P g) ∧ ∀ g ∈ secondary.guards, P g := by
  simp [guards, or_imp, forall_and]

def Admits (relay : Relay L) (kind : Kind) : Prop :=
  ∀ guard ∈ relay.guards, ∃ next, guard.accept kind = .ok next

section Admits

variable {e : Event}

/-- The guards have no say in the outcome of an event that they all admit. -/
theorem deliver_of_admits : ∀ (relay : Relay L) (w : W), relay.Admits e.kind →
    let called := deliver e relay w
    let offered := offer e relay.leaves w
    called.answer = offered.answer ∧ called.state.leaves = offered.state ∧
      called.world = offered.world := by
  intro relay
  induction relay with
  | leaf l =>
      intro w _ called offered
      have hOffered : offered = _ := offer_singleton e l w
      rw [hOffered]
      exact ⟨rfl, rfl, rfl⟩
  | tee guard primary secondary ihp ihs =>
      intro w admits
      obtain ⟨⟨next, hAccept⟩, hPrimary, hSecondary⟩ := forall_guards_tee.mp admits
      obtain ⟨hAnswer, hState, hWorld⟩ := ihp w hPrimary
      cases hFirst : (deliver e primary w).answer with
      | error rejection =>
          obtain ⟨teeAnswer, teeState, teeWorld⟩ := deliver_tee_of_rejected hAccept hFirst secondary
          obtain ⟨rowAnswer, rowState, rowWorld⟩ :=
            offer_append_of_error secondary.leaves _ w (hAnswer.symm.trans hFirst)
          refine ⟨teeAnswer.trans rowAnswer.symm, ?_, teeWorld.trans (hWorld.trans rowWorld.symm)⟩
          rw [teeState]
          exact (congrArg (· ++ secondary.leaves) hState).trans rowState.symm
      | ok _ =>
          obtain ⟨teeAnswer, teeState, teeWorld⟩ := deliver_tee_of_accepted hAccept hFirst secondary
          obtain ⟨rowAnswer, rowState, rowWorld⟩ :=
            offer_append_of_ok secondary.leaves _ w (hAnswer.symm.trans hFirst)
          obtain ⟨hAnswer', hState', hWorld'⟩ := ihs (deliver e primary w).world hSecondary
          rw [← hWorld] at rowAnswer rowState rowWorld
          refine ⟨teeAnswer.trans (hAnswer'.trans rowAnswer.symm), ?_,
            teeWorld.trans (hWorld'.trans rowWorld.symm)⟩
          rw [teeState]
          exact (congrArg₂ (· ++ ·) hState hState').trans rowState.symm

theorem leaves_number : ∀ (relay : Relay L) (n : Nat),
    (relay.number n).leaves = numberedFrom n relay.leaves := by
  intro relay
  induction relay with
  | leaf l => intro n; rfl
  | tee guard primary secondary ihp ihs =>
      intro n
      rw [number, leaves, ihp, ihs, leaves, numberedFrom_append]

theorem guards_number : ∀ (relay : Relay L) (n : Nat), (relay.number n).guards = relay.guards := by
  intro relay
  induction relay with
  | leaf l => intro n; rfl
  | tee guard primary secondary ihp ihs =>
      intro n
      rw [number, guards, ihp, ihs, guards]

theorem admits_number {relay : Relay L} {kind : Kind} (admits : relay.Admits kind) (n : Nat) :
    (relay.number n).Admits kind := by
  intro guard hg
  rw [guards_number] at hg
  exact admits guard hg

theorem receipts_of_admits {relay : Relay L} (admits : relay.Admits e.kind) (w : W) :
    relay.receipts e w =
      (offer e (numberedFrom 0 relay.leaves) (Journaled.mk (E := E) w [])).world.journal := by
  rw [receipts, receiptsFrom, (deliver_of_admits _ _ (admits_number admits 0)).2.2, leaves_number]

theorem failFast_of_admits {relay : Relay L} (admits : relay.Admits e.kind) (w : W) :
    FailFast e relay.leaves.length (relay.receipts e w) (deliver e relay w).answer := by
  have hAnswer := (deliver_of_admits _ (Journaled.mk (E := E) w []) (admits_number admits 0)).1
  rw [deliver_number, leaves_number] at hAnswer
  rw [receipts_of_admits admits, hAnswer]
  exact failFast_offer e relay.leaves w

end Admits

/-! ## Guards after a call -/

def Guarded (relay : Relay L) (pass : Pass) : Prop :=
  ∀ guard ∈ relay.guards, guard = pass

def guard? : Relay L → Option Pass
  | .leaf _ => none
  | .tee guard _ _ => some guard

section Guards

variable {e : Event}

theorem guard?_deliver (relay : Relay L) (w : W) :
    (deliver e relay w).state.guard? = relay.guard?.map (·.settle e.kind) := by
  cases relay with
  | leaf l => rfl
  | tee guard primary secondary =>
      cases hAccept : guard.accept e.kind with
      | error violation =>
          rw [deliver_tee_of_refused hAccept]
          simp [guard?, Pass.settle_of_error hAccept]
      | ok next =>
          cases hFirst : (deliver e primary w).answer with
          | error rejection =>
              rw [(deliver_tee_of_rejected hAccept hFirst secondary).2.1]
              simp [guard?, Pass.settle_of_ok hAccept]
          | ok _ =>
              rw [(deliver_tee_of_accepted hAccept hFirst secondary).2.1]
              simp [guard?, Pass.settle_of_ok hAccept]

/-- What admitting a call does not change of a guard, holds of all guards after
the call: every guard has admitted it, or was not asked. -/
theorem forall_guards_deliver {P : Pass → Prop}
    (hStep : ∀ guard next, P guard → guard.accept e.kind = .ok next → P next) :
    ∀ (relay : Relay L) (w : W), (∀ guard ∈ relay.guards, P guard) →
      ∀ guard ∈ (deliver e relay w).state.guards, P guard := by
  intro relay
  induction relay with
  | leaf l => intro w h; exact h
  | tee guard primary secondary ihp ihs =>
      intro w h
      obtain ⟨hGuard, hPrimary, hSecondary⟩ := forall_guards_tee.mp h
      cases hAccept : guard.accept e.kind with
      | error violation =>
          rw [deliver_tee_of_refused hAccept]
          exact h
      | ok next =>
          have hNext : P next := hStep guard next hGuard hAccept
          cases hFirst : (deliver e primary w).answer with
          | error rejection =>
              rw [(deliver_tee_of_rejected hAccept hFirst secondary).2.1]
              exact forall_guards_tee.mpr ⟨hNext, ihp w hPrimary, hSecondary⟩
          | ok _ =>
              rw [(deliver_tee_of_accepted hAccept hFirst secondary).2.1]
              exact forall_guards_tee.mpr ⟨hNext, ihp w hPrimary, ihs _ hSecondary⟩

theorem guarded_deliver {pass next : Pass} (hAccept : pass.accept e.kind = .ok next) :
    ∀ (relay : Relay L) (w : W), relay.Guarded pass → (deliver e relay w).answer = .ok () →
      (deliver e relay w).state.Guarded next := by
  intro relay
  induction relay with
  | leaf l => intro w _ _ guard hg; cases hg
  | tee guard primary secondary ihp ihs =>
      intro w guarded hOk
      obtain ⟨rfl, hPrimary, hSecondary⟩ := forall_guards_tee.mp guarded
      cases hFirst : (deliver e primary w).answer with
      | error rejection =>
          rw [(deliver_tee_of_rejected hAccept hFirst secondary).1] at hOk
          cases hOk
      | ok _ =>
          obtain ⟨hAnswer, hState, _⟩ := deliver_tee_of_accepted hAccept hFirst secondary
          rw [hState]
          exact forall_guards_tee.mpr
            ⟨rfl, ihp w hPrimary hFirst, ihs _ hSecondary (hAnswer.symm.trans hOk)⟩

end Guards

/-! ## Guards in step -/

/-- Why the root of a relay turns a call away, if it is a tee and does. -/
def refusal? (relay : Relay L) (kind : Kind) : Option Violation :=
  match relay.guard? with
  | none => none
  | some guard =>
    match guard.accept kind with
    | .ok _ => none
    | .error violation => some violation

theorem deliver_of_refusal {e : Event} {relay : Relay L} {violation : Violation}
    (h : relay.refusal? e.kind = some violation) (w : W) :
    let called := deliver e relay w
    called.answer = .error (ofViolation violation) ∧ called.state = relay ∧ called.world = w ∧
      relay.receipts e w = [] := by
  cases relay with
  | leaf l => cases h
  | tee guard primary secondary =>
      simp only [refusal?, guard?] at h
      split at h
      · cases h
      · rename_i own hAccept
        obtain rfl := Option.some.inj h
        rw [deliver_tee_of_refused hAccept]
        exact ⟨rfl, rfl, rfl, receiptsFrom_tee_of_refused hAccept⟩

theorem accept_of_refusal?_eq_none {kind : Kind} {relay : Relay L}
    (h : relay.refusal? kind = none) {guard : Pass} (hGuard : relay.guard? = some guard) :
    ∃ next, guard.accept kind = .ok next := by
  simp only [refusal?, hGuard] at h
  split at h
  · rename_i next hAccept
    exact ⟨next, hAccept⟩
  · cases h

/-- How the guards of a relay stand to the guard of its root. -/
inductive InStep (relay : Relay L) : Prop where
  | fresh : relay.Guarded .fresh → InStep relay
  /-- A guard that missed calls is behind in its position, but not in its
  phase. -/
  | opened : (∀ guard ∈ relay.guards, guard.phase = .opened) → InStep relay
  /-- A guard that missed `close` is still open, but out of reach. -/
  | closed {guard : Pass} : relay.guard? = some guard → guard.phase = .closed → InStep relay

namespace InStep

section Root

variable {root : Pass} {primary secondary : Relay L}

theorem guarded_of_idle (inStep : InStep (tee root primary secondary)) (h : root.phase = .idle) :
    (tee root primary secondary).Guarded .fresh := by
  cases inStep with
  | fresh guarded => exact guarded
  | opened hOpened =>
      have hRoot := hOpened root List.mem_cons_self
      rw [h] at hRoot
      cases hRoot
  | closed hGuard hClosed =>
      obtain rfl := Option.some.inj hGuard
      rw [h] at hClosed
      cases hClosed

theorem all_opened (inStep : InStep (tee root primary secondary)) (h : root.phase = .opened) :
    ∀ guard ∈ (tee root primary secondary).guards, guard.phase = .opened := by
  cases inStep with
  | fresh guarded =>
      rw [guarded root List.mem_cons_self] at h
      cases h
  | opened hOpened => exact hOpened
  | closed hGuard hClosed =>
      obtain rfl := Option.some.inj hGuard
      rw [h] at hClosed
      cases hClosed

end Root

theorem admits {relay : Relay L} (inStep : InStep relay) {e : Event}
    (h : relay.refusal? e.kind = none) : relay.Admits e.kind := by
  intro guard hg
  cases relay with
  | leaf l => cases hg
  | tee root primary secondary =>
      obtain ⟨next, hAccept⟩ := accept_of_refusal?_eq_none h rfl
      rcases Pass.accept_eq_ok hAccept with ⟨hIdle, rfl, _⟩ | ⟨hOpened, rfl, _⟩ |
        ⟨hOpened, hInit, hClose, _⟩
      · rw [inStep.guarded_of_idle hIdle guard hg]
        exact ⟨_, rfl⟩
      · exact ⟨_, Pass.accept_close (inStep.all_opened hOpened guard hg)⟩
      · exact ⟨_, Pass.accept_inner (inStep.all_opened hOpened guard hg) hInit hClose⟩

/-- A call keeps the guards in step, unless a leaf rejects `init`. -/
theorem deliver {relay : Relay L} (inStep : InStep relay) {e : Event} {w : W}
    (hRejected : ∀ i rejection, ⟨i, .init, .error rejection⟩ ∉ relay.receipts e w) :
    InStep (deliver e relay w).state := by
  cases hRefusal : relay.refusal? e.kind with
  | some violation =>
      rw [(deliver_of_refusal hRefusal w).2.1]
      exact inStep
  | none =>
      cases relay with
      | leaf l => exact .fresh fun guard hg => by cases hg
      | tee root primary secondary =>
          obtain ⟨next, hAccept⟩ := accept_of_refusal?_eq_none hRefusal rfl
          rcases Pass.accept_eq_ok hAccept with ⟨hIdle, rfl, rfl⟩ | ⟨_, rfl, rfl⟩ |
            ⟨hOpened, hInit, hClose, rfl⟩
          · -- `init` opens every guard, because every leaf accepts it.
            have guarded := inStep.guarded_of_idle hIdle
            rcases failFast_of_admits (inStep.admits hRefusal) w with
              ⟨_, hOk⟩ | ⟨i, _, rejection, hCalls, _⟩
            · have hFirst : Pass.fresh.accept Event.init.kind = .ok ⟨.opened, 1⟩ := rfl
              have after := guarded_deliver hFirst _ w guarded hOk
              exact .opened fun guard hg => by rw [after guard hg]
            · exact absurd (hCalls ▸ List.mem_append_right _ List.mem_cons_self)
                (hRejected i rejection)
          · have hRoot := guard?_deliver (e := .close) (tee root primary secondary) w
            simp only [guard?, Option.map_some, Pass.settle_of_ok hAccept] at hRoot
            exact .closed hRoot rfl
          · refine .opened (forall_guards_deliver ?_ _ w (inStep.all_opened hOpened))
            intro guard next hPhase hNext
            rw [Pass.accept_inner hPhase hInit hClose] at hNext
            obtain rfl := Except.ok.inj hNext
            rfl

end InStep

/-! ## Two groupings of one row -/

/-- Relays over the same leaves whose guards are in step, with the same guard
at the root. -/
structure Regrouped (first second : Relay L) : Prop where
  leaves : first.leaves = second.leaves
  guard : first.guard? = second.guard?
  inStepFirst : InStep first
  inStepSecond : InStep second

theorem Regrouped.deliver {first second : Relay L} (regrouped : Regrouped first second)
    {e : Event} {w : W}
    (hInit : ∀ i rejection, ⟨i, .init, .error rejection⟩ ∉ first.receipts e w) :
    let ours := Relay.deliver e first w
    let theirs := Relay.deliver e second w
    ours.answer = theirs.answer ∧ ours.world = theirs.world ∧
      first.receipts e w = second.receipts e w ∧ Regrouped ours.state theirs.state := by
  intro ours theirs
  have hRefusal : first.refusal? e.kind = second.refusal? e.kind := by
    simp only [refusal?, regrouped.guard]
  have hGuard : ours.state.guard? = theirs.state.guard? := by
    rw [guard?_deliver, guard?_deliver, regrouped.guard]
  have outcome : ours.answer = theirs.answer ∧ ours.world = theirs.world ∧
      first.receipts e w = second.receipts e w ∧ ours.state.leaves = theirs.state.leaves := by
    cases hFirst : first.refusal? e.kind with
    | some violation =>
        obtain ⟨hAnswer, hState, hWorld, hCalls⟩ := deliver_of_refusal hFirst w
        obtain ⟨hAnswer', hState', hWorld', hCalls'⟩ := deliver_of_refusal (hRefusal ▸ hFirst) w
        refine ⟨hAnswer.trans hAnswer'.symm, hWorld.trans hWorld'.symm, hCalls.trans hCalls'.symm, ?_⟩
        rw [hState, hState', regrouped.leaves]
    | none =>
        have hAdmits := regrouped.inStepFirst.admits hFirst
        have hAdmits' := regrouped.inStepSecond.admits (hRefusal ▸ hFirst)
        obtain ⟨hAnswer, hState, hWorld⟩ := deliver_of_admits first w hAdmits
        obtain ⟨hAnswer', hState', hWorld'⟩ := deliver_of_admits second w hAdmits'
        rw [receipts_of_admits hAdmits, receipts_of_admits hAdmits', ← regrouped.leaves]
        rw [← regrouped.leaves] at hAnswer' hState' hWorld'
        exact ⟨hAnswer.trans hAnswer'.symm, hWorld.trans hWorld'.symm, rfl,
          hState.trans hState'.symm⟩
  obtain ⟨hAnswer, hWorld, hCalls, hLeaves⟩ := outcome
  refine ⟨hAnswer, hWorld, hCalls, hLeaves, hGuard, regrouped.inStepFirst.deliver hInit, ?_⟩
  exact regrouped.inStepSecond.deliver (hCalls ▸ hInit)

theorem leaves_ne_nil (relay : Relay L) : relay.leaves ≠ [] := by
  induction relay with
  | leaf l => exact List.cons_ne_nil l []
  | tee guard primary secondary ihp _ =>
      intro h
      exact ihp (List.append_eq_nil_iff.mp h).1

theorem guard?_of_guarded {relay : Relay L} {pass : Pass} (guarded : relay.Guarded pass) :
    relay.guard? = if relay.leaves.length = 1 then none else some pass := by
  cases relay with
  | leaf l => rfl
  | tee guard primary secondary =>
      have hPrimary := List.length_pos_iff.mpr (leaves_ne_nil primary)
      have hSecondary := List.length_pos_iff.mpr (leaves_ne_nil secondary)
      rw [if_neg (by rw [leaves, List.length_append]; omega), guard?,
        guarded guard List.mem_cons_self]

theorem regrouped_of_fresh {first second : Relay L} (hFirst : first.Guarded .fresh)
    (hSecond : second.Guarded .fresh) (hLeaves : first.leaves = second.leaves) :
    Regrouped first second where
  leaves := hLeaves
  guard := by rw [guard?_of_guarded hFirst, guard?_of_guarded hSecond, hLeaves]
  inStepFirst := .fresh hFirst
  inStepSecond := .fresh hSecond

/-! ### Streams -/

/-- What a stream shows from outside: the answer to each call, and the phase of
the root after it. -/
def observations (relay : Relay L) : List Event → W → List (Answer E × Option Phase)
  | [], _ => []
  | e :: rest, w =>
    let called := Relay.deliver e relay w
    (called.answer, called.state.guard?.map Pass.phase) ::
      called.state.observations rest called.world

theorem observations_concat (past : List Event) (e : Event) : ∀ (relay : Relay L) (w : W),
    relay.observations (past ++ [e]) w =
      let before := Receiver.run past relay w
      let called := Relay.deliver e before.1 before.2
      relay.observations past w ++ [(called.answer, called.state.guard?.map Pass.phase)] := by
  induction past with
  | nil => intro relay w; rfl
  | cons first past ih =>
      intro relay w
      exact congrArg (_ :: ·) (ih _ _)

theorem Regrouped.run {first second : Relay L} (regrouped : Regrouped first second) (w : W)
    (stream : List Event)
    (hRejected : ∀ i rejection, ⟨i, .init, .error rejection⟩ ∉ first.journal stream w) :
    let ours := Receiver.run stream first w
    let theirs := Receiver.run stream second w
    first.observations stream w = second.observations stream w ∧
      first.journal stream w = second.journal stream w ∧
      Regrouped ours.1 theirs.1 ∧ ours.2 = theirs.2 := by
  induction stream using List.reverseRecOn with
  | nil => exact ⟨rfl, rfl, regrouped, rfl⟩
  | append_singleton past e ih =>
      rw [journal_concat] at hRejected
      obtain ⟨hSeen, hJournal, hBefore, hWorld⟩ := ih fun i rejection h =>
        hRejected i rejection (List.mem_append_left _ h)
      obtain ⟨hAnswer, hWorld', hCalls, hAfter⟩ :=
        hBefore.deliver fun i rejection h => hRejected i rejection (List.mem_append_right _ h)
      simp only [observations_concat, journal_concat, Receiver.run_concat]
      rw [← hWorld]
      refine ⟨?_, ?_, hAfter, hWorld'⟩
      · rw [hSeen, hAnswer, hAfter.guard]
      · rw [hJournal, hCalls]

/-- The grouping of receivers into tees cannot be observed.

Two trees of fresh tees over the same row of receivers are sent the same
stream, and no receiver rejects `init`.  Then every call has the same answer
and leaves both roots in the same phase, the receivers get the same calls in the
same order, and end in the same states. -/
theorem grouping_unobservable (first second : Relay L) (hFirst : first.Guarded .fresh)
    (hSecond : second.Guarded .fresh) (hLeaves : first.leaves = second.leaves) (w : W)
    (stream : List Event)
    (hRejected : ∀ i rejection, ⟨i, .init, .error rejection⟩ ∉ first.journal stream w) :
    let ours := Receiver.run stream first w
    let theirs := Receiver.run stream second w
    first.observations stream w = second.observations stream w ∧
      first.journal stream w = second.journal stream w ∧
      ours.1.leaves = theirs.1.leaves ∧ ours.2 = theirs.2 := by
  obtain ⟨hSeen, hJournal, hAfter, hWorld⟩ :=
    (regrouped_of_fresh hFirst hSecond hLeaves).run w stream hRejected
  exact ⟨hSeen, hJournal, hAfter.leaves, hWorld⟩

/-- Three receivers grouped to the left and to the right.  The first rejects
`close`, so only one of the two inner guards ever sees it; the second rejects
`selector`. -/
theorem nested_tees_interchangeable :
    let a := Relay.leaf (.tally { failsOn := some .close, reason := "open end" })
    let b := Relay.leaf (.recorder (.withFaults "main" [(.selector, 1)]))
    let c := Relay.leaf (.recorder { clock := "main" })
    let leftward : Relay Endpoint := pair (pair a b) c
    let rightward : Relay Endpoint := pair a (pair b c)
    let stream := [.init, .selector, .head .universal, .close, .selector]
    let clocks := Clocks.start {} "main"
    let entries : List (Receipt Rejection) :=
      [⟨0, .init, .ok ()⟩, ⟨1, .init, .ok ()⟩, ⟨2, .init, .ok ()⟩,
        ⟨0, .selector, .ok ()⟩, ⟨1, .selector, .error (.unsupported .selector)⟩,
        ⟨0, .head .universal, .ok ()⟩, ⟨1, .head .universal, .ok ()⟩,
        ⟨2, .head .universal, .ok ()⟩, ⟨0, .close, .error (.failed "open end")⟩]
    leftward.Guarded .fresh ∧ rightward.Guarded .fresh ∧ leftward.leaves = rightward.leaves ∧
      (∀ i rejection, ⟨i, .init, .error rejection⟩ ∉ leftward.journal stream clocks) ∧
      leftward.observations stream clocks = rightward.observations stream clocks ∧
      leftward.journal stream clocks = entries ∧ rightward.journal stream clocks = entries := by
  intro a b c leftward rightward stream clocks entries
  have hLeft : leftward.Guarded .fresh := by simp [Guarded, leftward, a, b, c, pair, guards]
  have hRight : rightward.Guarded .fresh := by simp [Guarded, rightward, a, b, c, pair, guards]
  have hLeaves : leftward.leaves = rightward.leaves := rfl
  have hEntries : leftward.journal stream clocks = entries := by rfl
  have hRejected : ∀ i rejection,
      ⟨i, .init, .error rejection⟩ ∉ leftward.journal stream clocks := by
    intro i rejection h
    rw [hEntries] at h
    simp [entries] at h
  obtain ⟨hSeen, hJournal, _⟩ :=
    grouping_unobservable leftward rightward hLeft hRight hLeaves clocks stream hRejected
  exact ⟨hLeft, hRight, hLeaves, hRejected, hSeen, hEntries, hJournal.symm.trans hEntries⟩

end Relay

end SelectorStream
