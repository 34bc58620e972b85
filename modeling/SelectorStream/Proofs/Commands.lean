/-
# `SelectorStream.Proofs.Commands` — what commands do to a session

A session holds a relay and clocks, and a command may change either.  It begins with
fresh tees (`Session.start_fresh`), so what is said of these holds of its root.  A
command that is turned down changes neither the relay nor any reading; it may have
put clocks into use, and these stand at zero:

    Session.declined_changes_nothing

A reading never goes back.  Sending an event moves a clock by the number of
recorders on it that get the event (`Relay.now_deliver`), `tick` moves its own clock
by one, and no other command moves any.  So a session never gives out a stamp of a
clock twice:

    Session.stamps_increase
-/
import SelectorStream.Proofs.Course
import SelectorStream.Session

namespace SelectorStream

/-! ## Building -/

namespace Build

variable {A B : Type} {P : A → Prop} {Q : B → Prop}

/-- Building leaves every reading as it was, and what is built has a property. -/
def Ensures (build : Build A) (P : A → Prop) : Prop :=
  ∀ clocks : Clocks, (∀ name, (build.run clocks).2.now name = clocks.now name) ∧
    ∀ a, (build.run clocks).1 = .ok a → P a

theorem ensures_pure {a : A} (h : P a) : Ensures (pure a) P := by
  intro clocks
  refine ⟨fun name => rfl, fun built hBuilt => ?_⟩
  obtain rfl := Except.ok.inj hBuilt
  exact h

theorem ensures_liftExcept {result : Except MissingSide A} (h : ∀ a, result = .ok a → P a) :
    Ensures (liftExcept result) P := by
  intro clocks
  cases result with
  | error side => exact ⟨fun name => rfl, fun a hBuilt => by cases hBuilt⟩
  | ok a => exact ensures_pure (h a rfl) clocks

theorem ensures_start (clock : String) :
    Ensures (modify fun clocks => clocks.start clock) fun (_ : PUnit) => True :=
  fun clocks => ⟨clocks.now_start clock, fun _ _ => trivial⟩

theorem Ensures.bind {build : Build A} {next : A → Build B} (first : Ensures build P)
    (second : ∀ a, P a → Ensures (next a) Q) : Ensures (build >>= next) Q := by
  intro clocks
  obtain ⟨hFirst, hValue⟩ := first clocks
  have hRun : (build >>= next).run clocks =
      ExceptT.bindCont next (build.run clocks).1 (build.run clocks).2 := rfl
  rw [hRun]
  cases hResult : (build.run clocks).1 with
  | error side => exact ⟨hFirst, fun b hBuilt => by cases hBuilt⟩
  | ok a =>
      obtain ⟨hSecond, hLast⟩ := second a (hValue a hResult) (build.run clocks).2
      exact ⟨fun name => (hSecond name).trans (hFirst name), hLast⟩

end Build

theorem Relay.guarded_pair? {L : Type} {primary? secondary? : Option (Relay L)} {relay : Relay L}
    (hPrimary : ∀ side ∈ primary?, side.Guarded .fresh)
    (hSecondary : ∀ side ∈ secondary?, side.Guarded .fresh)
    (h : pair? primary? secondary? = .ok relay) : relay.Guarded .fresh := by
  cases primary? with
  | none => cases h
  | some primary =>
      cases secondary? with
      | none => cases h
      | some secondary =>
          obtain rfl := Except.ok.inj h
          exact forall_guards_tee.mpr ⟨rfl, hPrimary primary rfl, hSecondary secondary rfl⟩

mutual

theorem Plan.ensures_build : ∀ plan : Plan, plan.build.Ensures fun relay => relay.Guarded .fresh
  | .sink => Build.ensures_pure fun _ hg => by cases hg
  | .recorder clock _ =>
      (Build.ensures_start clock).bind fun _ _ => Build.ensures_pure fun _ hg => by cases hg
  | .checker _ => Build.ensures_pure fun _ hg => by cases hg
  | .tally _ _ => Build.ensures_pure fun _ hg => by cases hg
  | .tee primary secondary =>
      (Plan.ensures_buildSide primary).bind fun _ hPrimary =>
        (Plan.ensures_buildSide secondary).bind fun _ hSecondary =>
          Build.ensures_liftExcept fun _ h => Relay.guarded_pair? hPrimary hSecondary h

theorem Plan.ensures_buildSide : ∀ side : Option Plan,
    (Plan.buildSide side).Ensures fun built => ∀ relay ∈ built, relay.Guarded .fresh
  | none => Build.ensures_pure fun _ hm => by cases hm
  | some plan =>
      (Plan.ensures_build plan).bind fun relay hRelay => Build.ensures_pure fun other hm => by
        obtain rfl := Option.some.inj hm
        exact hRelay

end

/-! ## Readings after calls -/

theorem Clocks.now_tick (clocks : Clocks) (clock name : String) :
    (clocks.tick clock).2.now name = clocks.now name + if clock = name then 1 else 0 := by
  by_cases h : clock = name
  · subst h
    rw [now_tick_self, if_pos rfl]
  · rw [now_tick_of_ne clocks (Ne.symm h), if_neg h, Nat.add_zero]

/-- A receiver takes its stamps from a clock. -/
def Endpoint.isOn (clock : String) : Endpoint → Bool
  | .recorder r => r.clock = clock
  | .checker _ | .sink | .tally _ => false

theorem Endpoint.now_receive (e : Event) (endpoint : Endpoint) (clocks : Clocks) (name : String) :
    (Receiver.receive e endpoint clocks).world.now name =
      clocks.now name + if endpoint.isOn name then 1 else 0 := by
  cases endpoint with
  | recorder r =>
      simp only [isOn, decide_eq_true_eq]
      exact clocks.now_tick r.clock name
  | checker _ | sink | tally _ => rfl

theorem now_visit (e : Event) (name : String) : ∀ (row : List Endpoint) (clocks : Clocks),
    (visit e row clocks).2.now name = clocks.now name + row.countP (Endpoint.isOn name) := by
  intro row
  induction row with
  | nil => intro clocks; rfl
  | cons endpoint row ih =>
      intro clocks
      rw [visit, ih, Endpoint.now_receive, List.countP_cons]
      omega

namespace Relay

/-- A call moves each clock by the number of recorders on it that get the event. -/
theorem now_deliver (e : Event) (relay : Relay Endpoint) (clocks : Clocks) (name : String) :
    (deliver e relay clocks).world.now name = clocks.now name +
      (relay.leaves.take (relay.receipts e clocks).length).countP (Endpoint.isOn name) := by
  rw [(visits_deliver relay e clocks).world, now_visit]

theorem now_le_replay (name : String) : ∀ (stream : List Event) (relay : Relay Endpoint)
    (clocks : Clocks), clocks.now name ≤ (replay stream relay clocks).world.now name := by
  intro stream
  induction stream with
  | nil => intro relay clocks; exact Nat.le_refl _
  | cons e rest ih =>
      intro relay clocks
      have hFirst : clocks.now name ≤ (deliver e relay clocks).world.now name := by
        rw [now_deliver]
        exact Nat.le_add_right _ _
      cases hCalled : (deliver e relay clocks).answer with
      | error rejection =>
          rw [replay_cons_of_error hCalled]
          exact hFirst
      | ok _ =>
          rw [replay_cons_of_ok hCalled]
          exact Nat.le_trans hFirst (ih _ _)

/-! ## Subtrees put in place -/

section Set

variable {L : Type}

theorem get?_set_self (subtree : Relay L) : ∀ {sides : List Side} {relay old : Relay L},
    relay.get? sides = some old → (relay.set sides subtree).get? sides = some subtree := by
  intro sides
  induction sides with
  | nil => intro relay old _; rfl
  | cons side sides ih =>
      intro relay old h
      cases relay with
      | leaf l => cases side <;> cases h
      | tee guard primary secondary =>
          cases side with
          | primary => exact @ih primary old h
          | secondary => exact @ih secondary old h

theorem get?_set_of_apart (subtree : Relay L) : ∀ {sides sides' : List Side} (relay : Relay L),
    ¬ sides <+: sides' → ¬ sides' <+: sides →
      (relay.set sides subtree).get? sides' = relay.get? sides' := by
  intro sides
  induction sides with
  | nil => intro sides' relay h _; exact absurd List.nil_prefix h
  | cons side sides ih =>
      intro sides' relay h h'
      cases sides' with
      | nil => exact absurd List.nil_prefix h'
      | cons side' sides' =>
          cases relay with
          | leaf l => cases side <;> rfl
          | tee guard primary secondary =>
              rw [List.cons_prefix_cons, not_and] at h h'
              cases side <;> cases side'
              · exact ih primary (h rfl) (h' rfl)
              · rfl
              · rfl
              · exact ih secondary (h rfl) (h' rfl)

end Set

end Relay

/-! ## One command -/

def Reply.declines : Reply → Bool
  | .missing _ | .inapplicable => true
  | .answer _ | .stamp _ | .description _ => false

/-- Commands that move clocks: those that send events, and `tick`. -/
def Command.moves : Command → Bool
  | .send _ _ | .replay _ _ | .tick _ => true
  | .describe _ | .wrap _ | .chain _ | .renew | .swap | .keep _ => false

namespace Session

variable {session : Session} {command : Command} {step : Step}

theorem now_fetch? {source : Source} {fetched : Except MissingSide (Relay Endpoint) × Clocks}
    (h : session.fetch? source = some fetched) (name : String) :
    fetched.2.now name = session.clocks.now name := by
  cases source with
  | plan plan =>
      obtain rfl := Option.some.inj h
      exact (plan.ensures_build session.clocks).1 name
  | copy path =>
      simp only [fetch?] at h
      split at h
      · obtain rfl := Option.some.inj h
        rfl
      · cases h

theorem get?_of_locate? {path : String} {sides : List Side} {subtree : Relay Endpoint}
    (h : session.locate? path = some (sides, subtree)) :
    session.root.get? sides = some subtree := by
  obtain ⟨own, _, hOwn⟩ := Option.bind_eq_some_iff.mp h
  obtain ⟨found, hFound, hPair⟩ := Option.bind_eq_some_iff.mp hOwn
  obtain ⟨rfl, rfl⟩ := Prod.mk.inj (Option.some.inj hPair)
  exact hFound

/-- A session begins with tees that have seen nothing and clocks that have given out
nothing. -/
theorem start_fresh {plan : Plan} (h : start plan = .ok session) :
    session.root.Guarded .fresh ∧ ∀ name, session.clocks.now name = 0 := by
  obtain ⟨hNow, hFresh⟩ := plan.ensures_build {}
  rcases hBuilt : plan.build.run {} with ⟨built, clocks⟩
  simp only [start, hBuilt] at h hNow hFresh
  cases built with
  | error side => cases h
  | ok root =>
      obtain rfl := Except.ok.inj h
      exact ⟨hFresh root rfl, hNow⟩

/-- A step in which nobody gets an event. -/
structure Quiet (session : Session) (step : Step) : Prop where
  notices : step.notices = []
  now : ∀ name, step.session.clocks.now name = session.clocks.now name
  root : step.reply.declines = true → step.session.root = session.root

theorem quiet_wrap {next : Source} (h : session.wrap next = some step) : session.Quiet step := by
  obtain ⟨⟨result, clocks⟩, hFetch, rfl⟩ := Option.map_eq_some_iff.mp h
  cases result with
  | error side => exact ⟨rfl, now_fetch? hFetch, fun _ => rfl⟩
  | ok relay => exact ⟨rfl, now_fetch? hFetch, fun hDeclined => by cases hDeclined⟩

theorem quiet_chain {next : Source} (h : session.chain next = some step) : session.Quiet step := by
  simp only [chain] at h
  split at h
  · exact quiet_wrap h
  · obtain ⟨⟨result, clocks⟩, hFetch, rfl⟩ := Option.map_eq_some_iff.mp h
    cases result with
    | error side => exact ⟨rfl, now_fetch? hFetch, fun _ => rfl⟩
    | ok relay => exact ⟨rfl, now_fetch? hFetch, fun _ => rfl⟩

theorem quiet_rearrange (session : Session)
    (arrange : Relay Endpoint → Relay Endpoint → Relay Endpoint) :
    session.Quiet (session.rearrange arrange) := by
  rw [rearrange]
  split
  · exact ⟨rfl, fun _ => rfl, fun _ => rfl⟩
  · exact ⟨rfl, fun _ => rfl, fun hDeclined => by cases hDeclined⟩

theorem quiet_perform (h : session.perform command = some step) (hMoves : command.moves = false) :
    session.Quiet step := by
  cases command with
  | send _ _ | replay _ _ | tick _ => cases hMoves
  | describe path =>
      obtain rfl := Option.some.inj h
      exact ⟨rfl, fun _ => rfl, fun _ => rfl⟩
  | wrap next => exact quiet_wrap h
  | chain next => exact quiet_chain h
  | renew | swap =>
      obtain rfl := Option.some.inj h
      exact session.quiet_rearrange _
  | keep side =>
      cases side <;>
      · obtain rfl := Option.some.inj h
        exact session.quiet_rearrange _

/-- An event sent to a place is delivered to the subtree there, and nothing beside
it changes. -/
theorem perform_send {path : String} {sides : List Side} {subtree : Relay Endpoint}
    (h : session.locate? path = some (sides, subtree)) (e : Event) :
    let called := Relay.deliver e subtree session.clocks
    ∃ step, session.perform (.send e path) = some step ∧
      step.reply = .answer called.answer ∧ step.notices = called.notices ∧
      step.session.clocks = called.world ∧ step.session.root.get? sides = some called.state ∧
      ∀ sides', ¬ sides <+: sides' → ¬ sides' <+: sides →
        step.session.root.get? sides' = session.root.get? sides' := by
  intro called
  refine ⟨_, rfl, ?_⟩
  simp only [sendTo, h]
  refine ⟨rfl, rfl, rfl, Relay.get?_set_self _ (get?_of_locate? h), fun sides' hBelow hAbove => ?_⟩
  exact Relay.get?_set_of_apart _ _ hBelow hAbove

theorem perform_tick (session : Session) (clock : String) :
    session.perform (.tick clock) =
      some { reply := .stamp (session.clocks.now clock)
             session := { session with clocks := (session.clocks.tick clock).2 } } := by
  rw [← Clocks.stamp_tick]
  rfl

/-- A command that is turned down changes nothing that can be observed.

There are no notices, the relay stays as it is, and so does the reading of every
clock. -/
theorem declined_changes_nothing (h : session.perform command = some step)
    (hDeclined : step.reply.declines = true) :
    step.notices = [] ∧ step.session.root = session.root ∧
      ∀ name, step.session.clocks.now name = session.clocks.now name := by
  cases hMoves : command.moves with
  | false =>
      have quiet := quiet_perform h hMoves
      exact ⟨quiet.notices, quiet.root hDeclined, quiet.now⟩
  | true =>
      cases command with
      | describe _ | wrap _ | chain _ | renew | swap | keep _ => cases hMoves
      | send _ path | replay _ path =>
          obtain rfl := Option.some.inj h
          simp only [sendTo] at hDeclined ⊢
          split at hDeclined
          · exact ⟨rfl, rfl, fun _ => rfl⟩
          · cases hDeclined
      | tick clock =>
          obtain rfl := Option.some.inj h
          cases hDeclined

/-- A root that is no tee turns `chain` down, but the clock of the plan is in use
from then on. -/
example : (perform { root := .leaf .sink, clocks := {} } (.chain (.plan (.recorder "main" [])))).map
    (fun step => (step.reply.declines, step.session.clocks.readings)) =
      some (true, [("main", 0)]) := rfl

theorem now_le_perform (h : session.perform command = some step) (name : String) :
    session.clocks.now name ≤ step.session.clocks.now name := by
  cases hMoves : command.moves with
  | false => exact Nat.le_of_eq ((quiet_perform h hMoves).now name).symm
  | true =>
      cases command with
      | describe _ | wrap _ | chain _ | renew | swap | keep _ => cases hMoves
      | send e path =>
          obtain rfl := Option.some.inj h
          rw [sendTo]
          split
          · exact Nat.le_refl _
          · rw [Relay.now_deliver]
            exact Nat.le_add_right _ _
      | replay stream path =>
          obtain rfl := Option.some.inj h
          rw [sendTo]
          split
          · exact Nat.le_refl _
          · exact Relay.now_le_replay name stream _ _
      | tick clock =>
          rw [perform_tick] at h
          obtain rfl := Option.some.inj h
          rw [Clocks.now_tick]
          exact Nat.le_add_right _ _

/-! ## Runs -/

def stampGiven? (clock : String) : Command → Reply → Option Nat
  | .tick name, .stamp stamp => if name = clock then some stamp else none
  | _, _ => none

/-- The stamps that the commands of a run were given for ticks of a clock. -/
def stampsGiven (clock : String) (commands : List Command) (steps : List Step) : List Nat :=
  (commands.zip steps).filterMap fun turn => stampGiven? clock turn.1 turn.2.reply

theorem now_of_stampGiven? {clock : String} {stamp : Nat}
    (h : session.perform command = some step)
    (hStamp : stampGiven? clock command step.reply = some stamp) :
    stamp = session.clocks.now clock ∧ step.session.clocks.now clock = stamp + 1 := by
  cases command with
  | send _ _ | replay _ _ | describe _ | wrap _ | chain _ | renew | swap | keep _ => cases hStamp
  | tick name =>
      rw [perform_tick] at h
      obtain rfl := Option.some.inj h
      simp only [stampGiven?, Option.ite_none_right_eq_some, Option.some.injEq] at hStamp
      obtain ⟨rfl, rfl⟩ := hStamp
      exact ⟨rfl, session.clocks.now_tick_self name⟩

theorem run_cons {rest : List Command} {steps : List Step}
    (h : session.run (command :: rest) = some steps) :
    ∃ step later, session.perform command = some step ∧ step.session.run rest = some later ∧
      steps = step :: later := by
  obtain ⟨step, hStep, hRest⟩ := Option.bind_eq_some_iff.mp h
  obtain ⟨later, hLater, hSteps⟩ := Option.bind_eq_some_iff.mp hRest
  exact ⟨step, later, hStep, hLater, (Option.some.inj hSteps).symm⟩

/-- In a run the stamps that ticks of a clock are given increase, whatever is done
between them, and none is given that was taken before the run. -/
theorem stamps_increase (clock : String) : ∀ (commands : List Command) (session : Session)
    (steps : List Step), session.run commands = some steps →
      (∀ stamp ∈ stampsGiven clock commands steps, session.clocks.now clock ≤ stamp) ∧
        (stampsGiven clock commands steps).Pairwise (· < ·) := by
  intro commands
  induction commands with
  | nil => intro session steps _; exact ⟨fun stamp hm => (by cases hm), .nil⟩
  | cons command rest ih =>
      intro session steps h
      obtain ⟨step, later, hStep, hRest, rfl⟩ := run_cons h
      obtain ⟨hLater, hIncrease⟩ := ih step.session later hRest
      have hNow := now_le_perform hStep clock
      cases hStamp : stampGiven? clock command step.reply with
      | none =>
          have hSame : stampsGiven clock (command :: rest) (step :: later) =
              stampsGiven clock rest later := List.filterMap_cons_none hStamp
          rw [hSame]
          exact ⟨fun stamp hm => Nat.le_trans hNow (hLater stamp hm), hIncrease⟩
      | some first =>
          have hFirst : stampsGiven clock (command :: rest) (step :: later) =
              first :: stampsGiven clock rest later := List.filterMap_cons_some hStamp
          obtain ⟨rfl, hNext⟩ := now_of_stampGiven? hStep hStamp
          rw [hNext] at hLater
          rw [hFirst, List.pairwise_cons, List.forall_mem_cons]
          refine ⟨⟨Nat.le_refl _, fun stamp hm => ?_⟩, fun stamp hm => ?_, hIncrease⟩
          · exact Nat.le_of_lt (hLater stamp hm)
          · exact hLater stamp hm

end Session

end SelectorStream
