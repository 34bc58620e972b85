/-
# `SelectorStream.Proofs.Broadcast` — a chain of tees is one broadcast

A chain is a tee over two receivers to which others have been added, one tee
for each.  `Relay.chainAt guard` is a chain all of whose guards are the same
pass.  A call keeps a chain in this form, since every tee of it lets its guard
move on before any receiver is asked: this is the invariant of the module, and
`deliver_chainAt_of_ok` is its step.

Seen from outside a chain is then one pass in front of a row of receivers, to
which `offer` hands an event one after the other, until one rejects it.

The last section looks at the two sides of a single tee.  The primary side sees
a bracketed stream.  The secondary side sees what the primary side accepted of
it, and that need not begin with `init`.
-/
import Mathlib.Data.List.Induction
import SelectorStream.Endpoint
import SelectorStream.Proofs.Bracket
import SelectorStream.Proofs.Journal

namespace SelectorStream

variable {E L W : Type} [Receiver E L W]

/-! ## Rows of receivers -/

/-- Hands an event to receivers one after the other, until one rejects it. -/
def offer (e : Event) : List L → W → Outcome E (List L) W
  | [], w => { answer := .ok (), state := [], world := w }
  | l :: rest, w =>
    let called := Receiver.receive e l w
    match called.answer with
    | .error rejection => ⟨.error rejection, called.state :: rest, called.world, called.notices⟩
    | .ok () =>
      let others := offer e rest called.world
      ⟨others.answer, called.state :: others.state, others.world, called.notices ++ others.notices⟩

theorem offer_singleton (e : Event) (l : L) (w : W) :
    offer e [l] w = (Receiver.receive e l w).map ([·]) := by
  cases hCalled : Receiver.receive e l w with
  | mk answer state world notices => cases answer <;> simp [offer, hCalled, Outcome.map]

theorem offer_append_of_error {e : Event} {rejection : E} (others : List L) :
    ∀ (row : List L) (w : W), (offer e row w).answer = .error rejection →
      let offered := offer e (row ++ others) w
      offered.answer = .error rejection ∧ offered.state = (offer e row w).state ++ others ∧
        offered.world = (offer e row w).world := by
  intro row
  induction row with
  | nil => intro w h; cases h
  | cons first row ih =>
      intro w h
      simp only [List.cons_append, offer] at h ⊢
      cases hFirst : (Receiver.receive e first w).answer with
      | error _ =>
          simp only [hFirst, and_true] at h ⊢
          exact ⟨h, rfl⟩
      | ok _ =>
          simp only [hFirst] at h ⊢
          obtain ⟨hAnswer, hState, hWorld⟩ := ih _ h
          exact ⟨hAnswer, by rw [hState, List.cons_append], hWorld⟩

theorem offer_append_of_ok {e : Event} (others : List L) :
    ∀ (row : List L) (w : W), (offer e row w).answer = .ok () →
      let offered := offer e (row ++ others) w
      let rest := offer e others (offer e row w).world
      offered.answer = rest.answer ∧ offered.state = (offer e row w).state ++ rest.state ∧
        offered.world = rest.world := by
  intro row
  induction row with
  | nil => intro w _; exact ⟨rfl, rfl, rfl⟩
  | cons first row ih =>
      intro w h
      simp only [List.cons_append, offer] at h ⊢
      cases hFirst : (Receiver.receive e first w).answer with
      | error _ =>
          simp only [hFirst] at h
          cases h
      | ok _ =>
          simp only [hFirst] at h ⊢
          obtain ⟨hAnswer, hState, hWorld⟩ := ih _ h
          exact ⟨hAnswer, by rw [hState, List.cons_append], hWorld⟩

/-! ## Journals of a broadcast -/

/-- The receivers numbered from `n` on get an event, `count` of them in this
order, and accept it. -/
def agreedFrom (n : Nat) (e : Event) (count : Nat) : List (Receipt E) :=
  (List.range' n count).map fun i => ⟨i, e, .ok ()⟩

/-- An event is handed to `count` receivers in order, until one rejects it, and
that is the answer. -/
def FailFast (e : Event) (count : Nat) (calls : List (Receipt E)) (answer : Answer E) : Prop :=
  (calls = agreedFrom 0 e count ∧ answer = .ok ()) ∨
  ∃ i < count, ∃ rejection,
    calls = agreedFrom 0 e i ++ [⟨i, e, .error rejection⟩] ∧ answer = .error rejection

theorem agreedFrom_append (n : Nat) (e : Event) (count others : Nat) :
    (agreedFrom n e count : List (Receipt E)) ++ agreedFrom (n + count) e others =
      agreedFrom n e (count + others) := by
  simp only [agreedFrom, ← List.map_append, List.range'_append_1]

theorem agreedFrom_succ (n : Nat) (e : Event) (count : Nat) :
    (agreedFrom n e (count + 1) : List (Receipt E)) =
      agreedFrom n e count ++ [⟨n + count, e, .ok ()⟩] :=
  (agreedFrom_append n e count 1).symm

theorem FailFast.concat_of_ok {e : Event} {count : Nat} {calls : List (Receipt E)}
    (h : FailFast e count calls (.ok ())) (answer : Answer E) :
    FailFast e (count + 1) (calls ++ [⟨count, e, answer⟩]) answer := by
  rcases h with ⟨hCalls, _⟩ | ⟨_, _, _, _, hAnswer⟩
  · rw [hCalls]
    cases answer with
    | ok _ => exact .inl ⟨by rw [agreedFrom_succ, Nat.zero_add], rfl⟩
    | error rejection => exact .inr ⟨count, Nat.lt_succ_self _, rejection, rfl, rfl⟩
  · cases hAnswer

theorem FailFast.succ_of_error {e : Event} {count : Nat} {calls : List (Receipt E)}
    {rejection : E} (h : FailFast e count calls (.error rejection)) :
    FailFast e (count + 1) calls (.error rejection) := by
  rcases h with ⟨_, hAnswer⟩ | ⟨i, hi, hRest⟩
  · cases hAnswer
  · exact .inr ⟨i, Nat.lt_succ_of_lt hi, hRest⟩

theorem receivedBy_append (i : Nat) (past calls : List (Receipt E)) :
    receivedBy i (past ++ calls) = receivedBy i past ++ receivedBy i calls := by
  simp [receivedBy]

theorem acceptedBy_append (i : Nat) (past calls : List (Receipt E)) :
    acceptedBy i (past ++ calls) = acceptedBy i past ++ acceptedBy i calls := by
  simp [acceptedBy]

theorem acceptedBy_sublist_receivedBy (i : Nat) (entries : List (Receipt E)) :
    (acceptedBy i entries).Sublist (receivedBy i entries) := by
  rw [acceptedBy, receivedBy]
  simp only [← List.filter_filter]
  exact (List.Sublist.filter _ List.filter_sublist).map _

theorem receivedBy_agreedFrom_zero (e : Event) (i : Nat) : ∀ count,
    receivedBy i (agreedFrom 0 e count : List (Receipt E)) = if i < count then [e] else [] := by
  intro count
  induction count with
  | zero => rfl
  | succ count ih =>
      rw [agreedFrom_succ, Nat.zero_add, receivedBy_append, ih]
      by_cases hi : i = count
      · subst hi
        simp [receivedBy]
      · have : i < count + 1 ↔ i < count := by omega
        simp [receivedBy, Ne.symm hi, this]

theorem acceptedBy_agreedFrom_zero (e : Event) (i : Nat) : ∀ count,
    acceptedBy i (agreedFrom 0 e count : List (Receipt E)) = if i < count then [e] else [] := by
  intro count
  induction count with
  | zero => rfl
  | succ count ih =>
      rw [agreedFrom_succ, Nat.zero_add, acceptedBy_append, ih]
      by_cases hi : i = count
      · subst hi
        simp [acceptedBy, Except.isOk, Except.toBool]
      · have : i < count + 1 ↔ i < count := by omega
        simp [acceptedBy, Ne.symm hi, this]

theorem FailFast.receivedBy_zero {e : Event} {count : Nat} {calls : List (Receipt E)}
    {answer : Answer E}
    (h : FailFast e (count + 1) calls answer) : receivedBy 0 calls = [e] := by
  rcases h with ⟨rfl, _⟩ | ⟨i, _, rejection, rfl, _⟩
  · simp [receivedBy_agreedFrom_zero]
  · rw [receivedBy_append, receivedBy_agreedFrom_zero]
    cases i with
    | zero => rfl
    | succ i => simp [receivedBy]

theorem FailFast.receivedBy_succ {e : Event} {count : Nat} {calls : List (Receipt E)}
    {answer : Answer E}
    (h : FailFast e count calls answer) {i : Nat} (hi : i + 1 < count) :
    receivedBy (i + 1) calls = acceptedBy i calls := by
  rcases h with ⟨rfl, _⟩ | ⟨last, _, rejection, rfl, _⟩
  · rw [receivedBy_agreedFrom_zero, acceptedBy_agreedFrom_zero, if_pos hi, if_pos (Nat.lt_of_succ_lt hi)]
  · rw [receivedBy_append, receivedBy_agreedFrom_zero, acceptedBy_append, acceptedBy_agreedFrom_zero]
    have silent : acceptedBy i [⟨last, e, .error rejection⟩] = [] := by
      simp [acceptedBy, Except.isOk, Except.toBool]
    rw [silent]
    by_cases hLast : last = i + 1
    · subst hLast
      simp [receivedBy]
    · have : i + 1 < last ↔ i < last := by omega
      simp [receivedBy, hLast, this]

/-! ## Chains -/

namespace Relay

variable [OfViolation E]

def chainAt (guard : Pass) (first : L) (others : List L) : Relay L :=
  others.foldl (fun relay l => .tee guard relay (.leaf l)) (.leaf first)

/-- A new tee over two receivers, to which others are added one by one. -/
def chain (first second : L) (others : List L) : Relay L :=
  others.foldl (fun relay l => relay.pair (.leaf l)) (pair (.leaf first) (.leaf second))

def guards : Relay L → List Pass
  | .leaf _ => []
  | .tee guard primary secondary => guard :: (primary.guards ++ secondary.guards)

theorem chainAt_concat (guard : Pass) (first : L) (others : List L) (l : L) :
    chainAt guard first (others ++ [l]) = .tee guard (chainAt guard first others) (.leaf l) := by
  simp [chainAt]

theorem leaves_chainAt (guard : Pass) (first : L) (others : List L) :
    (chainAt guard first others).leaves = first :: others := by
  induction others using List.reverseRecOn with
  | nil => rfl
  | append_singleton others l ih => rw [chainAt_concat, leaves, ih]; rfl

theorem guards_chainAt (guard : Pass) (first : L) (others : List L) :
    (chainAt guard first others).guards = List.replicate others.length guard := by
  induction others using List.reverseRecOn with
  | nil => rfl
  | append_singleton others l ih =>
      rw [chainAt_concat, guards, ih, guards, List.append_nil, List.length_append]
      rfl

/-! ### One call

A chain of one receiver is that receiver, so it has a guard only if there are
others. -/

section Call

variable {guard : Pass} {e : Event}

theorem deliver_chainAt_of_error {violation : Violation}
    (h : guard.accept e.kind = .error violation) (first : L) {others : List L}
    (hOthers : 0 < others.length) (w : W) :
    let called := deliver e (chainAt guard first others) w
    called.answer = .error (ofViolation violation) ∧ called.state = chainAt guard first others ∧
      called.world = w ∧ receipts (chainAt guard first others) e w = [] := by
  obtain ⟨before, l, rfl⟩ :=
    (List.eq_nil_or_concat others).resolve_left (List.length_pos_iff.mp hOthers)
  rw [List.concat_eq_append, chainAt_concat, deliver_tee_of_refused h]
  exact ⟨rfl, rfl, rfl, receiptsFrom_tee_of_refused h⟩

/-- What a chain does with an event that its guards admit: it offers the event
to the row of its receivers, and is a chain again, with the next guard. -/
structure Broadcasts (e : Event) (next : Pass) (first : L) (others : List L) (w : W)
    (called : Outcome E (Relay L) W) (calls : List (Receipt E)) : Prop where
  answer : called.answer = (offer e (first :: others) w).answer
  world : called.world = (offer e (first :: others) w).world
  state : ∃ first' others', others'.length = others.length ∧
    (offer e (first :: others) w).state = first' :: others' ∧
    called.state = chainAt next first' others'
  calls : FailFast e (others.length + 1) calls called.answer

theorem deliver_chainAt_of_ok {next : Pass} (h : guard.accept e.kind = .ok next) (first : L)
    (others : List L) (w : W) :
    Broadcasts e next first others w (deliver e (chainAt guard first others) w)
      (receipts (chainAt guard first others) e w) := by
  induction others using List.reverseRecOn with
  | nil =>
      have hOffer := offer_singleton e first w
      refine ⟨?_, ?_, ⟨(Receiver.receive e first w).state, [], rfl, ?_, rfl⟩, ?_⟩
      · rw [hOffer]
        rfl
      · rw [hOffer]
        rfl
      · rw [hOffer]
        rfl
      · exact FailFast.concat_of_ok (.inl ⟨rfl, rfl⟩) _
  | append_singleton others l ih =>
      obtain ⟨hAnswer, hWorld, ⟨first', others', hLength, hRow, hState⟩, hCalls⟩ := ih
      rw [chainAt_concat, receipts]
      cases hFirst : (deliver e (chainAt guard first others) w).answer with
      | error rejection =>
          obtain ⟨teeAnswer, teeState, teeWorld⟩ := deliver_tee_of_rejected h hFirst (.leaf l)
          rw [hFirst] at hAnswer hCalls
          obtain ⟨rowAnswer, rowState, rowWorld⟩ := offer_append_of_error [l] _ w hAnswer.symm
          refine ⟨?_, ?_, ⟨first', others' ++ [l], ?_, ?_, ?_⟩, ?_⟩
          · exact teeAnswer.trans rowAnswer.symm
          · exact teeWorld.trans (hWorld.trans rowWorld.symm)
          · simp [hLength]
          · exact rowState.trans (by rw [hRow, List.cons_append])
          · rw [teeState, hState, chainAt_concat]
          · rw [teeAnswer, receiptsFrom_tee_of_rejected h hFirst, List.length_append]
            exact hCalls.succ_of_error
      | ok _ =>
          obtain ⟨teeAnswer, teeState, teeWorld⟩ := deliver_tee_of_accepted h hFirst (.leaf l)
          rw [hFirst] at hAnswer hCalls
          obtain ⟨rowAnswer, rowState, rowWorld⟩ := offer_append_of_ok [l] _ w hAnswer.symm
          rw [← hWorld, offer_singleton] at rowAnswer rowState rowWorld
          let last := Receiver.receive e l (deliver e (chainAt guard first others) w).world
          refine ⟨?_, ?_, ⟨first', others' ++ [last.state], ?_, ?_, ?_⟩, ?_⟩
          · exact teeAnswer.trans rowAnswer.symm
          · exact teeWorld.trans rowWorld.symm
          · simp [hLength]
          · exact rowState.trans (by rw [hRow, List.cons_append]; rfl)
          · rw [teeState, hState, chainAt_concat]
            rfl
          · rw [teeAnswer, receiptsFrom_tee_of_accepted h hFirst, List.length_append,
              receiptsFrom_leaf, leaves_chainAt, List.length_cons, Nat.zero_add]
            exact hCalls.concat_of_ok _

end Call

/-! ### Streams -/

/-- A stream keeps a chain a chain, whatever its receivers do, and all guards
follow the kinds of the calls. -/
theorem run_chainAt (guard : Pass) (first : L) {others : List L} (hOthers : 0 < others.length) (w : W)
    (past : List Event) :
    ∃ first' others', others'.length = others.length ∧
      (Receiver.run past (chainAt guard first others) w).1 =
        chainAt (guard.follow (past.map Event.kind)) first' others' := by
  induction past using List.reverseRecOn with
  | nil => exact ⟨first, others, rfl, rfl⟩
  | append_singleton past e ih =>
      obtain ⟨first', others', hLength, hState⟩ := ih
      have hOthers' : 0 < others'.length := hLength.symm ▸ hOthers
      rw [Receiver.run_concat, List.map_append, List.map_singleton, Pass.follow_concat]
      show ∃ first' others', _ ∧ (deliver e (Receiver.run past _ w).1 _).state = _
      rw [hState]
      cases hAccept : (guard.follow (past.map Event.kind)).accept e.kind with
      | error violation =>
          rw [Pass.settle_of_error hAccept]
          exact ⟨first', others', hLength, (deliver_chainAt_of_error hAccept first' hOthers' _).2.1⟩
      | ok next =>
          rw [Pass.settle_of_ok hAccept]
          obtain ⟨first'', others'', hLength', _, hState'⟩ :=
            (deliver_chainAt_of_ok hAccept first' others'
              (Receiver.run past (chainAt guard first others) w).2).state
          exact ⟨first'', others'', hLength'.trans hLength, hState'⟩

/-- In one call the first receiver gets what the guard admits, and every other
what the one before it accepts. -/
theorem receivedBy_receipts_chainAt (guard : Pass) (first : L) {others : List L}
    (hOthers : 0 < others.length) (e : Event) (w : W) :
    let calls := receipts (chainAt guard first others) e w
    receivedBy 0 calls = guard.admitted [e] ∧
      ∀ i < others.length, receivedBy (i + 1) calls = acceptedBy i calls := by
  intro calls
  cases hAccept : guard.accept e.kind with
  | error violation =>
      have silent : calls = [] := (deliver_chainAt_of_error hAccept first hOthers w).2.2.2
      rw [silent, Pass.admitted_of_error hAccept]
      exact ⟨rfl, fun _ _ => rfl⟩
  | ok next =>
      have broadcast := (deliver_chainAt_of_ok hAccept first others w).calls
      rw [Pass.admitted_of_ok hAccept]
      exact ⟨broadcast.receivedBy_zero, fun i hi => broadcast.receivedBy_succ (Nat.succ_lt_succ hi)⟩

theorem receivedBy_journal_chainAt (guard : Pass) (first : L) {others : List L}
    (hOthers : 0 < others.length) (w : W) (past : List Event) :
    let entries := journal (chainAt guard first others) past w
    receivedBy 0 entries = guard.admitted past ∧
      ∀ i < others.length, receivedBy (i + 1) entries = acceptedBy i entries := by
  induction past using List.reverseRecOn with
  | nil => exact ⟨rfl, fun _ _ => rfl⟩
  | append_singleton past e ih =>
      obtain ⟨hZero, hSucc⟩ := ih
      obtain ⟨first', others', hLength, hState⟩ := run_chainAt guard first hOthers w past
      have hOthers' : 0 < others'.length := hLength.symm ▸ hOthers
      obtain ⟨callZero, callSucc⟩ := receivedBy_receipts_chainAt
        (guard.follow (past.map Event.kind)) first' hOthers' e
        (Receiver.run past (chainAt guard first others) w).2
      rw [hLength] at callSucc
      simp only [journal_concat, receivedBy_append, acceptedBy_append, hState]
      refine ⟨?_, fun i hi => ?_⟩
      · rw [hZero, callZero, Pass.admitted_concat]
      · rw [hSucc i hi, callSucc i hi]

/-- A chain of fresh tees is one pass in front of its receivers.

Before every call all its guards are the pass that followed the kinds of the
calls so far, and that pass knows no faults.  What it refuses reaches no
receiver and changes nothing.  What it admits is offered to the receivers in
their order, up to the first that rejects it. -/
theorem chain_broadcasts (first second : L) (others : List L) (w : W) (past : List Event)
    (e : Event) :
    let chain := chain first second others
    let guard := Pass.fresh.follow (past.map Event.kind)
    let before := Receiver.run past chain w
    let called := deliver e before.1 before.2
    let calls := before.1.receipts e before.2
    let entries := chain.journal past w
    before.1.guards = List.replicate (others.length + 1) guard ∧ guard.phase ≠ .faulted ∧
      (∀ violation, guard.accept e.kind = .error violation →
        called.answer = .error (ofViolation violation) ∧ called.state = before.1 ∧
          called.world = before.2 ∧ calls = []) ∧
      (∀ next, guard.accept e.kind = .ok next →
        let offered := offer e before.1.leaves before.2
        called.answer = offered.answer ∧ called.state.leaves = offered.state ∧
          called.world = offered.world ∧
          FailFast e (others.length + 2) calls called.answer) ∧
      receivedBy 0 entries = Pass.fresh.admitted past ∧
      ∀ i < others.length + 1, receivedBy (i + 1) entries = acceptedBy i entries := by
  intro chain guard before called calls entries
  have hOthers : 0 < (second :: others).length := Nat.succ_pos _
  obtain ⟨first', others', hLength, hState⟩ := run_chainAt .fresh first hOthers w past
  have hOthers' : 0 < others'.length := hLength.symm ▸ hOthers
  have hBefore : before.1 = chainAt guard first' others' := hState
  refine ⟨?_, ?_, fun violation hAccept => ?_, fun next hAccept => ?_, ?_⟩
  · rw [hBefore, guards_chainAt, hLength, List.length_cons]
  · exact Pass.phase_follow_ne_faulted _ _ (by decide)
  · show (deliver e before.1 before.2).answer = _ ∧ (deliver e before.1 before.2).state = _ ∧
      (deliver e before.1 before.2).world = _ ∧ before.1.receipts e before.2 = []
    rw [hBefore]
    exact deliver_chainAt_of_error hAccept first' hOthers' before.2
  · obtain ⟨hAnswer, hWorld, ⟨first'', others'', _, hRow, hState'⟩, hCalls⟩ :=
      deliver_chainAt_of_ok hAccept first' others' before.2
    show (deliver e before.1 before.2).answer = _ ∧ (deliver e before.1 before.2).state.leaves = _ ∧
      (deliver e before.1 before.2).world = _ ∧
      FailFast e _ (before.1.receipts e before.2) (deliver e before.1 before.2).answer
    rw [hBefore, leaves_chainAt, hState', leaves_chainAt, hRow]
    rw [hLength] at hCalls
    exact ⟨hAnswer, rfl, hWorld, hCalls⟩
  · exact receivedBy_journal_chainAt .fresh first hOthers w past

/-! ## The sides of one tee -/

/-- When a tee brackets what its sides receive.

The primary side always gets a bracketed stream.  The secondary side gets what
the primary side accepts: `init` at most once, nothing after `close`, but
`init` need not come first.  It does unless the primary side rejected `init`
and accepted something later. -/
theorem bracketed_sides_iff (primary secondary : L) (w : W) (stream : List Event) :
    let entries := (pair (.leaf primary) (.leaf secondary)).journal stream w
    (Bracketed (receivedBy 0 entries) ∧ Bracketed (receivedBy 1 entries) ↔
        acceptedBy 0 entries = [] ∨ .init ∈ acceptedBy 0 entries) ∧
      Bracketed (receivedBy 0 entries) ∧ (receivedBy 1 entries).count .init ≤ 1 ∧
      (receivedBy 1 entries).Pairwise fun earlier _ => earlier ≠ .close := by
  intro entries
  -- A tee is the shortest chain that has a guard.
  have hOthers : 0 < [secondary].length := Nat.zero_lt_one
  have row := receivedBy_journal_chainAt .fresh primary hOthers w stream
  have hPrimary : receivedBy 0 entries = Pass.fresh.admitted stream := row.1
  have hSecondary : receivedBy 1 entries = acceptedBy 0 entries := row.2 0 hOthers
  have bracketed : Bracketed (receivedBy 0 entries) := by
    rw [hPrimary]
    exact bracketed_admitted stream
  obtain ⟨hIff, once, last⟩ := bracketed.sublist (acceptedBy_sublist_receivedBy 0 entries)
  rw [hSecondary]
  exact ⟨⟨fun both => hIff.mp both.2, fun h => ⟨bracketed, hIff.mpr h⟩⟩, bracketed, once, last⟩

/-- A primary side that rejects `init` is enough: `selector` is then the first
event that the secondary side gets. -/
theorem exists_secondary_not_bracketed :
    let primary := Endpoint.tally { failsOn := some .init, reason := "no" }
    let secondary := Endpoint.recorder { clock := "main" }
    let entries := (pair (.leaf primary) (.leaf secondary)).journal [.init, .selector]
      (Clocks.start {} "main")
    receivedBy 1 entries = [.selector] ∧ ¬ Bracketed (receivedBy 1 entries) := by
  intro primary secondary entries
  have received : receivedBy 1 entries = [.selector] := by decide
  refine ⟨received, fun bracketed => ?_⟩
  rw [received] at bracketed
  cases bracketed.first .selector rfl

end Relay

end SelectorStream
