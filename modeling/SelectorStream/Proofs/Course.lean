/-
# `SelectorStream.Proofs.Course` — the course of one call

One call of a tree of tees, in whatever state its tees are.  The event goes to
the leaves from left to right and stops at a leaf that rejects it, or before a
tee that turns it away; a tee inside the tree may do so although the root does
not.  `Relay.Course` describes all that comes of this, and `Relay.course_deliver`
says that every call has a course, by induction on the tree.

The leaves that get the event are therefore an initial segment of the row of
leaves, and each of them finds the world as the one before it has left it.  If
the recorders among them share a clock that nobody else moves, their stamps
follow one another:

    Relay.visits_initial_segment
-/
import SelectorStream.Proofs.Grouping
import SelectorStream.Proofs.Shield

namespace SelectorStream

variable {E L W : Type} [Receiver E L W]

/-! ## Rows that are visited -/

/-- Hands an event to all receivers of a row, one after the other, whatever they
answer: their states and the world after that. -/
def visit (e : Event) : List L → W → List L × W
  | [], w => ([], w)
  | l :: rest, w =>
    let called := Receiver.receive e l w
    let others := visit e rest called.world
    (called.state :: others.1, others.2)

theorem visit_append (e : Event) (others : List L) : ∀ (row : List L) (w : W),
    visit e (row ++ others) w =
      ((visit e row w).1 ++ (visit e others (visit e row w).2).1,
        (visit e others (visit e row w).2).2) := by
  intro row
  induction row with
  | nil => intro w; rfl
  | cons l row ih => intro w; simp only [List.cons_append, visit, ih]

theorem length_visit (e : Event) : ∀ (row : List L) (w : W),
    (visit e row w).1.length = row.length := by
  intro row
  induction row with
  | nil => intro w; rfl
  | cons l row ih => intro w; simp only [visit, List.length_cons, ih]

theorem map_receiver_agreedFrom (n : Nat) (e : Event) (count : Nat) :
    (agreedFrom n e count : List (Receipt E)).map Receipt.receiver = List.range' n count := by
  simp [agreedFrom, Function.comp_def]

theorem answer_of_mem_agreedFrom {n : Nat} {e : Event} {count : Nat} {call : Receipt E}
    (h : call ∈ agreedFrom n e count) : call.event = e ∧ call.answer = .ok () := by
  obtain ⟨i, _, rfl⟩ := List.mem_map.mp h
  exact ⟨rfl, rfl⟩

namespace Relay

variable [OfViolation E]

/-! ## Tees that turn a call away -/

theorem leaves_eq_filterMap_nodes (relay : Relay L) :
    relay.leaves = relay.nodes.filterMap Sum.getRight? := by
  induction relay with
  | leaf l => rfl
  | tee guard primary secondary ihp ihs =>
      show primary.leaves ++ secondary.leaves = (primary.nodes ++ secondary.nodes).filterMap _
      rw [ihp, ihs, List.filterMap_append]

theorem mem_guards_of_mem_nodes {relay : Relay L} {guard : Pass} (h : .inl guard ∈ relay.nodes) :
    guard ∈ relay.guards := by
  induction relay with
  | leaf l => simp [nodes] at h
  | tee own primary secondary ihp ihs =>
      simp only [nodes, List.mem_cons, List.mem_append, Sum.inl.injEq] at h
      rcases h with rfl | h | h
      · exact List.mem_cons_self
      · exact List.mem_cons_of_mem _ (List.mem_append_left _ (ihp h))
      · exact List.mem_cons_of_mem _ (List.mem_append_right _ (ihs h))

/-- In preorder, `i` leaves and tees that admit calls of a kind come before a
tee that does not, in its own words. -/
def Barred (relay : Relay L) (kind : Kind) (i : Nat) (violation : Violation) : Prop :=
  ∃ before guard after, relay.nodes = before ++ .inl guard :: after ∧
    (before.filterMap Sum.getRight?).length = i ∧
    (∀ earlier, .inl earlier ∈ before → ∃ next, earlier.accept kind = .ok next) ∧
    guard.accept kind = .error violation

section Barred

variable {guard next : Pass} {primary secondary : Relay L} {kind : Kind} {i : Nat}
  {violation : Violation}

theorem barred_root (h : guard.accept kind = .error violation) (primary secondary : Relay L) :
    (tee guard primary secondary).Barred kind 0 violation :=
  ⟨[], guard, primary.nodes ++ secondary.nodes, rfl, rfl, fun _ hm => (by cases hm), h⟩

theorem Barred.of_primary (h : guard.accept kind = .ok next) (barred : primary.Barred kind i violation)
    (secondary : Relay L) : (tee guard primary secondary).Barred kind i violation := by
  obtain ⟨before, own, after, hNodes, hLeaves, hBefore, hOwn⟩ := barred
  refine ⟨.inl guard :: before, own, after ++ secondary.nodes, ?_, ?_, fun earlier hm => ?_, hOwn⟩
  · simp [nodes, hNodes]
  · exact hLeaves
  · rcases List.mem_cons.mp hm with he | hm
    · obtain rfl := Sum.inl.inj he
      exact ⟨next, h⟩
    · exact hBefore earlier hm

theorem Barred.of_secondary (h : guard.accept kind = .ok next) (admits : primary.Admits kind)
    (barred : secondary.Barred kind i violation) :
    (tee guard primary secondary).Barred kind (primary.leaves.length + i) violation := by
  obtain ⟨before, own, after, hNodes, hLeaves, hBefore, hOwn⟩ := barred
  refine ⟨.inl guard :: (primary.nodes ++ before), own, after, ?_, ?_, fun earlier hm => ?_, hOwn⟩
  · simp [nodes, hNodes]
  · show ((primary.nodes ++ before).filterMap Sum.getRight?).length = _
    rw [List.filterMap_append, List.length_append, ← leaves_eq_filterMap_nodes, hLeaves]
  · rcases List.mem_cons.mp hm with he | hm
    · obtain rfl := Sum.inl.inj he
      exact ⟨next, h⟩
    · rcases List.mem_append.mp hm with hm | hm
      · exact admits earlier (mem_guards_of_mem_nodes hm)
      · exact hBefore earlier hm

end Barred

/-! ## Courses -/

/-- How a call ends: after how many leaves, with which entries, those of the
relay being numbered from `n`, and with which answer. -/
inductive Ends (relay : Relay L) (e : Event) (n : Nat) :
    Nat → List (Receipt E) → Answer E → Prop where
  | accepted : relay.Admits e.kind →
    Ends relay e n relay.leaves.length (agreedFrom n e relay.leaves.length) (.ok ())
  | rejected {i : Nat} {rejection : E} : i < relay.leaves.length →
    Ends relay e n (i + 1) (agreedFrom n e i ++ [⟨n + i, e, .error rejection⟩]) (.error rejection)
  | refused {i : Nat} {violation : Violation} : i < relay.leaves.length →
    relay.Barred e.kind i violation →
    Ends relay e n i (agreedFrom n e i) (.error (ofViolation violation))

/-- What a call makes of a relay: it ends, and the first `reached` leaves were
visited. -/
structure Course (relay : Relay L) (e : Event) (n : Nat) (w : W) (reached : Nat)
    (called : Outcome E (Relay L) W) (calls : List (Receipt E)) : Prop where
  ends : Ends relay e n reached calls called.answer
  leaves : called.state.leaves =
    (visit e (relay.leaves.take reached) w).1 ++ relay.leaves.drop reached
  world : called.world = (visit e (relay.leaves.take reached) w).2

section Tee

variable {guard next : Pass} {primary secondary : Relay L} {e : Event} {n : Nat} {w : W}

theorem Ends.reached_le {relay : Relay L} {reached : Nat} {calls : List (Receipt E)}
    {answer : Answer E} (ends : Ends relay e n reached calls answer) : reached ≤ relay.leaves.length := by
  cases ends with
  | accepted _ => exact Nat.le_refl _
  | rejected h => exact h
  | refused h _ => exact Nat.le_of_lt h

theorem Ends.of_ok {relay : Relay L} {reached : Nat} {calls : List (Receipt E)}
    (ends : Ends relay e n reached calls (.ok ())) :
    relay.Admits e.kind ∧ reached = relay.leaves.length ∧
      calls = agreedFrom n e relay.leaves.length := by
  cases ends with
  | accepted admits => exact ⟨admits, rfl, rfl⟩

theorem Ends.of_primary (h : guard.accept e.kind = .ok next) {reached : Nat}
    {calls : List (Receipt E)} {rejection : E}
    (ends : Ends primary e n reached calls (.error rejection)) (secondary : Relay L) :
    Ends (tee guard primary secondary) e n reached calls (.error rejection) := by
  have hLength : primary.leaves.length ≤ (tee guard primary secondary).leaves.length := by
    rw [Relay.leaves, List.length_append]
    exact Nat.le_add_right _ _
  cases ends with
  | rejected hi => exact .rejected (Nat.lt_of_lt_of_le hi hLength)
  | refused hi barred => exact .refused (Nat.lt_of_lt_of_le hi hLength) (barred.of_primary h secondary)

theorem Ends.of_secondary (h : guard.accept e.kind = .ok next) (admits : primary.Admits e.kind)
    {reached : Nat} {calls : List (Receipt E)} {answer : Answer E}
    (ends : Ends secondary e (n + primary.leaves.length) reached calls answer) :
    Ends (tee guard primary secondary) e n (primary.leaves.length + reached)
      (agreedFrom n e primary.leaves.length ++ calls) answer := by
  have hLength : (tee guard primary secondary).leaves.length =
      primary.leaves.length + secondary.leaves.length := by
    rw [Relay.leaves, List.length_append]
  cases ends with
  | accepted admits' =>
      rw [agreedFrom_append, ← hLength]
      exact .accepted (forall_guards_tee.mpr ⟨⟨next, h⟩, admits, admits'⟩)
  | @rejected i rejection hi =>
      rw [← List.append_assoc, agreedFrom_append, Nat.add_assoc n, ← Nat.add_assoc]
      exact .rejected (by omega)
  | refused hi barred =>
      rw [agreedFrom_append]
      exact .refused (by omega) (barred.of_secondary h admits)

end Tee

theorem course_deliver (e : Event) : ∀ (relay : Relay L) (n : Nat) (w : W),
    ∃ reached, Course relay e n w reached (deliver e relay w) (relay.receiptsFrom n e w) := by
  intro relay
  induction relay with
  | leaf l =>
      intro n w
      refine ⟨1, ?_, rfl, rfl⟩
      rw [receiptsFrom_leaf]
      show Ends _ e n 1 [⟨n, e, (Receiver.receive e l w).answer⟩] (Receiver.receive e l w).answer
      cases (Receiver.receive e l w).answer with
      | ok _ => exact .accepted fun guard hg => by cases hg
      | error rejection => exact .rejected Nat.zero_lt_one
  | tee guard primary secondary ihp ihs =>
      intro n w
      cases hAccept : guard.accept e.kind with
      | error violation =>
          refine ⟨0, ?_⟩
          rw [deliver_tee_of_refused hAccept, receiptsFrom_tee_of_refused hAccept]
          refine ⟨.refused ?_ (barred_root hAccept primary secondary), rfl, rfl⟩
          exact List.length_pos_iff.mpr (leaves_ne_nil _)
      | ok next =>
          obtain ⟨reached, first⟩ := ihp n w
          have hReached := first.ends.reached_le
          cases hFirst : (deliver e primary w).answer with
          | error rejection =>
              obtain ⟨hAnswer, hState, hWorld⟩ := deliver_tee_of_rejected hAccept hFirst secondary
              have hEnds := first.ends
              rw [hFirst] at hEnds
              refine ⟨reached, ?_, ?_, ?_⟩
              · rw [hAnswer, receiptsFrom_tee_of_rejected hAccept hFirst]
                exact hEnds.of_primary hAccept secondary
              · rw [hState, leaves, leaves, List.take_append_of_le_length hReached,
                  List.drop_append_of_le_length hReached, ← List.append_assoc, ← first.leaves]
              · rw [hWorld, leaves, List.take_append_of_le_length hReached, ← first.world]
          | ok _ =>
              obtain ⟨hAnswer, hState, hWorld⟩ := deliver_tee_of_accepted hAccept hFirst secondary
              obtain ⟨reached', second⟩ :=
                ihs (n + primary.leaves.length) (deliver e primary w).world
              have hEnds := first.ends
              rw [hFirst] at hEnds
              obtain ⟨admits, rfl, hCalls⟩ := hEnds.of_ok
              have hLeaves := first.leaves
              have hMid := first.world
              rw [List.take_length] at hLeaves hMid
              rw [List.drop_length, List.append_nil] at hLeaves
              refine ⟨primary.leaves.length + reached', ?_, ?_, ?_⟩
              · rw [hAnswer, receiptsFrom_tee_of_accepted hAccept hFirst, hCalls]
                exact second.ends.of_secondary hAccept admits
              · rw [hState, leaves, leaves, List.take_length_add_append, List.drop_length_add_append,
                  visit_append, hLeaves, second.leaves, hMid, List.append_assoc]
              · rw [hWorld, leaves, List.take_length_add_append, visit_append, second.world, hMid]

/-! ### The entries of a call -/

namespace Ends

variable {relay : Relay L} {e : Event} {n reached : Nat} {calls : List (Receipt E)}
  {answer : Answer E}

theorem map_receiver (ends : Ends relay e n reached calls answer) :
    calls.map Receipt.receiver = List.range' n reached := by
  cases ends with
  | accepted _ => exact map_receiver_agreedFrom n e _
  | refused _ _ => exact map_receiver_agreedFrom n e _
  | rejected _ =>
      rw [List.map_append, map_receiver_agreedFrom, List.range'_concat, Nat.one_mul]
      rfl

theorem event_eq (ends : Ends relay e n reached calls answer) : ∀ call ∈ calls, call.event = e := by
  intro call hm
  cases ends with
  | accepted _ => exact (answer_of_mem_agreedFrom hm).1
  | refused _ _ => exact (answer_of_mem_agreedFrom hm).1
  | rejected _ =>
      rcases List.mem_append.mp hm with hm | hm
      · exact (answer_of_mem_agreedFrom hm).1
      · rw [List.mem_singleton.mp hm]

theorem answer_of_mem_dropLast (ends : Ends relay e n reached calls answer) :
    ∀ call ∈ calls.dropLast, call.answer = .ok () := by
  intro call hm
  cases ends with
  | accepted _ => exact (answer_of_mem_agreedFrom (List.dropLast_subset _ hm)).2
  | refused _ _ => exact (answer_of_mem_agreedFrom (List.dropLast_subset _ hm)).2
  | rejected _ =>
      rw [List.dropLast_concat] at hm
      exact (answer_of_mem_agreedFrom hm).2

theorem answer_eq_ok_iff (ends : Ends relay e n reached calls answer) :
    answer = .ok () ↔ reached = relay.leaves.length ∧ ∀ call ∈ calls, call.answer = .ok () := by
  cases ends with
  | accepted _ =>
      constructor
      · intro _
        exact ⟨rfl, fun call hm => (answer_of_mem_agreedFrom hm).2⟩
      · intro _
        rfl
  | refused hShort _ =>
      constructor
      · intro hOk
        cases hOk
      · rintro ⟨hAll, _⟩
        exact absurd hAll (Nat.ne_of_lt hShort)
  | rejected _ =>
      constructor
      · intro hOk
        cases hOk
      · rintro ⟨_, hAgreed⟩
        cases hAgreed _ (List.mem_append_right _ List.mem_cons_self)

/-- A rejection is that of the last leaf that is visited, or of a tee. -/
theorem error_cases {rejection : E}
    (ends : Ends relay e n reached calls (.error rejection)) :
    calls.getLast?.map Receipt.answer = some (.error rejection) ∨
      (∀ call ∈ calls, call.answer = .ok ()) ∧
        ∃ violation, rejection = ofViolation violation ∧ relay.Barred e.kind reached violation := by
  cases ends with
  | rejected _ =>
      rw [List.getLast?_concat]
      exact .inl rfl
  | refused _ barred =>
      exact .inr ⟨fun call hm => (answer_of_mem_agreedFrom hm).2, _, rfl, barred⟩

end Ends

end Relay

/-! ## Stamps -/

theorem Recorder.exists_entry (e : Event) (r : Recorder) (clocks : Clocks) :
    ∃ accepted, (r.receive e clocks).state.log.toList =
      r.log.toList ++ [⟨clocks.now r.clock, e, accepted⟩] :=
  ⟨_, toList_log_receive e r clocks⟩

/-- Recorders before and after a call: each has one new entry, and the stamps
follow one another from `first` on. -/
def Stamped (e : Event) (first : Nat) (before after : List Recorder) : Prop :=
  after.length = before.length ∧
    ∀ (k : Nat) (r r' : Recorder), before[k]? = some r → after[k]? = some r' →
      ∃ accepted, r'.log.toList = r.log.toList ++ [⟨first + k, e, accepted⟩]

theorem Stamped.cons {e : Event} {first : Nat} {r r' : Recorder} {before after : List Recorder}
    {accepted : Bool} (hFirst : r'.log.toList = r.log.toList ++ [⟨first, e, accepted⟩])
    (stamped : Stamped e (first + 1) before after) :
    Stamped e first (r :: before) (r' :: after) := by
  refine ⟨congrArg (· + 1) stamped.1, fun k s s' hs hs' => ?_⟩
  cases k with
  | zero =>
      obtain rfl := Option.some.inj hs
      obtain rfl := Option.some.inj hs'
      exact ⟨accepted, hFirst⟩
  | succ k =>
      have hStamp := stamped.2 k s s' hs hs'
      rwa [Nat.add_right_comm] at hStamp

section Stamps

variable {A : Type} [Receiver Rejection A Clocks]

def recordersOf (row : List (Recorder ⊕ A)) : List Recorder :=
  row.filterMap Sum.getLeft?

/-- The others of a row take no stamp of a clock. -/
def Undisturbed (e : Event) (clock : String) (row : List (Recorder ⊕ A)) : Prop :=
  ∀ a, .inr a ∈ row → ∀ clocks : Clocks,
    (Receiver.receive e a clocks).world.now clock = clocks.now clock

theorem stamped_visit (e : Event) (clock : String) :
    ∀ (row : List (Recorder ⊕ A)) (clocks : Clocks),
      (∀ r ∈ recordersOf row, r.clock = clock) → Undisturbed e clock row →
        Stamped e (clocks.now clock) (recordersOf row) (recordersOf (visit e row clocks).1) := by
  intro row
  induction row with
  | nil =>
      intro clocks _ _
      exact ⟨rfl, fun k r r' h => by cases h⟩
  | cons first row ih =>
      intro clocks hClock hOthers
      have hRest : Undisturbed e clock row := fun a hm => hOthers a (List.mem_cons_of_mem _ hm)
      cases first with
      | inl r =>
          obtain rfl : r.clock = clock := hClock r List.mem_cons_self
          obtain ⟨accepted, hEntry⟩ := r.exists_entry e clocks
          have stamped := ih (clocks.tick r.clock).2
            (fun r' hm => hClock r' (List.mem_cons_of_mem _ hm)) hRest
          rw [Clocks.now_tick_self] at stamped
          exact stamped.cons hEntry
      | inr a =>
          have stamped := ih (Receiver.receive e a clocks).world hClock hRest
          rwa [hOthers a List.mem_cons_self clocks] at stamped

end Stamps

/-- A view of receivers under which a call of the one is a call of the other
carries over to rows. -/
theorem visit_map {M : Type} [Receiver E M W] {view : L → M} {e : Event}
    (hView : ∀ l w, (Receiver.receive e (view l) w : Outcome E M W) =
      (Receiver.receive e l w).map view) :
    ∀ (row : List L) (w : W),
      visit e (row.map view) w = ((visit e row w).1.map view, (visit e row w).2) := by
  intro row
  induction row with
  | nil => intro w; rfl
  | cons l row ih =>
      intro w
      simp only [List.map_cons, visit, hView, Outcome.map, ih]

def Endpoint.split : Endpoint → Recorder ⊕ Endpoint
  | .recorder r => .inl r
  | other => .inr other

theorem Endpoint.receive_split (e : Event) (endpoint : Endpoint) (clocks : Clocks) :
    (Receiver.receive e endpoint.split clocks : Outcome Rejection (Recorder ⊕ Endpoint) Clocks) =
      (Receiver.receive e endpoint clocks).map split := by
  cases endpoint <;> rfl

theorem recordersOf_map_split (row : List Endpoint) :
    recordersOf (row.map Endpoint.split) = row.filterMap Endpoint.recorder? := by
  have hSplit : Sum.getLeft? ∘ Endpoint.split = Endpoint.recorder? :=
    funext fun endpoint => by cases endpoint <;> rfl
  rw [recordersOf, List.filterMap_map, hSplit]

theorem undisturbed_map_split (e : Event) (clock : String) (row : List Endpoint) :
    Undisturbed e clock (row.map Endpoint.split) := by
  intro endpoint hm clocks
  obtain ⟨source, _, hSplit⟩ := List.mem_map.mp hm
  cases source with
  | recorder r => cases hSplit
  | checker v => obtain rfl := Sum.inr.inj hSplit; rfl
  | sink => obtain rfl := Sum.inr.inj hSplit; rfl
  | tally t => obtain rfl := Sum.inr.inj hSplit; rfl

namespace Relay

variable [OfViolation E]

/-- What a call of a relay in a world leaves, and the entries about it: it
visits an initial segment of the leaves. -/
structure Visits (relay : Relay L) (e : Event) (w : W) (called : Outcome E (Relay L) W)
    (calls : List (Receipt E)) : Prop where
  length_le : calls.length ≤ relay.leaves.length
  once : calls.map Receipt.receiver = List.range calls.length
  unchanged : ∀ call ∈ calls, call.event = e
  agreed : ∀ call ∈ calls.dropLast, call.answer = .ok ()
  /-- The leaves of the segment take the event in turn, the others stay. -/
  leaves : called.state.leaves =
    (visit e (relay.leaves.take calls.length) w).1 ++ relay.leaves.drop calls.length
  world : called.world = (visit e (relay.leaves.take calls.length) w).2
  answer_ok : called.answer = .ok () ↔
    calls.length = relay.leaves.length ∧ ∀ call ∈ calls, call.answer = .ok ()
  /-- A rejection comes from the leaf that is visited last, or, when the leaves
  visited have accepted, from the tee that stands behind them and refuses. -/
  answer_error : ∀ rejection, called.answer = .error rejection →
    calls.getLast?.map Receipt.answer = some (.error rejection) ∨
      (∀ call ∈ calls, call.answer = .ok ()) ∧
        ∃ violation, rejection = ofViolation violation ∧
          relay.Barred e.kind calls.length violation

theorem visits_deliver (relay : Relay L) (e : Event) (w : W) :
    relay.Visits e w (deliver e relay w) (relay.receipts e w) := by
  obtain ⟨reached, course⟩ := course_deliver e relay 0 w
  have hOnce := course.ends.map_receiver
  obtain rfl : (relay.receipts e w).length = reached := by
    have hLength := congrArg List.length hOnce
    rwa [List.length_map, List.length_range'] at hLength
  exact {
    length_le := course.ends.reached_le
    once := hOnce.trans List.range_eq_range'.symm
    unchanged := course.ends.event_eq
    agreed := course.ends.answer_of_mem_dropLast
    leaves := course.leaves
    world := course.world
    answer_ok := course.ends.answer_eq_ok_iff
    answer_error := fun rejection hAnswer => (hAnswer ▸ course.ends).error_cases }

theorem Visits.take_leaves {relay : Relay L} {e : Event} {w : W} {called : Outcome E (Relay L) W}
    {calls : List (Receipt E)} (visits : relay.Visits e w called calls) :
    called.state.leaves.take calls.length = (visit e (relay.leaves.take calls.length) w).1 := by
  have hLength : (visit e (relay.leaves.take calls.length) w).1.length = calls.length := by
    rw [length_visit, List.length_take_of_le visits.length_le]
  rw [visits.leaves, List.take_left' hLength]

/-- One call visits an initial segment of the leaves, whatever the leaves are
and whatever state the tees are in.

The recorders among the leaves visited, if they share a clock, get consecutive
stamps.  Receivers of other sorts must not take stamps of that clock meanwhile;
those of a session never do. -/
theorem visits_initial_segment :
    (∀ {E L W : Type} [OfViolation E] [Receiver E L W] (relay : Relay L) (e : Event) (w : W),
      relay.Visits e w (deliver e relay w) (relay.receipts e w)) ∧
    (∀ {A : Type} [Receiver Rejection A Clocks] (relay : Relay (Recorder ⊕ A)) (e : Event)
        (clocks : Clocks) (clock : String),
      let count := (relay.receipts e clocks).length
      let before := relay.leaves.take count
      let after := (deliver e relay clocks).state.leaves.take count
      (∀ r ∈ recordersOf before, r.clock = clock) → Undisturbed e clock before →
        Stamped e (clocks.now clock) (recordersOf before) (recordersOf after)) ∧
    (∀ (relay : Relay Endpoint) (e : Event) (clocks : Clocks) (clock : String),
      let count := (relay.receipts e clocks).length
      let before := (relay.leaves.take count).filterMap Endpoint.recorder?
      let after := ((deliver e relay clocks).state.leaves.take count).filterMap Endpoint.recorder?
      (∀ r ∈ before, r.clock = clock) → Stamped e (clocks.now clock) before after) := by
  refine ⟨?_, ?_, ?_⟩
  · intro E L W _ _ relay e w
    exact visits_deliver relay e w
  · intro A _ relay e clocks clock count before after hClock hOthers
    have hAfter : after = (visit e before clocks).1 := (visits_deliver relay e clocks).take_leaves
    rw [hAfter]
    exact stamped_visit e clock before clocks hClock hOthers
  · intro relay e clocks clock count before after hClock
    have hAfter : (deliver e relay clocks).state.leaves.take count =
        (visit e (relay.leaves.take count) clocks).1 :=
      (visits_deliver relay e clocks).take_leaves
    have stamped := stamped_visit e clock ((relay.leaves.take count).map Endpoint.split) clocks
      (by rwa [recordersOf_map_split]) (undisturbed_map_split e clock _)
    rwa [visit_map (Endpoint.receive_split e), recordersOf_map_split, recordersOf_map_split,
      ← hAfter] at stamped

/-- Two recorders on one clock around a checker, in nested tees. -/
theorem visits_two_recorders :
    let recorder : Relay Endpoint := .leaf (.recorder { clock := "main" })
    let relay := pair (pair recorder (.leaf (.checker {}))) recorder
    let after := (deliver .init relay ({} : Clocks)).state.leaves
    (relay.receipts .init ({} : Clocks)).length = 3 ∧
      (∀ r ∈ (relay.leaves.take 3).filterMap Endpoint.recorder?, r.clock = "main") ∧
      Stamped .init 0 (relay.leaves.filterMap Endpoint.recorder?)
        (after.filterMap Endpoint.recorder?) := by
  intro recorder relay after
  have hClock : ∀ r ∈ (relay.leaves.take 3).filterMap Endpoint.recorder?, r.clock = "main" :=
    List.forall_mem_cons.mpr ⟨rfl, List.forall_mem_singleton.mpr rfl⟩
  exact ⟨rfl, hClock, visits_initial_segment.2.2 relay .init {} "main" hClock⟩

/-- A receiver that takes a stamp of a clock and keeps it to itself. -/
structure Ticker where
  clock : String

instance : Receiver Rejection Ticker Clocks where
  receive _ ticker clocks :=
    { answer := .ok (), state := ticker, world := (clocks.tick ticker.clock).2 }

/-- Between two recorders on one clock a receiver of another sort can break the row
of their stamps, so these have to be `Undisturbed`. -/
theorem not_stamped_around_ticker :
    let recorder : Relay (Recorder ⊕ Ticker) := .leaf (.inl { clock := "main" })
    let relay := pair (pair recorder (.leaf (.inr ⟨"main"⟩))) recorder
    let after := (deliver .init relay ({} : Clocks)).state.leaves
    (relay.receipts .init ({} : Clocks)).length = 3 ∧
      (∀ r ∈ recordersOf relay.leaves, r.clock = "main") ∧
      ¬ Stamped .init 0 (recordersOf relay.leaves) (recordersOf after) := by
  intro recorder relay after
  refine ⟨rfl, ?_, fun stamped => ?_⟩
  · exact List.forall_mem_cons.mpr ⟨rfl, List.forall_mem_singleton.mpr rfl⟩
  · obtain ⟨accepted, hEntries⟩ := stamped.2 1 _ _ rfl rfl
    have hStamps : [2] = [1] := congrArg (List.map Entry.stamp) hEntries
    exact absurd hStamps (by decide)

end Relay

end SelectorStream
