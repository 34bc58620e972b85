/-
# `SelectorStream.Proofs.Bracket` — what a pass admits

A pass that is fed a stream admits some of the events and turns the others
away, and goes on in either case.  `Pass.follow` is the pass after that and
`Pass.admitted` are the events that got through.  Whatever the stream, these
are *bracketed*: `init` comes first and only there, and nothing follows
`close`.
-/
import SelectorStream.Event.Basic
import SelectorStream.Pass

namespace SelectorStream

/-- The first call is `init`, `init` comes once at most, and nothing comes
after a `close`. -/
structure Bracketed (calls : List Event) : Prop where
  first : ∀ e ∈ calls.head?, e = .init
  once : calls.count .init ≤ 1
  last : calls.Pairwise fun earlier _ => earlier ≠ .close

namespace Pass

/-- The pass after a call, which leaves it as it was if it is turned away. -/
def settle (pass : Pass) (kind : Kind) : Pass :=
  match pass.accept kind with
  | .ok next => next
  | .error _ => pass

/-- The pass after calls of given kinds, those included that are turned away. -/
def follow (pass : Pass) (kinds : List Kind) : Pass :=
  kinds.foldl settle pass

def admitted (pass : Pass) : List Event → List Event
  | [] => []
  | e :: rest =>
    match pass.accept e.kind with
    | .ok next => e :: next.admitted rest
    | .error _ => pass.admitted rest

/-! ## One call -/

/-- The three ways in which a pass admits a call. -/
theorem accept_ok_cases {pass next : Pass} {kind : Kind} (h : pass.accept kind = .ok next) :
    (pass.phase = .idle ∧ kind = .init ∧ next = ⟨.opened, pass.position + 1⟩) ∨
    (pass.phase = .opened ∧ kind = .close ∧ next = ⟨.closed, pass.position + 1⟩) ∨
    (pass.phase = .opened ∧ kind ≠ .init ∧ kind ≠ .close ∧ next = ⟨.opened, pass.position + 1⟩) := by
  obtain ⟨phase, position⟩ := pass
  cases phase <;> cases kind <;> simp_all [accept, Phase.next]

theorem accept_error_cases {pass : Pass} {kind : Kind} {violation : Violation}
    (h : pass.accept kind = .error violation) :
    (pass.phase = .idle ∧ kind ≠ .init ∧ violation = ⟨pass.position, .refusal (.notOpened kind)⟩) ∨
    (pass.phase = .opened ∧ kind = .init ∧ violation = ⟨pass.position, .refusal .reopened⟩) ∨
    (pass.phase = .closed ∧ violation = ⟨pass.position, .refusal (.afterClose kind)⟩) ∨
    (pass.phase = .faulted ∧ violation = ⟨pass.position, .refusal (.afterBreach kind)⟩) := by
  obtain ⟨phase, position⟩ := pass
  cases phase <;> cases kind <;> simp_all [accept, Phase.next]

theorem kind_eq_init_iff {e : Event} : e.kind = .init ↔ e = .init := by
  cases e <;> simp [Event.kind]

theorem kind_eq_close_iff {e : Event} : e.kind = .close ↔ e = .close := by
  cases e <;> simp [Event.kind]

theorem accept_eq_ok {pass next : Pass} {e : Event} (h : pass.accept e.kind = .ok next) :
    (pass.phase = .idle ∧ e = .init ∧ next = ⟨.opened, pass.position + 1⟩) ∨
    (pass.phase = .opened ∧ e = .close ∧ next = ⟨.closed, pass.position + 1⟩) ∨
    (pass.phase = .opened ∧ e ≠ .init ∧ e ≠ .close ∧ next = ⟨.opened, pass.position + 1⟩) := by
  have hCases := accept_ok_cases h
  rwa [ne_eq, ne_eq, kind_eq_init_iff, kind_eq_close_iff] at hCases

theorem accept_close {pass : Pass} (h : pass.phase = .opened) :
    pass.accept Event.close.kind = .ok ⟨.closed, pass.position + 1⟩ := by
  simp [accept, h, Phase.next, Event.kind]

theorem accept_inner {pass : Pass} (h : pass.phase = .opened) {e : Event} (hInit : e ≠ .init)
    (hClose : e ≠ .close) : pass.accept e.kind = .ok ⟨.opened, pass.position + 1⟩ := by
  cases e <;> simp_all [accept, Phase.next, Event.kind]

theorem eq_init_of_accept_eq_error {pass : Pass} (h : pass.phase = .opened) {e : Event}
    {violation : Violation} (hRefused : pass.accept e.kind = .error violation) : e = .init := by
  rcases accept_error_cases hRefused with ⟨hIdle, _⟩ | ⟨_, hInit, _⟩ | ⟨hClosed, _⟩ | ⟨hFaulted, _⟩
  · rw [h] at hIdle
    cases hIdle
  · exact kind_eq_init_iff.mp hInit
  · rw [h] at hClosed
    cases hClosed
  · rw [h] at hFaulted
    cases hFaulted

theorem exists_accept_eq_error {pass : Pass} (h : pass.phase = .closed ∨ pass.phase = .faulted)
    (kind : Kind) :
    ∃ refusal, pass.accept kind = .error ⟨pass.position, .refusal refusal⟩ := by
  rcases h with h | h <;> simp [accept, h, Phase.next]

theorem accept_eq_error {pass : Pass} {kind : Kind} {violation : Violation}
    (h : pass.accept kind = .error violation) :
    ∃ refusal, violation = ⟨pass.position, .refusal refusal⟩ := by
  simp only [accept] at h
  split at h
  · cases h
  · rename_i refusal _
    exact ⟨refusal, (Except.error.inj h).symm⟩

theorem settle_of_ok {pass next : Pass} {kind : Kind} (h : pass.accept kind = .ok next) :
    pass.settle kind = next := by
  simp [settle, h]

theorem settle_of_error {pass : Pass} {kind : Kind} {violation : Violation}
    (h : pass.accept kind = .error violation) : pass.settle kind = pass := by
  simp [settle, h]

theorem admitted_of_ok {pass next : Pass} {e : Event} (h : pass.accept e.kind = .ok next) :
    pass.admitted [e] = [e] := by
  simp [admitted, h]

theorem admitted_of_error {pass : Pass} {e : Event} {violation : Violation}
    (h : pass.accept e.kind = .error violation) : pass.admitted [e] = [] := by
  simp [admitted, h]

/-! ## Streams -/

theorem follow_concat (pass : Pass) (kinds : List Kind) (kind : Kind) :
    pass.follow (kinds ++ [kind]) = (pass.follow kinds).settle kind := by
  simp [follow]

theorem admitted_concat (pass : Pass) (past : List Event) (e : Event) :
    pass.admitted (past ++ [e]) =
      pass.admitted past ++ (pass.follow (past.map Event.kind)).admitted [e] := by
  induction past generalizing pass with
  | nil => rfl
  | cons first past ih =>
      simp only [List.cons_append, admitted, List.map_cons, follow, List.foldl_cons, settle]
      split
      · rename_i next _
        rw [ih next]
        rfl
      · exact ih pass

/-- Only a breach of the grammar leads to `faulted`, and a pass knows none. -/
theorem phase_follow_ne_faulted (kinds : List Kind) : ∀ pass : Pass, pass.phase ≠ .faulted →
    (pass.follow kinds).phase ≠ .faulted := by
  induction kinds with
  | nil => intro pass h; exact h
  | cons kind kinds ih =>
      intro pass h
      refine ih (pass.settle kind) ?_
      obtain ⟨phase, position⟩ := pass
      cases phase <;> cases kind <;> simp_all [settle, accept, Phase.next]

theorem admitted_of_closed {pass : Pass} (h : pass.phase = .closed) (stream : List Event) :
    pass.admitted stream = [] := by
  induction stream with
  | nil => rfl
  | cons e rest ih =>
      obtain ⟨refusal, hr⟩ := exists_accept_eq_error (.inl h) e.kind
      simp only [admitted, hr, ih]

theorem admitted_of_opened (stream : List Event) : ∀ pass : Pass, pass.phase = .opened →
    .init ∉ pass.admitted stream ∧
      (pass.admitted stream).Pairwise fun earlier _ => earlier ≠ .close := by
  induction stream with
  | nil => intro pass _; simp [admitted]
  | cons e rest ih =>
      intro pass h
      cases hAccept : pass.accept e.kind with
      | error violation =>
          simp only [admitted, hAccept]
          exact ih pass h
      | ok next =>
          simp only [admitted, hAccept]
          rcases accept_eq_ok hAccept with ⟨hIdle, _⟩ | ⟨_, rfl, rfl⟩ | ⟨_, hInit, hClose, rfl⟩
          · rw [h] at hIdle
            cases hIdle
          · simp [admitted_of_closed]
          · obtain ⟨noInit, noClose⟩ := ih ⟨.opened, pass.position + 1⟩ rfl
            exact ⟨by simp [hInit.symm, noInit], List.pairwise_cons.mpr ⟨fun _ _ => hClose, noClose⟩⟩

theorem admitted_fresh (stream : List Event) :
    Pass.fresh.admitted stream = [] ∨ ∃ rest, Pass.fresh.admitted stream = .init :: rest ∧
      .init ∉ rest ∧ rest.Pairwise fun earlier _ => earlier ≠ .close := by
  induction stream with
  | nil => exact .inl rfl
  | cons e rest ih =>
      cases hAccept : Pass.fresh.accept e.kind with
      | error violation =>
          simp only [admitted, hAccept]
          exact ih
      | ok next =>
          simp only [admitted, hAccept]
          rcases accept_eq_ok hAccept with ⟨_, rfl, rfl⟩ | ⟨hOpened, _⟩ | ⟨hOpened, _⟩
          · exact .inr ⟨_, rfl, admitted_of_opened rest _ rfl⟩
          · cases hOpened
          · cases hOpened

end Pass

theorem bracketed_admitted (stream : List Event) : Bracketed (Pass.fresh.admitted stream) := by
  rcases Pass.admitted_fresh stream with hNil | ⟨rest, hCons, noInit, noClose⟩
  · rw [hNil]
    exact ⟨by simp, by simp, .nil⟩
  · rw [hCons]
    refine ⟨fun e he => (Option.some.inj he).symm, ?_, ?_⟩
    · simp [List.count_eq_zero.mpr noInit]
    · exact List.pairwise_cons.mpr ⟨fun _ _ => by decide, noClose⟩

/-! ## Parts of a bracketed stream -/

/-- Only the beginning of a part is in doubt: it is bracketed as well exactly
if `init` is in it, or nothing is. -/
theorem Bracketed.sublist {calls whole : List Event} (bracketed : Bracketed whole)
    (h : calls.Sublist whole) :
    (Bracketed calls ↔ calls = [] ∨ .init ∈ calls) ∧ calls.count .init ≤ 1 ∧
      calls.Pairwise fun earlier _ => earlier ≠ .close := by
  have once : calls.count .init ≤ 1 := Nat.le_trans (h.count_le .init) bracketed.once
  have last : calls.Pairwise fun earlier _ => earlier ≠ .close := bracketed.last.sublist h
  refine ⟨⟨fun part => ?_, fun hInit => ⟨fun e he => ?_, once, last⟩⟩, once, last⟩
  · cases calls with
    | nil => exact .inl rfl
    | cons e calls => exact .inr (part.first e rfl ▸ List.mem_cons_self)
  · rcases hInit with rfl | hInit
    · cases he
    · cases h with
      | slnil => cases hInit
      | cons_cons first _ => exact bracketed.first e he
      | @cons _ rest first h =>
          -- `init` stands in front of the whole, so it is not in the rest as well.
          obtain rfl := bracketed.first first rfl
          have once := bracketed.once
          rw [List.count_cons_self] at once
          have noInit : Event.init ∉ rest := List.count_eq_zero.mp (by omega)
          exact absurd (h.subset hInit) noInit

end SelectorStream
