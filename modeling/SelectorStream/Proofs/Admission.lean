/-
# `SelectorStream.Proofs.Admission` — a pass and the calls it has admitted

A pass is called again and again, and may be aborted at any time.  It goes on after a
refusal, and keeps a phase and a count but none of the calls.  What it has admitted is
always the beginning of one bracket: `init`, then calls of other kinds, then `close`
(`BeginsBracket`).

The phase is what a pass remembers of that.  `Pass.Remembers` has one clause for each
phase; one incident keeps it (`Remembers.undergo`), so a run does (`Remembers.after`).
Until it is aborted, a pass therefore turns a call away exactly if the bracket has no room
for it:

    Pass.admits_brackets
-/
import SelectorStream.Proofs.Bracket

namespace SelectorStream

/-! ## Brackets -/

def Inner (kinds : List Kind) : Prop :=
  ∀ kind ∈ kinds, kind ≠ .init ∧ kind ≠ .close

/-- The beginning of a bracket, or all of it: `init`, then kinds other than `init` and
`close`, then `close`. -/
def BeginsBracket (kinds : List Kind) : Prop :=
  ∃ inner, Inner inner ∧ kinds <+: .init :: (inner ++ [.close])

def refusalAfter (kinds : List Kind) (kind : Kind) : Refusal :=
  if kinds = [] then .notOpened kind
  else if .close ∈ kinds then .afterClose kind
  else .reopened

section Brackets

variable {inner : List Kind} {kind : Kind}

theorem inner_nil : Inner [] := by
  intro kind h
  cases h

theorem Inner.concat (h : Inner inner) (hInit : kind ≠ .init) (hClose : kind ≠ .close) :
    Inner (inner ++ [kind]) := by
  intro other hm
  rcases List.mem_append.mp hm with hm | hm
  · exact h other hm
  · rw [List.mem_singleton.mp hm]
    exact ⟨hInit, hClose⟩

theorem beginsBracket_iff {kinds : List Kind} :
    BeginsBracket kinds ↔
      kinds = [] ∨ ∃ inner, Inner inner ∧
        (kinds = .init :: inner ∨ kinds = .init :: (inner ++ [.close])) := by
  constructor
  · rintro ⟨inner, hInner, hPrefix⟩
    rcases List.prefix_cons_iff.mp hPrefix with rfl | ⟨rest, rfl, hRest⟩
    · exact .inl rfl
    · rcases List.prefix_concat_iff.mp hRest with rfl | hRest
      · exact .inr ⟨inner, hInner, .inr rfl⟩
      · exact .inr ⟨rest, fun kind hm => hInner kind (hRest.subset hm), .inl rfl⟩
  · rintro (rfl | ⟨inner, hInner, rfl | rfl⟩)
    · exact ⟨[], inner_nil, List.nil_prefix⟩
    · exact ⟨inner, hInner, List.cons_prefix_cons.mpr ⟨rfl, List.prefix_append _ _⟩⟩
    · exact ⟨inner, hInner, List.prefix_rfl⟩

theorem beginsBracket_singleton_iff : BeginsBracket [kind] ↔ kind = .init := by
  rw [beginsBracket_iff]
  constructor
  · rintro (h | ⟨_, _, h | h⟩)
    · cases h
    · exact (List.cons.inj h).1
    · exact (List.cons.inj h).1
  · rintro rfl
    exact .inr ⟨[], inner_nil, .inl rfl⟩

theorem beginsBracket_concat_iff (h : Inner inner) :
    BeginsBracket (.init :: inner ++ [kind]) ↔ kind ≠ .init := by
  rw [beginsBracket_iff]
  constructor
  · rintro (hNil | ⟨other, hOther, hOpen | hClosed⟩) rfl
    · cases hNil
    · have hInit : .init ∈ other := by
        rw [← (List.cons.inj hOpen).2]
        exact List.mem_append_right _ List.mem_cons_self
      exact (hOther .init hInit).1 rfl
    · have hLast := (List.append_inj' (List.cons.inj hClosed).2 rfl).2
      cases hLast
  · intro hInit
    by_cases hClose : kind = .close
    · subst hClose
      exact .inr ⟨inner, h, .inr rfl⟩
    · exact .inr ⟨inner ++ [kind], h.concat hInit hClose, .inl rfl⟩

theorem not_beginsBracket_of_closed :
    ¬ BeginsBracket (.init :: (inner ++ [.close]) ++ [kind]) := by
  rw [beginsBracket_iff]
  have hClose : .close ∈ inner ++ [.close] := List.mem_append_right _ List.mem_cons_self
  rintro (hNil | ⟨other, hOther, hOpen | hClosed⟩)
  · cases hNil
  · have hMem : .close ∈ other := by
      rw [← (List.cons.inj hOpen).2]
      exact List.mem_append_left _ hClose
    exact (hOther .close hMem).2 rfl
  · have hMem : .close ∈ other := by
      rw [← (List.append_inj' (List.cons.inj hClosed).2 rfl).1]
      exact hClose
    exact (hOther .close hMem).2 rfl

end Brackets

/-! ## Runs -/

inductive Incident where
  | call (kind : Kind)
  | abort
deriving DecidableEq

namespace Pass

def undergo (pass : Pass) : Incident → Pass
  | .call kind => pass.settle kind
  | .abort => pass.abort

/-- The pass after incidents, calls included that it turns away. -/
def after (pass : Pass) (past : List Incident) : Pass :=
  past.foldl undergo pass

/-- The kind that an incident adds to those admitted. -/
def adds (pass : Pass) : Incident → List Kind
  | .call kind =>
    match pass.accept kind with
    | .ok _ => [kind]
    | .error _ => []
  | .abort => []

/-- The kinds of the calls that are admitted on the way. -/
def history (pass : Pass) : List Incident → List Kind
  | [] => []
  | incident :: rest => pass.adds incident ++ (pass.undergo incident).history rest

theorem adds_of_ok {pass next : Pass} {kind : Kind} (h : pass.accept kind = .ok next) :
    pass.adds (.call kind) = [kind] := by
  simp only [adds, h]

theorem adds_of_error {pass : Pass} {kind : Kind} {violation : Violation}
    (h : pass.accept kind = .error violation) : pass.adds (.call kind) = [] := by
  simp only [adds, h]

theorem after_concat (pass : Pass) (past : List Incident) (incident : Incident) :
    pass.after (past ++ [incident]) = (pass.after past).undergo incident := by
  simp [after]

theorem history_concat (past : List Incident) (incident : Incident) : ∀ pass : Pass,
    pass.history (past ++ [incident]) = pass.history past ++ (pass.after past).adds incident := by
  induction past with
  | nil =>
      intro pass
      exact List.append_nil _
  | cons first past ih =>
      intro pass
      rw [List.cons_append, history, history, ih, List.append_assoc]
      rfl

/-- Nothing but an abortion leads to `faulted`, and nothing leads out of it. -/
theorem phase_undergo_eq_faulted_iff (pass : Pass) (incident : Incident) :
    (pass.undergo incident).phase = .faulted ↔ pass.phase = .faulted ∨ incident = .abort := by
  obtain ⟨phase, position⟩ := pass
  cases incident with
  | abort => simp [undergo, abort]
  | call kind => cases phase <;> cases kind <;> simp [undergo, settle, accept, Phase.next]

theorem phase_after_eq_faulted_iff (past : List Incident) : ∀ pass : Pass,
    (pass.after past).phase = .faulted ↔ pass.phase = .faulted ∨ .abort ∈ past := by
  induction past with
  | nil => intro pass; simp [after]
  | cons incident past ih =>
      intro pass
      have hRest : (pass.after (incident :: past)).phase = .faulted ↔
          (pass.undergo incident).phase = .faulted ∨ .abort ∈ past := ih (pass.undergo incident)
      rw [hRest, phase_undergo_eq_faulted_iff, List.mem_cons, or_assoc, eq_comm (a := incident)]

/-! ## What a pass remembers -/

/-- The phase and the position of a pass that has admitted calls of certain kinds. -/
inductive Remembers : List Kind → Pass → Prop where
  | idle : Remembers [] ⟨.idle, 0⟩
  | opened {inner : List Kind} :
    Inner inner → Remembers (.init :: inner) ⟨.opened, inner.length + 1⟩
  | closed {inner : List Kind} :
    Inner inner → Remembers (.init :: (inner ++ [.close])) ⟨.closed, inner.length + 2⟩
  | faulted {kinds : List Kind} :
    BeginsBracket kinds → Remembers kinds ⟨.faulted, kinds.length⟩

namespace Remembers

variable {kinds : List Kind} {pass : Pass}

theorem beginsBracket (h : Remembers kinds pass) : BeginsBracket kinds := by
  cases h with
  | idle => exact beginsBracket_iff.mpr (.inl rfl)
  | @opened inner hInner => exact beginsBracket_iff.mpr (.inr ⟨inner, hInner, .inl rfl⟩)
  | @closed inner hInner => exact beginsBracket_iff.mpr (.inr ⟨inner, hInner, .inr rfl⟩)
  | faulted hBegins => exact hBegins

theorem position (h : Remembers kinds pass) : pass.position = kinds.length := by
  cases h with
  | idle | opened _ | faulted _ => rfl
  | closed _ => simp

theorem accept {next : Pass} {kind : Kind} (h : Remembers kinds pass)
    (hAccept : pass.accept kind = .ok next) : Remembers (kinds ++ [kind]) next := by
  rcases accept_ok_cases hAccept with
    ⟨hIdle, rfl, rfl⟩ | ⟨hOpened, rfl, rfl⟩ | ⟨hOpened, hInit, hClose, rfl⟩
  · cases h with
    | idle => exact .opened inner_nil
    | opened _ | closed _ | faulted _ => cases hIdle
  · cases h with
    | opened hInner => exact .closed hInner
    | idle | closed _ | faulted _ => cases hOpened
  · cases h with
    | @opened inner hInner =>
        have hLonger := Remembers.opened (hInner.concat hInit hClose)
        rwa [List.length_append] at hLonger
    | idle | closed _ | faulted _ => cases hOpened

/-- One incident: nothing but an admitted call changes the history. -/
theorem undergo (h : Remembers kinds pass) (incident : Incident) :
    Remembers (kinds ++ pass.adds incident) (pass.undergo incident) := by
  cases incident with
  | abort =>
      have hAborted : pass.undergo .abort = ⟨.faulted, kinds.length⟩ := by
        rw [← h.position]
        rfl
      rw [hAborted, adds, List.append_nil]
      exact .faulted h.beginsBracket
  | call kind =>
      cases hAccept : pass.accept kind with
      | error violation =>
          rw [adds_of_error hAccept, List.append_nil, Pass.undergo, settle_of_error hAccept]
          exact h
      | ok next =>
          rw [adds_of_ok hAccept, Pass.undergo, settle_of_ok hAccept]
          exact h.accept hAccept

theorem refused {kind : Kind} {violation : Violation} (h : Remembers kinds pass)
    (hPhase : pass.phase ≠ .faulted) (hAccept : pass.accept kind = .error violation) :
    ¬ BeginsBracket (kinds ++ [kind]) ∧
      violation = ⟨kinds.length, .refusal (refusalAfter kinds kind)⟩ := by
  rw [← h.position]
  rcases accept_error_cases hAccept with
    ⟨hIdle, hInit, rfl⟩ | ⟨hOpened, rfl, rfl⟩ | ⟨hClosed, rfl⟩ | ⟨hFaulted, _⟩
  · cases h with
    | idle => exact ⟨fun hBegins => hInit (beginsBracket_singleton_iff.mp hBegins), rfl⟩
    | opened _ | closed _ | faulted _ => cases hIdle
  · cases h with
    | @opened inner hInner =>
        have hClose : .close ∉ .init :: inner := by
          intro hm
          rcases List.mem_cons.mp hm with hm | hm
          · cases hm
          · exact (hInner .close hm).2 rfl
        refine ⟨fun hBegins => (beginsBracket_concat_iff hInner).mp hBegins rfl, ?_⟩
        rw [refusalAfter, if_neg (List.cons_ne_nil _ _), if_neg hClose]
    | idle | closed _ | faulted _ => cases hOpened
  · cases h with
    | @closed inner _ =>
        have hClose : .close ∈ .init :: (inner ++ [.close]) := by simp
        refine ⟨not_beginsBracket_of_closed, ?_⟩
        rw [refusalAfter, if_neg (List.cons_ne_nil _ _), if_pos hClose]
    | idle | opened _ | faulted _ => cases hClosed
  · exact absurd hFaulted hPhase

theorem after (past : List Incident) : ∀ {kinds : List Kind} {pass : Pass},
    Remembers kinds pass → Remembers (kinds ++ pass.history past) (pass.after past) := by
  induction past with
  | nil =>
      intro kinds pass h
      rw [history, List.append_nil]
      exact h
  | cons incident past ih =>
      intro kinds pass h
      rw [history, ← List.append_assoc]
      exact ih (h.undergo incident)

end Remembers

/-- A pass admits brackets, and nothing else.

Let calls come to a fresh pass in any order, and abortions between them.  What it has
admitted begins a bracket, and its position is the number of those calls.  As long as it has
not been aborted, it turns a call away exactly if the bracket could not go on with it: with
`notOpened` before anything was admitted, with `reopened` in an open bracket and with
`afterClose` behind a closed one.  Once it has been aborted, it turns every call away.  A
call that is turned away changes nothing. -/
theorem admits_brackets (past : List Incident) :
    let pass := fresh.after past
    let admitted := fresh.history past
    BeginsBracket admitted ∧ pass.position = admitted.length ∧
      (.abort ∉ past → ∀ kind violation, pass.accept kind = .error violation ↔
        ¬ BeginsBracket (admitted ++ [kind]) ∧
          violation = ⟨admitted.length, .refusal (refusalAfter admitted kind)⟩) ∧
      (.abort ∈ past → ∀ kind,
        pass.accept kind = .error ⟨admitted.length, .refusal (.afterBreach kind)⟩) ∧
      ∀ kind violation, pass.accept kind = .error violation →
        fresh.after (past ++ [.call kind]) = pass ∧
          fresh.history (past ++ [.call kind]) = admitted := by
  intro pass admitted
  have remembers : Remembers admitted pass := Remembers.idle.after past
  have hAborted : pass.phase = .faulted ↔ .abort ∈ past := by
    rw [phase_after_eq_faulted_iff past fresh, or_iff_right (by decide)]
  refine ⟨remembers.beginsBracket, remembers.position, ?_, ?_, ?_⟩
  · intro hNever kind violation
    have hPhase : pass.phase ≠ .faulted := fun hFaulted => hNever (hAborted.mp hFaulted)
    constructor
    · intro hAccept
      exact remembers.refused hPhase hAccept
    · rintro ⟨hBegins, rfl⟩
      cases hAccept : pass.accept kind with
      | ok next => exact absurd (remembers.accept hAccept).beginsBracket hBegins
      | error violation => rw [(remembers.refused hPhase hAccept).2]
  · intro hAbort kind
    have hPhase : pass.phase = .faulted := hAborted.mpr hAbort
    rw [accept, hPhase, remembers.position]
    rfl
  · intro kind violation hAccept
    refine ⟨?_, ?_⟩
    · rw [after_concat]
      exact settle_of_error hAccept
    · rw [history_concat]
      exact (congrArg (admitted ++ ·) (adds_of_error hAccept)).trans (List.append_nil _)

end Pass

end SelectorStream
