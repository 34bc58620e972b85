/-
# `SelectorStream.Proofs.Precedence` — comparing logs

`Log.isBefore` walks two logs of one size side by side.  It asks for the same
events and earlier stamps, and never looks at what was accepted:

    Log.isBefore_iff_getElem

So it is as good an order on logs as `<` is on stamps, with one exception.  Two
empty logs have no stamps to compare, and each is before the other.
-/
import Mathlib.Data.List.Forall2
import SelectorStream.Log

namespace SelectorStream.Log

theorem isBefore_iff_forall₂ (ours theirs : Log) :
    ours.isBefore theirs = true ↔
      List.Forall₂ (fun a b => a.event = b.event ∧ a.stamp < b.stamp)
        ours.toList theirs.toList := by
  simp only [isBefore, size_eq_length_toList, Bool.and_eq_true, decide_eq_true_eq,
    List.all_eq_true, Entry.isBefore, List.forall₂_iff_zip, Prod.forall]

theorem isBefore_iff_getElem (ours theirs : Log) :
    ours.isBefore theirs = true ↔ ours.size = theirs.size ∧
      ∀ (i : Nat) (hOurs : i < ours.toList.length) (hTheirs : i < theirs.toList.length),
        ours.toList[i].event = theirs.toList[i].event ∧
          ours.toList[i].stamp < theirs.toList[i].stamp := by
  rw [isBefore_iff_forall₂, List.forall₂_iff_get, size_eq_length_toList, size_eq_length_toList]
  exact Iff.rfl

theorem eq_nil_of_isBefore_isBefore {ours theirs : Log} (h : ours.isBefore theirs = true)
    (h' : theirs.isBefore ours = true) : ours.toList = [] ∧ theirs.toList = [] := by
  rw [isBefore_iff_forall₂] at h h'
  generalize ours.toList = entries, theirs.toList = entries' at h h' ⊢
  cases h with
  | nil => exact ⟨rfl, rfl⟩
  | cons hHead _ =>
      cases h' with
      | cons hHead' _ => exact absurd hHead.2 (Nat.lt_asymm hHead'.2)

theorem isBefore_trans {x y z : Log} (h : x.isBefore y = true) (h' : y.isBefore z = true) :
    x.isBefore z = true := by
  rw [isBefore_iff_getElem] at h h' ⊢
  obtain ⟨hSize, hEntries⟩ := h
  obtain ⟨hSize', hEntries'⟩ := h'
  refine ⟨hSize.trans hSize', fun i hx hz => ?_⟩
  have hy : i < y.toList.length := by
    rwa [← size_eq_length_toList, ← hSize, size_eq_length_toList]
  obtain ⟨hEvent, hStamp⟩ := hEntries i hx hy
  obtain ⟨hEvent', hStamp'⟩ := hEntries' i hy hz
  exact ⟨hEvent.trans hEvent', Nat.lt_trans hStamp hStamp'⟩

theorem isBefore_asymm {x y : Log} (hx : x.toList ≠ []) (h : x.isBefore y = true) :
    y.isBefore x = false :=
  (Bool.not_eq_true _).mp fun h' => hx (eq_nil_of_isBefore_isBefore h h').1

theorem isBefore_irrefl {x : Log} (hx : x.toList ≠ []) : x.isBefore x = false :=
  (Bool.not_eq_true _).mp fun h => hx (eq_nil_of_isBefore_isBefore h h).1

theorem isBefore_iff_of_eq_nil {x y : Log} (hx : x.toList = []) :
    x.isBefore y = true ↔ y.toList = [] := by
  rw [isBefore_iff_forall₂, hx, List.forall₂_nil_left_iff]

/-- Being before is a strict order, but for empty logs.

It is transitive on all logs.  A log with an entry is not before itself, and is never
both before and after another.  An empty log is before the empty logs.  And what is
compared is the size, the events and the stamps, whatever was accepted. -/
theorem isBefore_orders_nonempty (x y z : Log) :
    (x.isBefore y = true → y.isBefore z = true → x.isBefore z = true) ∧
    (x.toList ≠ [] →
      x.isBefore x = false ∧ (x.isBefore y = true → y.isBefore x = false)) ∧
    (x.toList = [] → (x.isBefore y = true ↔ y.toList = [])) ∧
    (x.isBefore y = true ↔ x.size = y.size ∧
      ∀ (i : Nat) (hx : i < x.toList.length) (hy : i < y.toList.length),
        x.toList[i].event = y.toList[i].event ∧ x.toList[i].stamp < y.toList[i].stamp) :=
  ⟨isBefore_trans, fun hx => ⟨isBefore_irrefl hx, isBefore_asymm hx⟩, isBefore_iff_of_eq_nil,
    isBefore_iff_getElem x y⟩

/-- Stamps out of order, and entries that one log accepted and another did not. -/
theorem isBefore_orders_three_logs :
    let x : Log := .ofList [⟨5, .init, true⟩, ⟨0, .close, false⟩]
    let y : Log := .ofList [⟨6, .init, false⟩, ⟨1, .close, true⟩]
    let z : Log := .ofList [⟨7, .init, true⟩, ⟨9, .close, true⟩]
    (x.isBefore y = true ∧ y.isBefore z = true ∧ x.isBefore z = true) ∧
      (x.toList ≠ [] ∧ x.isBefore x = false ∧ y.isBefore x = false) ∧
      (ofList []).isBefore x = false ∧ (ofList []).isBefore (ofList []) = true := by
  intro x y z
  have hxy : x.isBefore y = true := by decide
  have hyz : y.isBefore z = true := by decide
  have hx : x.toList ≠ [] := by decide
  have hEmpty : (ofList []).toList = [] := rfl
  obtain ⟨hTrans, hStrict, _, _⟩ := isBefore_orders_nonempty x y z
  obtain ⟨_, _, hBefore, _⟩ := isBefore_orders_nonempty (ofList []) x x
  obtain ⟨_, _, hBeforeEmpty, _⟩ := isBefore_orders_nonempty (ofList []) (ofList []) x
  exact ⟨⟨hxy, hyz, hTrans hxy hyz⟩, ⟨hx, (hStrict hx).1, (hStrict hx).2 hxy⟩,
    (Bool.not_eq_true _).mp fun h => hx ((hBefore hEmpty).mp h), (hBeforeEmpty hEmpty).mpr hEmpty⟩

end SelectorStream.Log
