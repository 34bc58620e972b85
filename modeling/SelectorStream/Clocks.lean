/-
# `SelectorStream.Clocks` — named counters shared by recorders

A clock gives out stamps, one after the other from zero.  Recorders that name
the same clock share it, so their stamps can be compared.  The reading of a
clock is the number of stamps it gave out.

`now_start`, `stamp_tick`, `now_tick_self` and `now_tick_of_ne` say what the
operations do to the readings: starting a clock changes none, and a stamp is
the reading of its clock, which alone moves on by one.
-/

namespace SelectorStream

/-- The clocks in use, each with its reading. -/
structure Clocks where
  readings : List (String × Nat) := []

namespace Clocks

/-- The reading of a clock; one that is not in use stands at zero. -/
def now (clocks : Clocks) (name : String) : Nat :=
  (clocks.readings.lookup name).getD 0

/-- Puts a clock into use; one that is in use goes on as it is. -/
def start (clocks : Clocks) (name : String) : Clocks :=
  match clocks.readings.lookup name with
  | some _ => clocks
  | none => ⟨clocks.readings ++ [(name, 0)]⟩

def setReading (name : String) (reading : Nat) : List (String × Nat) → List (String × Nat)
  | [] => []
  | (other, r) :: rest =>
    if other = name then (other, reading) :: rest else (other, r) :: setReading name reading rest

/-- Takes the next stamp of a clock, put into use if it was not. -/
def tick (clocks : Clocks) (name : String) : Nat × Clocks :=
  let clocks := clocks.start name
  let stamp := clocks.now name
  (stamp, ⟨setReading name (stamp + 1) clocks.readings⟩)

/-! ## Readings after the operations -/

theorem lookup_setReading_self (name : String) (reading : Nat) :
    ∀ readings : List (String × Nat), (readings.lookup name).isSome →
      (setReading name reading readings).lookup name = some reading
  | [], h => by simp at h
  | (other, r) :: rest, h => by
      by_cases same : other = name
      · simp [setReading, same]
      · have apart : (name == other) = false := beq_false_of_ne (Ne.symm same)
        simp only [setReading, same, if_false, List.lookup_cons, apart] at h ⊢
        exact lookup_setReading_self name reading rest h

theorem lookup_setReading_of_ne {name name' : String} (h : name' ≠ name) (reading : Nat) :
    ∀ readings : List (String × Nat),
      (setReading name reading readings).lookup name' = readings.lookup name'
  | [] => rfl
  | (other, r) :: rest => by
      have ih := lookup_setReading_of_ne h reading rest
      by_cases same : other = name
      · subst same
        have apart : (name' == other) = false := beq_false_of_ne h
        simp [setReading, List.lookup_cons, apart]
      · simp only [setReading, same, if_false, List.lookup_cons]
        cases name' == other <;> simp [ih]

@[simp] theorem now_start (clocks : Clocks) (name name' : String) :
    (clocks.start name).now name' = clocks.now name' := by
  unfold start
  split
  · rfl
  · rename_i absent
    simp only [now, List.lookup_append]
    cases found : clocks.readings.lookup name' with
    | some r => rfl
    | none =>
      simp only [Option.none_or, List.lookup_cons, List.lookup_nil]
      cases name' == name <;> rfl

theorem isSome_lookup_start (clocks : Clocks) (name : String) :
    ((clocks.start name).readings.lookup name).isSome := by
  unfold start
  split
  · rename_i found
    simp [found]
  · rename_i absent
    simp [List.lookup_append, absent]

@[simp] theorem stamp_tick (clocks : Clocks) (name : String) :
    (clocks.tick name).1 = clocks.now name := by
  simp [tick]

@[simp] theorem now_tick_self (clocks : Clocks) (name : String) :
    (clocks.tick name).2.now name = clocks.now name + 1 := by
  have set := lookup_setReading_self name (clocks.now name + 1) _ (isSome_lookup_start clocks name)
  simp only [tick, now_start]
  rw [now, set]
  rfl

theorem now_tick_of_ne (clocks : Clocks) {name name' : String} (h : name' ≠ name) :
    (clocks.tick name).2.now name' = clocks.now name' := by
  rw [← now_start clocks name name']
  simp only [tick, now, lookup_setReading_of_ne h]

end Clocks

end SelectorStream
