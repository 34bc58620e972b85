/-
# `SelectorStream.Trail` — lists that grow at their end

A trail keeps what was added to it, the latest item in front, and counts the
items.  Adding, counting and looking at the latest take no longer on a long
trail than on a short one, and a trail that was kept from before an addition
costs nothing.  `toList` is what a trail means, its items in the order in which
they were added; each operation has one lemma that says what it is on that list.
-/

namespace SelectorStream

structure Trail (A : Type) where
  /-- The items, the latest in front. -/
  latestFirst : List A := []
  size : Nat := latestFirst.length
  size_eq_length : size = latestFirst.length := by rfl
deriving DecidableEq

namespace Trail

variable {A : Type}

def empty : Trail A := {}

def push (trail : Trail A) (item : A) : Trail A where
  latestFirst := item :: trail.latestFirst
  size := trail.size + 1
  size_eq_length := by simp [trail.size_eq_length]

def pushAll (trail : Trail A) (items : List A) : Trail A :=
  items.foldl push trail

def latest? (trail : Trail A) : Option A :=
  trail.latestFirst.head?

def isEmpty (trail : Trail A) : Bool :=
  trail.latestFirst.isEmpty

def toList (trail : Trail A) : List A :=
  trail.latestFirst.reverse

def ofList (items : List A) : Trail A where
  latestFirst := items.reverse

/-! ## The operations on the list of items -/

@[simp] theorem toList_empty : (empty : Trail A).toList = [] := rfl

@[simp] theorem toList_push (trail : Trail A) (item : A) :
    (trail.push item).toList = trail.toList ++ [item] := by
  simp [toList, push]

@[simp] theorem toList_pushAll (trail : Trail A) (items : List A) :
    (trail.pushAll items).toList = trail.toList ++ items := by
  induction items generalizing trail with
  | nil => simp [pushAll]
  | cons item rest ih =>
    rw [pushAll, List.foldl_cons, ← pushAll, ih]
    simp

@[simp] theorem toList_ofList (items : List A) : (ofList items).toList = items := by
  simp [toList, ofList]

theorem size_eq_length_toList (trail : Trail A) : trail.size = trail.toList.length := by
  simp [toList, trail.size_eq_length]

theorem latest?_eq_getLast? (trail : Trail A) : trail.latest? = trail.toList.getLast? := by
  simp [latest?, toList]

theorem isEmpty_eq_isEmpty_toList (trail : Trail A) : trail.isEmpty = trail.toList.isEmpty := by
  simp [isEmpty, toList]

theorem toList_inj {t u : Trail A} : t.toList = u.toList ↔ t = u := by
  constructor
  · intro h
    have same : t.latestFirst = u.latestFirst := List.reverse_inj.mp h
    obtain ⟨items, size, counted⟩ := t
    obtain ⟨items', size', counted'⟩ := u
    subst same counted counted'
    rfl
  · rintro rfl
    rfl

end Trail

end SelectorStream
