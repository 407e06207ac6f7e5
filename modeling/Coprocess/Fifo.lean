/-!
# First in, first out

* `Fifo`: items in the order in which they were pushed, `Fifo.toList` from the oldest on;
* `Fifo.push`, `Fifo.pop?`.
-/

namespace Coprocess

/-- Items in order: those in `front`, then those in `back` from its end on. -/
structure Fifo (α : Type) where
  front : List α := []
  back : List α := []

namespace Fifo

variable {α : Type}

/-- The items from the oldest to the newest. -/
def toList (q : Fifo α) : List α := q.front ++ q.back.reverse

/-- The number of items. -/
def size (q : Fifo α) : Nat := q.front.length + q.back.length

/-- No item is held. -/
def isEmpty (q : Fifo α) : Bool := q.front.isEmpty && q.back.isEmpty

/-- Adds the newest item. -/
def push (q : Fifo α) (a : α) : Fifo α := { q with back := a :: q.back }

/-- The oldest item and the others. -/
def pop? (q : Fifo α) : Option (α × Fifo α) :=
  match q.front with
  | a :: front => some (a, { q with front })
  | [] =>
    match q.back.reverse with
    | a :: front => some (a, ⟨front, []⟩)
    | [] => none

@[simp] theorem toList_empty : ({} : Fifo α).toList = [] := rfl

@[simp] theorem toList_push (q : Fifo α) (a : α) : (q.push a).toList = q.toList ++ [a] := by
  simp [toList, push]

@[simp] theorem length_toList (q : Fifo α) : q.toList.length = q.size := by simp [toList, size]

theorem isEmpty_iff (q : Fifo α) : q.isEmpty = true ↔ q.toList = [] := by
  simp [isEmpty, toList]

theorem pop?_eq_none_iff (q : Fifo α) : q.pop? = none ↔ q.toList = [] := by
  unfold pop? toList
  cases q.front with
  | cons a l => simp
  | nil =>
    cases h : q.back.reverse <;> simp

theorem toList_of_pop? {q r : Fifo α} {a : α} (h : q.pop? = some (a, r)) :
    q.toList = a :: r.toList := by
  unfold pop? at h
  unfold toList
  cases hf : q.front with
  | cons b l =>
    simp only [hf, Option.some.injEq, Prod.mk.injEq] at h
    obtain ⟨rfl, rfl⟩ := h
    rfl
  | nil =>
    cases hb : q.back.reverse with
    | nil => simp [hf, hb] at h
    | cons b l =>
      simp only [hf, hb, Option.some.injEq, Prod.mk.injEq] at h
      obtain ⟨rfl, rfl⟩ := h
      simp

end Fifo

end Coprocess
