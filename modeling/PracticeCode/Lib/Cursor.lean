import Mathlib.Data.List.Basic
import Mathlib.Order.Defs.PartialOrder

/-!
# A cursor in a list that changes

A loop that walks a list while it erases elements has a cursor: a position in a vector, or an
element of a sorted set.  What is in front of the cursor is what the loop still has to visit.

* `drop_of_getElem?`, `getElem?_of_drop`, `drop_eraseIdx`: the cursor is a position;
* `filter_of_find?`: the cursor is an element of a strictly increasing list;
* `Use`: what the code does with a cursor, and when it may;
* `Memory`: the buffer of a vector that grows; the cursors into it are good until it moves.
* `Visits`: the calls of a walk that stops at some of the elements.
-/

namespace PracticeCode.Lib

variable {α : Type*}

theorem drop_of_getElem? {l : List α} {i : ℕ} {a : α} (h : l[i]? = some a) :
    l.drop i = a :: l.drop (i + 1) := by
  obtain ⟨hi, rfl⟩ := List.getElem?_eq_some_iff.mp h
  exact List.drop_eq_getElem_cons hi

theorem getElem?_of_drop {l t : List α} {i : ℕ} {a : α} (h : l.drop i = a :: t) :
    l[i]? = some a := by
  rw [← List.head?_drop, h, List.head?_cons]

theorem drop_succ_of_drop {l t : List α} {i : ℕ} {a : α} (h : l.drop i = a :: t) :
    l.drop (i + 1) = t := by
  rw [← List.drop_drop, h, List.drop_one, List.tail_cons]

theorem getElem?_succ_of_drop {l t : List α} {i : ℕ} {a : α} (h : l.drop i = a :: t) :
    l[i + 1]? = t.head? := by
  rw [← List.head?_drop, drop_succ_of_drop h]

/-- What comes behind an element that is erased moves to its place. -/
theorem drop_eraseIdx {l : List α} {i : ℕ} (h : i < l.length) :
    (l.eraseIdx i).drop i = l.drop (i + 1) := by
  rw [List.eraseIdx_eq_take_drop_succ, List.drop_left' (by simp; omega)]

/-- The elements behind `a` start with the next one. -/
theorem filter_of_find? [Preorder α] [DecidableLT α] {l : List α} (hl : l.Pairwise (· < ·))
    {a b : α} (h : l.find? (a < ·) = some b) : l.filter (a < ·) = b :: l.filter (b < ·) := by
  induction l with
  | nil => cases h
  | cons x l ih =>
    obtain ⟨hx, hl⟩ := List.pairwise_cons.mp hl
    by_cases hax : a < x
    · rw [List.find?_cons_of_pos (p := fun y => decide (a < y)) (decide_eq_true hax)] at h
      obtain rfl := Option.some.inj h
      have h1 : l.filter (a < ·) = l :=
        List.filter_eq_self.mpr fun y hy => decide_eq_true (lt_trans hax (hx y hy))
      have h2 : l.filter (x < ·) = l :=
        List.filter_eq_self.mpr fun y hy => decide_eq_true (hx y hy)
      have hxx : ¬ decide (x < x) = true := fun e => lt_irrefl x (of_decide_eq_true e)
      rw [List.filter_cons_of_pos (p := fun y => decide (a < y)) (decide_eq_true hax),
        List.filter_cons_of_neg (p := fun y => decide (x < y)) hxx, h1, h2]
    · have hna : ¬ decide (a < x) = true := fun e => hax (of_decide_eq_true e)
      rw [List.find?_cons_of_neg (p := fun y => decide (a < y)) hna] at h
      have hb : a < b := of_decide_eq_true (List.find?_some (p := fun y => decide (a < y)) h)
      have hnb : ¬ decide (b < x) = true := fun e => hax (lt_trans hb (of_decide_eq_true e))
      rw [List.filter_cons_of_neg (p := fun y => decide (a < y)) hna,
        List.filter_cons_of_neg (p := fun y => decide (b < y)) hnb, ih hl h]

/-! ## The uses of an iterator -/

inductive Op where
  | compare
  | deref
  | increment
  | erase
  deriving DecidableEq

/-- A use of an iterator, and how the iterator stands there. -/
structure Use where
  op : Op
  /-- The container did not make the iterator invalid. -/
  live : Bool
  /-- The iterator is not at the end. -/
  inside : Bool
  deriving DecidableEq

/-- Only a comparison can do with the end. -/
def Use.Valid (u : Use) : Prop := u.live = true ∧ (u.op = .compare ∨ u.inside = true)

instance (u : Use) : Decidable u.Valid := by
  unfold Use.Valid
  infer_instance

/-! ## The memory of a vector -/

/-- How far a full vector of a size grows. -/
structure Growth where
  next : ℕ → ℕ
  lt_next : ∀ n, n < next n

/-- How many elements fit, and which of its buffers the vector is in. -/
structure Memory where
  capacity : ℕ
  buffer : ℕ

/-- `push_back` on a vector with `size` elements: a full vector moves to a new buffer. -/
def Memory.pushBack (g : Growth) (size : ℕ) (m : Memory) : Memory :=
  if size < m.capacity then m else ⟨g.next size, m.buffer + 1⟩

section Memory

variable {g : Growth} {size : ℕ} {m : Memory}

/-- The iterators stay good exactly if there was room. -/
theorem Memory.buffer_pushBack_eq_iff :
    m.buffer = (m.pushBack g size).buffer ↔ size < m.capacity := by
  unfold Memory.pushBack
  split
  · rename_i h
    exact iff_of_true rfl h
  · rename_i h
    exact iff_of_false (Nat.succ_ne_self _).symm h

end Memory

/-! ## The calls of a walk -/

/-- The calls of a walk over a list that stops at the elements of `ready` and makes there, one after
the other, calls that `P` allows. -/
inductive Visits {κ : Type*} (ready : List α) (P : α → List κ → Prop) : List α → List κ → Prop
  | nil : Visits ready P [] []
  | skip {l calls a} : Visits ready P l calls → a ∉ ready → Visits ready P (l ++ [a]) calls
  | visit {l calls a cs} : Visits ready P l calls → a ∈ ready → P a cs →
      Visits ready P (l ++ [a]) (calls ++ cs)

end PracticeCode.Lib
