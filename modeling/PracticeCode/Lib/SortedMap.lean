import Mathlib.Data.List.Basic
import Mathlib.Order.Lattice

/-!
# Maps with ordered keys

A map is the list of its entries with increasing keys.  A cursor in it is a key, or `none` at the
end; a cursor whose key was erased is at no entry.

* `SortedMap.insert`, `erase`, `set`: the operations, each with the order of its result;
* `first`, `next`: where a walk begins, and where it goes on.
-/

namespace PracticeCode.Lib

variable {κ β : Type*} [LinearOrder κ]

/-- The keys increase. -/
def Sorted (l : List (κ × β)) : Prop := l.Pairwise fun a b => a.1 < b.1

structure SortedMap (κ β : Type*) [LinearOrder κ] where
  entries : List (κ × β)
  sorted : Sorted entries

/-- A key that is there keeps its value. -/
def insertEntry (k : κ) (b : β) : List (κ × β) → List (κ × β)
  | [] => [(k, b)]
  | e :: l => if k < e.1 then (k, b) :: e :: l else if k = e.1 then e :: l
    else e :: insertEntry k b l

section Entries

variable {k : κ} {b : β} {e : κ × β} {l : List (κ × β)}

theorem mem_insertEntry (h : e ∈ insertEntry k b l) : e = (k, b) ∨ e ∈ l := by
  induction l with
  | nil => exact .inl (List.mem_singleton.mp h)
  | cons x l ih =>
    unfold insertEntry at h
    split at h
    · exact List.mem_cons.mp h
    · split at h
      · exact .inr h
      · rcases List.mem_cons.mp h with rfl | h
        · exact .inr (List.mem_cons_self ..)
        · exact (ih h).imp_right (List.mem_cons_of_mem _)

theorem sorted_insertEntry (h : Sorted l) : Sorted (insertEntry k b l) := by
  induction l with
  | nil => exact List.pairwise_singleton ..
  | cons x l ih =>
    obtain ⟨hx, hl⟩ := List.pairwise_cons.mp h
    unfold insertEntry
    split
    · rename_i hk
      refine List.pairwise_cons.mpr ⟨?_, h⟩
      intro e he
      rcases List.mem_cons.mp he with rfl | he
      · exact hk
      · exact lt_trans hk (hx e he)
    · rename_i hk
      split
      · exact h
      · rename_i hne
        refine List.pairwise_cons.mpr ⟨?_, ih hl⟩
        intro e he
        rcases mem_insertEntry he with rfl | he
        · exact lt_of_le_of_ne (not_lt.mp hk) (Ne.symm hne)
        · exact hx e he

end Entries

namespace SortedMap

/-- `k` is a key. -/
instance : Membership κ (SortedMap κ β) := ⟨fun m k => k ∈ m.entries.map Prod.fst⟩

instance (m : SortedMap κ β) (k : κ) : Decidable (k ∈ m) :=
  inferInstanceAs (Decidable (k ∈ m.entries.map Prod.fst))

instance (m : SortedMap κ β) (p : κ → Prop) [DecidablePred p] : Decidable (∃ k ∈ m, p k) :=
  inferInstanceAs (Decidable (∃ k ∈ m.entries.map Prod.fst, p k))

def empty : SortedMap κ β := ⟨[], List.Pairwise.nil⟩

def insert (m : SortedMap κ β) (k : κ) (b : β) : SortedMap κ β :=
  ⟨insertEntry k b m.entries, sorted_insertEntry m.sorted⟩

def erase (m : SortedMap κ β) (k : κ) : SortedMap κ β :=
  ⟨m.entries.filter fun e => e.1 ≠ k, m.sorted.filter _⟩

/-- Gives a key that is there a new value. -/
def set (m : SortedMap κ β) (k : κ) (b : β) : SortedMap κ β where
  entries := m.entries.map fun e => (e.1, if e.1 = k then b else e.2)
  sorted := by
    unfold Sorted
    rw [List.pairwise_map]
    exact m.sorted

def get? (m : SortedMap κ β) (k : κ) : Option β :=
  (m.entries.find? fun e => e.1 = k).map Prod.snd

def first (m : SortedMap κ β) : Option κ := (m.entries.map Prod.fst).head?

/-- The key behind `k`. -/
def next (m : SortedMap κ β) (k : κ) : Option κ := (m.entries.map Prod.fst).find? (k < ·)

variable {m : SortedMap κ β} {k k' : κ} {b : β}

theorem mem_of_first (h : m.first = some k) : k ∈ m := List.mem_of_mem_head? h

theorem mem_of_next (h : m.next k = some k') : k' ∈ m := List.mem_of_find?_eq_some h

/-- Behind the last key there is none. -/
theorem next_eq_none_iff : m.next k = none ↔ ∀ k' ∈ m, k' ≤ k := by
  unfold next
  rw [List.find?_eq_none]
  exact forall₂_congr fun k' _ => by rw [decide_eq_true_eq, not_lt]

@[simp]
theorem mem_set : k' ∈ m.set k b ↔ k' ∈ m := by
  show k' ∈ ((m.entries.map _).map Prod.fst) ↔ _
  rw [List.map_map]
  exact Iff.rfl

theorem not_mem_erase : k ∉ m.erase k := by
  intro h
  obtain ⟨e, he, rfl⟩ := List.mem_map.mp h
  exact of_decide_eq_true (List.mem_filter.mp he).2 rfl

end SortedMap

end PracticeCode.Lib
