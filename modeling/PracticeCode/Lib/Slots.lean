import Mathlib.Algebra.BigOperators.Group.List.Basic
import Mathlib.Algebra.Ring.Nat

/-!
# Slots: a list of threads, updated one at a time

The threads of a pool are a list, and a step of thread `i` replaces the entry `i`.  The lemmas say
what the update does to membership and to a sum over the threads.
-/

namespace PracticeCode.Lib

variable {τ : Type*}

/-! ## Membership -/

theorem mem_set_slot {l : List τ} {i : ℕ} {x y : τ} (h : l[i]? = some x) : y ∈ l.set i y := by
  obtain ⟨hi, -⟩ := List.getElem?_eq_some_iff.mp h
  exact List.mem_set hi y

/-- An entry other than the replaced one stays. -/
theorem mem_set_of_ne {l : List τ} {i : ℕ} {x y z : τ} (h : l[i]? = some x) (hz : z ∈ l)
    (hne : z ≠ x) : z ∈ l.set i y := by
  obtain ⟨j, hj⟩ := List.mem_iff_getElem?.mp hz
  have hij : i ≠ j := by
    rintro rfl
    rw [h] at hj
    exact hne (Option.some.inj hj).symm
  exact List.mem_iff_getElem?.mpr ⟨j, by rw [List.getElem?_set_ne hij]; exact hj⟩

/-- A property of all threads after an update: the new one has it, and every other thread. -/
theorem forall_mem_set {l : List τ} {i : ℕ} {y : τ} {p : τ → Prop} (hy : p y)
    (h : ∀ j z, j ≠ i → l[j]? = some z → p z) : ∀ z ∈ l.set i y, p z := by
  intro z hz
  obtain ⟨j, hj⟩ := List.mem_iff_getElem?.mp hz
  rcases eq_or_ne j i with rfl | hji
  · rw [List.getElem?_set] at hj
    split at hj
    · split at hj
      · exact Option.some.inj hj ▸ hy
      · cases hj
    · contradiction
  · rw [List.getElem?_set_ne hji.symm] at hj
    exact h j z hji hj

theorem set_eq_self {l : List τ} {i : ℕ} {x : τ} (h : l[i]? = some x) : l.set i x = l := by
  obtain ⟨hi, rfl⟩ := List.getElem?_eq_some_iff.mp h
  exact List.set_getElem_self hi

/-- A measure that the update keeps has the same values. -/
theorem map_set_of_eq {β : Type*} {l : List τ} {i : ℕ} {x y : τ} (f : τ → β) (h : l[i]? = some x)
    (hf : f y = f x) : (l.set i y).map f = l.map f := by
  obtain ⟨hi, rfl⟩ := List.getElem?_eq_some_iff.mp h
  rw [List.map_set, hf, ← List.getElem_map f (h := by simpa using hi), List.set_getElem_self]

/-- When all threads are alike, a slot has none or such a one. -/
theorem getElem?_of_forall_eq {l : List τ} {x : τ} (h : ∀ y ∈ l, y = x) (i : ℕ) :
    l[i]? = none ∨ l[i]? = some x := by
  cases hi : l[i]? with
  | none => exact .inl rfl
  | some y => exact .inr (congrArg some (h y (List.mem_of_getElem? hi)))

/-! ## Sums over the threads -/

/-- The sum of a measure over the threads. -/
def total (f : τ → ℕ) (l : List τ) : ℕ := (l.map f).sum

@[simp] theorem total_nil (f : τ → ℕ) : total f [] = 0 := rfl

@[simp] theorem total_cons (f : τ → ℕ) (x : τ) (l : List τ) :
    total f (x :: l) = f x + total f l := by
  simp [total]

/-- An update moves the sum by the difference of the two entries. -/
theorem total_set {l : List τ} {i : ℕ} {x : τ} (f : τ → ℕ) (y : τ) (h : l[i]? = some x) :
    total f (l.set i y) + f x = total f l + f y := by
  induction l generalizing i with
  | nil => simp at h
  | cons z l ih =>
    cases i with
    | zero =>
      simp only [List.getElem?_cons_zero, Option.some.injEq] at h
      subst h
      simp only [List.set_cons_zero, total_cons]
      omega
    | succ i =>
      simp only [List.getElem?_cons_succ] at h
      have := ih h
      simp only [List.set_cons_succ, total_cons]
      omega

theorem le_total {l : List τ} {x : τ} (f : τ → ℕ) (h : x ∈ l) : f x ≤ total f l := by
  induction l with
  | nil => simp at h
  | cons z l ih =>
    rw [total_cons]
    rcases List.mem_cons.mp h with rfl | h
    · omega
    · have := ih h
      omega

/-- When the whole sum is what one thread measures, another thread measures zero. -/
theorem eq_zero_of_total_le {l : List τ} {i j : ℕ} {x y : τ} (f : τ → ℕ) (hi : l[i]? = some x)
    (hj : l[j]? = some y) (hij : j ≠ i) (h : total f l ≤ f x) : f y = 0 := by
  induction l generalizing i j with
  | nil => simp at hi
  | cons z l ih =>
    rw [total_cons] at h
    cases i with
    | zero =>
      obtain ⟨j, rfl⟩ := Nat.exists_eq_succ_of_ne_zero hij
      simp only [List.getElem?_cons_zero, Option.some.injEq] at hi
      simp only [Nat.succ_eq_add_one, List.getElem?_cons_succ] at hj
      have := le_total f (List.mem_of_getElem? hj)
      subst hi
      omega
    | succ i =>
      simp only [List.getElem?_cons_succ] at hi
      cases j with
      | zero =>
        simp only [List.getElem?_cons_zero, Option.some.injEq] at hj
        have := le_total f (List.mem_of_getElem? hi)
        subst hj
        omega
      | succ j =>
        simp only [List.getElem?_cons_succ] at hj
        exact ih hi hj (by omega) (by omega)

/-- A sum is zero exactly when every thread measures zero. -/
theorem total_eq_zero_iff {l : List τ} (f : τ → ℕ) : total f l = 0 ↔ ∀ x ∈ l, f x = 0 := by
  induction l with
  | nil => simp
  | cons z l ih => simp [ih]

theorem total_replicate (f : τ → ℕ) (n : ℕ) (x : τ) : total f (List.replicate n x) = n * f x := by
  rw [total, List.map_replicate, List.sum_replicate_nat]

theorem total_le_total {f g : τ → ℕ} {l : List τ} (h : ∀ x ∈ l, f x ≤ g x) :
    total f l ≤ total g l := by
  induction l with
  | nil => exact Nat.le_refl _
  | cons z l ih =>
    rw [List.forall_mem_cons] at h
    simp only [total_cons]
    exact Nat.add_le_add h.1 (ih h.2)

theorem total_add (f g : τ → ℕ) (l : List τ) :
    total (fun x => f x + g x) l = total f l + total g l := by
  induction l with
  | nil => rfl
  | cons z l ih =>
    simp only [total_cons, ih]
    omega

/-! ## What the threads have in hand -/

/-- An update exchanges the entry's part of the collection. -/
theorem flatMap_set_perm {β : Type*} {l : List τ} {i : ℕ} {x : τ} (f : τ → List β) (y : τ)
    (h : l[i]? = some x) : ((l.set i y).flatMap f ++ f x).Perm (l.flatMap f ++ f y) := by
  induction l generalizing i with
  | nil => simp at h
  | cons z l ih =>
    cases i with
    | zero =>
      simp only [List.getElem?_cons_zero, Option.some.injEq] at h
      subst h
      simp only [List.set_cons_zero, List.flatMap_cons]
      exact List.perm_append_comm.trans (List.perm_append_comm.append_left _ |>.trans (by simp))
    | succ i =>
      simp only [List.getElem?_cons_succ] at h
      simpa [List.append_assoc] using (ih h).append_left (f z)

end PracticeCode.Lib
