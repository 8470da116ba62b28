import PracticeCode.PointerTest.Counts

/-!
# What `IntPtr` gives back

`operator=` deletes the `U_Ptr` whose last object it redirects.  `~IntPtr` counts down too, but at
zero it only prints, so that a `U_Ptr` whose last object is destroyed stays for good.

`reclaimed_iff`: a program has given back what it cannot reach exactly when every object that it
destroyed was null or shared its `U_Ptr` with another one.
-/

namespace PracticeCode.PointerTest

open Lib

/-- A `U_Ptr` is allocated while some object refers to it, and an `int` while its `U_Ptr` is. -/
def State.Reclaimed (s : State) : Prop :=
  (∀ u, s.heap.uptrs u ≠ none ↔ some u ∈ s.targets) ∧
    ∀ p, s.heap.ints p ≠ none ↔ ∃ u c, s.heap.uptrs u = some c ∧ c.p = p

/-- An object that is destroyed is null, or another one refers to its `U_Ptr`. -/
def shares (s : State) : Op → Prop
  | .destroy a => ∀ this ∈ s.handle a, ∀ u ∈ this.ptr, 1 < s.targets.count (some u)
  | _ => True

instance (s : State) (op : Op) : Decidable (shares s op) := by
  induction op using Op.casesOn <;> unfold shares <;> infer_instance

theorem shares_iff {s : State} {op : Op} :
    shares s op ↔ ∀ u, ¬ Abandons s op u := by
  constructor
  · rintro h u ⟨a, this, rfl, hthis, hp, hone⟩
    have := h this hthis u hp
    omega
  · intro h
    cases op with
    | destroy a =>
      intro this hthis u hp
      have hpos : 0 < s.targets.count (some u) :=
        List.count_pos_iff.mpr (hp ▸ ptr_mem_targets hthis)
      have hne : s.targets.count (some u) ≠ 1 := fun e => h u ⟨a, this, rfl, hthis, hp, e⟩
      omega
    | _ => exact trivial

theorem reclaimed_iff_leaked {s : State} (hc : Counts s.heap s.targets) :
    s.Reclaimed ↔ ∀ u, ¬ Leaked s.heap s.targets u := by
  constructor
  · rintro h u ⟨hu, hm⟩
    exact hm ((h.1 u).mp hu)
  · intro h
    refine ⟨fun u => ⟨fun hu => ?_, hc.alive⟩, fun p => ⟨hc.owned, ?_⟩⟩
    · by_contra hm
      exact h u ⟨hu, hm⟩
    · rintro ⟨u, c, hu, rfl⟩
      exact hc.int hu

/-- **Everything is given back exactly when no last object is destroyed.**  What leaks stays, so
that the last state of a program shows whether a step left something behind. -/
theorem reclaimed_iff {ops : List Op} {s : State} (h : Run step allowed init ops s) :
    s.Reclaimed ↔ Run step (fun s op => allowed s op ∧ shares s op) init ops s := by
  rw [reclaimed_iff_leaked (counts_of_run h)]
  induction h with
  | nil => exact iff_of_true (fun u hu => hu.1 rfl) .nil
  | @snoc ops s s' op hr hop hs ih =>
    have hc := counts_of_run hr
    obtain ⟨s₁, h1, -, hl⟩ := step_keeps hc hop
    rw [hs] at h1
    obtain rfl := Option.some.inj h1
    simp only [hl, not_or, forall_and]
    rw [ih, ← shares_iff]
    constructor
    · rintro ⟨hr', hsh⟩
      exact hr'.snoc ⟨hop, hsh⟩ hs
    · intro hr'
      obtain ⟨t, ht, ⟨-, hsh⟩, -⟩ := hr'.of_snoc
      obtain rfl := hr.unique ht
      exact ⟨ht, hsh⟩

/-- One `int`, one object, and the program ends. -/
def leakProgram : List Op := [.new 0 0 42 "age", .destroy 0]

/-- **The last destructor leaves its `U_Ptr` behind.** -/
theorem not_reclaimed : ¬ ∀ ops s, Run step allowed init ops s → s.Reclaimed := by
  intro h
  obtain ⟨s, hr, hu, ht⟩ : ∃ s, Run step allowed init leakProgram s ∧
      s.heap.uptrs 0 ≠ none ∧ some 0 ∉ s.targets := Run.exists_of_exec _ _ (by decide)
  exact ht (((h _ _ hr).1 0).mp hu)

/-- An object of which a copy remains is destroyed, and the copy is redirected. -/
def reassignProgram : List Op :=
  [.new 0 0 42 "age", .copy 0, .destroy 0, .default, .assign 1 2]

theorem reclaimed_iff_reassign : ∃ s, Run step allowed init reassignProgram s ∧
    s.heap.uptrs 0 = none ∧ s.Reclaimed := by
  obtain ⟨s, hr, hu⟩ : ∃ s, Run step (fun s op => allowed s op ∧ shares s op) init
      reassignProgram s ∧ s.heap.uptrs 0 = none := Run.exists_of_exec _ _ (by decide)
  have hr' : Run step allowed init reassignProgram s := hr.mono fun _ _ h => h.1
  exact ⟨s, hr', hu, (reclaimed_iff hr').mpr hr⟩

end PracticeCode.PointerTest
