import PracticeCode.PointerTest.Counts

/-!
# `IntPtr b = a;` against `IntPtr b; b = a;`

The copy constructor and `operator=` are written apart.  The second tests the right side before it
counts up, the first does not, so that the copy of a null object is an access through its null
`ptr`.

`agree_iff`: the two are defined and lead to the same state exactly for the objects that are not
null.
-/

namespace PracticeCode.PointerTest

open Lib

/-- `IntPtr b = a;` -/
def State.copied (s : State) (a : ℕ) : Option State := step s (.copy a)

/-- `IntPtr b; b = a;` -/
def State.assigned (s : State) (a : ℕ) : Option State :=
  (step s .default).bind fun t => step t (.assign s.handles.length a)

/-- Both are defined, and they lead to the same heap and to the same objects. -/
def State.Agree (s : State) (a : ℕ) : Prop := ∃ t, s.copied a = some t ∧ s.assigned a = some t

section Step

variable {s : State} {a : ℕ} {obj : IntPtr}

theorem copied_eq (h : s.handle a = some obj) :
    s.copied a = (s.heap.copyConstruct obj).map fun t => ⟨t, s.handles ++ [some obj]⟩ := by
  cases hc : s.heap.copyConstruct obj <;> simp [State.copied, step, h, hc]

/-- The new object is null, so that nothing is counted down. -/
theorem assigned_eq (h : s.handle a = some obj) :
    s.assigned a = (s.heap.assignAdd obj).map fun t => ⟨t, s.handles ++ [some obj]⟩ := by
  have hlt : a < s.handles.length := by
    rw [State.handle, Option.join_eq_some_iff] at h
    exact (List.getElem?_eq_some_iff.mp h).1
  have hobj : State.handle ⟨s.heap, s.handles ++ [some ⟨none, ""⟩]⟩ a = some obj := by
    rw [State.handle, List.getElem?_append_left hlt]
    exact h
  have hthis : State.handle ⟨s.heap, s.handles ++ [some ⟨none, ""⟩]⟩ s.handles.length =
      some ⟨none, ""⟩ := by simp [State.handle]
  have hassign : s.heap.assign ⟨none, ""⟩ obj = s.heap.assignAdd obj := by
    simp [Heap.assign, Heap.assignSub]
  cases hadd : s.heap.assignAdd obj <;>
    simp [State.assigned, step, hobj, hthis, hassign, hadd]

/-- An assignment is defined whatever the right side is. -/
theorem exists_assigned (hc : Counts s.heap s.targets) (h : s.handle a = some obj) :
    ∃ t, s.assigned a = some t := by
  have hadd : ∃ t, s.heap.assignAdd obj = some t := by
    rw [Heap.assignAdd]
    cases hp : obj.ptr with
    | none => exact ⟨s.heap, rfl⟩
    | some u =>
      obtain ⟨t, ht, -⟩ := hc.incUse (hp ▸ ptr_mem_targets h)
      exact ⟨t, ht⟩
  obtain ⟨t, ht⟩ := hadd
  exact ⟨⟨t, s.handles ++ [some obj]⟩, by rw [assigned_eq h, ht, Option.map_some]⟩

end Step

/-- **When copying and assigning agree**: exactly if the object is not null. -/
theorem agree_iff {ops : List Op} {s : State} {a : ℕ} (h : Run step allowed init ops s)
    (ha : (s.handle a).isSome) : s.Agree a ↔ s.NonNull a := by
  obtain ⟨obj, hobj⟩ := Option.isSome_iff_exists.mp ha
  have hnull : s.NonNull a ↔ obj.ptr ≠ none := by
    rw [State.NonNull, hobj, Option.bind_some, Option.isSome_iff_ne_none]
  rw [hnull]
  constructor
  · rintro ⟨t, ht, -⟩ hp
    rw [copied_eq hobj, Heap.copyConstruct, hp] at ht
    cases ht
  · intro hp
    obtain ⟨u, hu⟩ := Option.ne_none_iff_exists'.mp hp
    obtain ⟨t, ht⟩ := exists_assigned (counts_of_run h) hobj
    refine ⟨t, ?_, ht⟩
    rw [assigned_eq hobj] at ht
    rw [copied_eq hobj, ← ht, Heap.copyConstruct, Heap.assignAdd, hu, Option.bind_some]

/-- An object with a shared `U_Ptr` is copied. -/
theorem agree_testAutoPrt : ∃ s, Run step allowed init testAutoPrt s ∧ s.Agree 2 := by
  obtain ⟨s, hr, ha, hn⟩ : ∃ s, Run step allowed init testAutoPrt s ∧
      (s.handle 2).isSome ∧ s.NonNull 2 := Run.exists_of_exec _ _ (by decide)
  exact ⟨s, hr, (agree_iff hr ha).mpr hn⟩

/-- **An object that was only declared** is assigned, and cannot be copied. -/
theorem not_agree_default : ∃ s, Run step allowed init [.default] s ∧ (s.handle 0).isSome ∧
    (s.assigned 0).isSome ∧ s.copied 0 = none ∧ ¬ s.Agree 0 := by
  obtain ⟨s, hr, ha, has, hc⟩ : ∃ s, Run step allowed init [.default] s ∧ (s.handle 0).isSome ∧
      (s.assigned 0).isSome ∧ (s.copied 0).isNone := Run.exists_of_exec _ _ (by decide)
  rw [Option.isNone_iff_eq_none] at hc
  refine ⟨s, hr, ha, has, hc, ?_⟩
  rintro ⟨t, ht, -⟩
  rw [hc] at ht
  cases ht

end PracticeCode.PointerTest
