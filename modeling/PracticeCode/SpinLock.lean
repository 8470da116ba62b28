import PracticeCode.Lib.Lock
import Mathlib.Logic.Function.Basic

/-!
# `condition_variable_test.h`: `SpinLock`

Any number of threads call `lock` and `unlock`.  A `compare_exchange_weak` that fails, with or
without a reason, leaves the value it found in the thread's `expect`; the body of the loop puts
`false` back before the next try.

The lock refines `Lib.Lock`: the exchange that succeeds is the `acquire`, and the `store` is the
`release` (`follows_lock`).
-/

namespace PracticeCode.SpinLock

open Lib

/-- Where a thread is; `expect` is its local variable. -/
inductive Pc where
  | out
  | exchange (expect : Bool)
  /-- In the body of the loop. -/
  | failed (expect : Bool)
  /-- `lock` has returned. -/
  | inside
  deriving DecidableEq

structure State (ι : Type*) where
  flag_ : Bool
  pc : ι → Pc

/-- One step of one thread. -/
inductive Act (ι : Type*) where
  | lock (i : ι)
  /-- `compare_exchange_weak(expect, true)` and what it returns. -/
  | exchange (i : ι) (ok : Bool)
  /-- `expect = false` -/
  | restore (i : ι)
  /-- `flag_.store(false)` -/
  | unlock (i : ι)

variable {ι : Type*}

def init : State ι := ⟨false, fun _ => .out⟩

/-- The threads between the return of `lock` and `unlock`. -/
def State.Inside (s : State ι) (i : ι) : Prop := s.pc i = .inside

variable [DecidableEq ι]

def State.goto (s : State ι) (i : ι) (pc : Pc) : State ι :=
  { s with pc := Function.update s.pc i pc }

def step (s : State ι) : Act ι → Option (State ι)
  | .lock i => match s.pc i with
    | .out => some (s.goto i (.exchange false))
    | _ => none
  | .exchange i ok => match s.pc i with
    | .exchange expect =>
      if ok then
        if s.flag_ = expect then some { s.goto i .inside with flag_ := true } else none
      -- also when `flag_` is what was expected
      else some (s.goto i (.failed s.flag_))
    | _ => none
  | .restore i => match s.pc i with
    | .failed _ => some (s.goto i (.exchange false))
    | _ => none
  | .unlock i => match s.pc i with
    | .inside => some { s.goto i .out with flag_ := false }
    | _ => none

/-! ## The lock -/

/-- The operation on the lock that a step is. -/
def op : Act ι → Option (Lock.Op ι)
  | .exchange i true => some (.acquire i)
  | .unlock i => some (.release i)
  | _ => none

/-- The flag says whether the lock is taken, and every thread that tries expects `false`. -/
structure Holds (s : State ι) (holder : Option ι) : Prop where
  flag : s.flag_ = holder.isSome
  inside : ∀ i, s.Inside i ↔ holder = some i
  expect : ∀ i e, s.pc i = .exchange e → e = false

omit [DecidableEq ι] in
theorem init_holds : Holds (init : State ι) none where
  flag := rfl
  inside i := by simp [State.Inside, init]
  expect i e h := by cases h

section Step

variable {s s' : State ι} {i : ι} {pc : Pc} {holder : Option ι}

/-- A thread outside moves and stays outside. -/
theorem Holds.goto (h : Holds s holder) (hi : ¬ s.Inside i) (hpc : pc ≠ .inside)
    (he : ∀ e, pc = .exchange e → e = false) : Holds (s.goto i pc) holder where
  flag := h.flag
  inside j := by
    rw [← h.inside j]
    by_cases e : j = i
    · subst e
      simp [State.Inside, State.goto, hpc, show s.pc j ≠ .inside from hi]
    · simp [State.Inside, State.goto, e]
  expect j e hj := by
    by_cases hji : j = i
    · subst hji
      exact he e (by simpa [State.goto] using hj)
    · exact h.expect j e (by simpa [State.goto, hji] using hj)

theorem Holds.acquire (h : Holds s none) (i : ι) :
    Holds { s.goto i .inside with flag_ := true } (some i) where
  flag := rfl
  inside j := by
    have hj : ¬ s.Inside j := fun hj => by cases (h.inside j).mp hj
    by_cases e : j = i
    · simp [State.Inside, State.goto, e]
    · simp [State.Inside, State.goto, e, Ne.symm e, show s.pc j ≠ .inside from hj]
  expect j e hj := by
    by_cases hji : j = i
    · simp [State.goto, hji] at hj
    · exact h.expect j e (by simpa [State.goto, hji] using hj)

theorem Holds.release (h : Holds s (some i)) :
    Holds { s.goto i .out with flag_ := false } none where
  flag := rfl
  inside j := by
    by_cases e : j = i
    · simp [State.Inside, State.goto, e]
    · have hj : ¬ s.Inside j := fun hj => e (Option.some.inj ((h.inside j).mp hj)).symm
      simp [State.Inside, State.goto, e, show s.pc j ≠ .inside from hj]
  expect j e hj := by
    by_cases hji : j = i
    · simp [State.goto, hji] at hj
    · exact h.expect j e (by simpa [State.goto, hji] using hj)

/-- **A step is the step of the lock that it stands for, or none.** -/
theorem follows_lock {a : Act ι} (h : Holds s holder) (hs : step s a = some s') :
    ∃ holder', Follows Lock.step holder (op a) holder' ∧ Holds s' holder' := by
  cases a with
  | lock i =>
    simp only [step] at hs
    split at hs
    · rename_i hi
      obtain rfl := Option.some.inj hs
      exact ⟨holder, rfl, h.goto (by simp [State.Inside, hi]) (by simp) (by simp)⟩
    · cases hs
  | exchange i ok =>
    simp only [step] at hs
    split at hs
    · rename_i expect hi
      have hout : ¬ s.Inside i := by simp [State.Inside, hi]
      cases ok with
      | true =>
        simp only [if_true, Option.ite_none_right_eq_some, Option.some.injEq] at hs
        obtain ⟨hf, rfl⟩ := hs
        -- the flag is what is expected, and nobody expects `true`
        rw [h.expect i expect hi, h.flag] at hf
        obtain rfl : holder = none := by simpa using hf
        exact ⟨some i, rfl, h.acquire i⟩
      | false =>
        obtain rfl := Option.some.inj hs
        exact ⟨holder, rfl, h.goto hout (by simp) (by simp)⟩
    · cases hs
  | restore i =>
    simp only [step] at hs
    split at hs
    · rename_i hi
      obtain rfl := Option.some.inj hs
      exact ⟨holder, rfl, h.goto (by simp [State.Inside, hi]) (by simp) (by simp)⟩
    · cases hs
  | unlock i =>
    simp only [step] at hs
    split at hs
    · rename_i hi
      obtain rfl := Option.some.inj hs
      obtain rfl := (h.inside i).mp hi
      exact ⟨none, if_pos rfl, h.release⟩
    · cases hs

end Step

/-- **Mutual exclusion.**  In every run at most one thread is between the return of `lock` and
`unlock`, and `flag_` tells whether there is one. -/
theorem mutual_exclusion {as : List (Act ι)} {s : State ι} (h : Run step free init as s) :
    Lock.Exclusive s.Inside ∧ (s.flag_ = true ↔ ∃ i, s.Inside i) := by
  obtain ⟨holder, -, hh⟩ := h.follow Holds op init_holds fun _ _ _ _ hR _ hs => follows_lock hR hs
  refine ⟨Lock.exclusive_of_holder fun i => (hh.inside i).mp, ?_⟩
  rw [hh.flag, Option.isSome_iff_exists]
  exact exists_congr fun i => (hh.inside i).symm

/-- The second thread fails twice, once without a reason, and the first one releases the lock. -/
def handover : List (Act ℕ) := [.lock 0, .lock 1, .exchange 1 false, .exchange 0 true, .restore 1,
  .exchange 1 false, .restore 1, .unlock 0, .exchange 1 true]

theorem mutual_exclusion_handover : ∃ s : State ℕ, Run step free init handover s ∧
    s.flag_ = true ∧ s.Inside 1 ∧ Lock.Exclusive s.Inside := by
  obtain ⟨s, hr, hf, hi⟩ : ∃ s : State ℕ, Run step free init handover s ∧
      s.flag_ = true ∧ s.pc 1 = .inside := Run.exists_of_exec _ _ (by decide)
  exact ⟨s, hr, hf, hi, (mutual_exclusion hr).1⟩

end PracticeCode.SpinLock
