import PracticeCode.Lib.Lock
import Mathlib.Logic.Function.Basic

/-!
# `mutex_lock.h`: `mutex`

Three ways to guard a call of `run` with one mutex: `runWithLock`, `runWithLockGuard` and the second
block of `TestTryLockAndLockFor`.  The guard of the last has no name: the object is destroyed at the
end of its statement, before `run`.

The mutex refines `Lib.Lock` in every run (`follows_lock`); the calls of `run` exclude each other as
long as nobody comes to a guarded `run` while a thread runs that has given the mutex back already
(`exclusion_iff`).
-/

namespace PracticeCode.MutexLock

open Lib

inductive Fn where
  | runWithLock
  | runWithLockGuard
  deriving DecidableEq

/-- Where a thread is. -/
inductive Pc where
  | out
  /-- In the call of `run` that `runWithLockGuard` makes before it takes the mutex. -/
  | first
  /-- Waits in `lock` or in the constructor of `lg`. -/
  | lock (f : Fn)
  | run (f : Fn)
  /-- Before `unlock` or the destructor of `lg`. -/
  | unlock (f : Fn)
  | try_lock
  /-- `try_lock` returned true. -/
  | adopt
  /-- The guard without a name exists. -/
  | guard
  /-- In `run("try_lock success")`. -/
  | tryRun
  deriving DecidableEq

structure State (ι : Type*) where
  /-- Who has the mutex. -/
  owner : Option ι
  pc : ι → Pc

inductive Act (ι : Type*) where
  | call (i : ι) (f : Fn)
  /-- The second block of `TestTryLockAndLockFor`. -/
  | block (i : ι)
  /-- A call of `run` returns. -/
  | ran (i : ι)
  | lock (i : ι)
  | unlock (i : ι)
  /-- `try_lock` and what it returns. -/
  | try_lock (i : ι) (ok : Bool)
  /-- `std::lock_guard<std::mutex>(mutex, std::adopt_lock)` -/
  | construct (i : ι)
  /-- The end of that statement. -/
  | destroy (i : ι)

variable {ι : Type*}

def init : State ι := ⟨none, fun _ => .out⟩

def Pc.holds : Pc → Bool
  | .run _ | .unlock _ | .adopt | .guard => true
  | _ => false

/-- In the call of `run` that follows an acquisition. -/
def Pc.inside : Pc → Bool
  | .run _ | .tryRun => true
  | _ => false

def State.Inside (s : State ι) (i : ι) : Prop := (s.pc i).inside = true

variable [DecidableEq ι]

def State.goto (s : State ι) (i : ι) (pc : Pc) : State ι :=
  { s with pc := Function.update s.pc i pc }

def step (s : State ι) : Act ι → Option (State ι)
  | .call i f => match s.pc i with
    | .out => match f with
      | .runWithLock => some (s.goto i (.lock f))
      | .runWithLockGuard => some (s.goto i .first)
    | _ => none
  | .block i => match s.pc i with
    | .out => some (s.goto i .try_lock)
    | _ => none
  | .ran i => match s.pc i with
    | .first => some (s.goto i (.lock .runWithLockGuard))
    | .run f => some (s.goto i (.unlock f))
    | .tryRun => some (s.goto i .out)
    | _ => none
  | .lock i => match s.pc i with
    | .lock f => if s.owner = none then some { s.goto i (.run f) with owner := some i } else none
    | _ => none
  | .unlock i => match s.pc i with
    | .unlock _ => some { s.goto i .out with owner := none }
    | _ => none
  | .try_lock i ok => match s.pc i with
    | .try_lock =>
      if ok then
        if s.owner = none then some { s.goto i .adopt with owner := some i } else none
      -- also when the mutex is free
      else some (s.goto i .out)
    | _ => none
  | .construct i => match s.pc i with
    | .adopt => some (s.goto i .guard)
    | _ => none
  | .destroy i => match s.pc i with
    | .guard => some { s.goto i .tryRun with owner := none }
    | _ => none

/-- The operation on the mutex that a step is. -/
def op : Act ι → Option (Lock.Op ι)
  | .lock i => some (.acquire i)
  | .try_lock i true => some (.acquire i)
  | .unlock i => some (.release i)
  | .destroy i => some (.release i)
  | _ => none

/-- The steps that come to a guarded `run`. -/
def enters : Act ι → Bool
  | .lock _ | .destroy _ => true
  | _ => false

/-- What a step does to its thread `i`, whose next place is `pc`. -/
inductive Outcome (s : State ι) (i : ι) (pc : Pc) : Option (Lock.Op ι) → State ι → Prop
  | move : pc.holds = (s.pc i).holds → Outcome s i pc none (s.goto i pc)
  | acquire : s.owner = none → pc.holds = true →
      Outcome s i pc (some (.acquire i)) { s.goto i pc with owner := some i }
  | release : (s.pc i).holds = true → pc.holds = false →
      Outcome s i pc (some (.release i)) { s.goto i pc with owner := none }

section Step

variable {s s' : State ι} {a : Act ι} {i j : ι} {pc : Pc} {o : Option (Lock.Op ι)}

/-- A step moves one thread, to a guarded `run` exactly if it `enters`. -/
theorem outcome_of_step (hs : step s a = some s') : ∃ i pc, Outcome s i pc (op a) s' ∧
    pc.inside = enters a ∧ (enters a = true → (s.pc i).inside = false) := by
  cases a with
  | call i f =>
    simp only [step] at hs
    split at hs
    · rename_i hi
      cases f with
      | runWithLock =>
        obtain rfl := Option.some.inj hs
        exact ⟨i, _, .move (by rw [hi]; rfl), rfl, nofun⟩
      | runWithLockGuard =>
        obtain rfl := Option.some.inj hs
        exact ⟨i, _, .move (by rw [hi]; rfl), rfl, nofun⟩
    · cases hs
  | block i =>
    simp only [step] at hs
    split at hs
    · rename_i hi
      obtain rfl := Option.some.inj hs
      exact ⟨i, _, .move (by rw [hi]; rfl), rfl, nofun⟩
    · cases hs
  | ran i =>
    simp only [step] at hs
    split at hs
    · rename_i hi
      obtain rfl := Option.some.inj hs
      exact ⟨i, _, .move (by rw [hi]; rfl), rfl, nofun⟩
    · rename_i hi
      obtain rfl := Option.some.inj hs
      exact ⟨i, _, .move (by rw [hi]; rfl), rfl, nofun⟩
    · rename_i hi
      obtain rfl := Option.some.inj hs
      exact ⟨i, _, .move (by rw [hi]; rfl), rfl, nofun⟩
    · cases hs
  | lock i =>
    simp only [step] at hs
    split at hs
    · rename_i hi
      simp only [Option.ite_none_right_eq_some, Option.some.injEq] at hs
      obtain ⟨ho, rfl⟩ := hs
      exact ⟨i, _, .acquire ho rfl, rfl, fun _ => by rw [hi]; rfl⟩
    · cases hs
  | unlock i =>
    simp only [step] at hs
    split at hs
    · rename_i hi
      obtain rfl := Option.some.inj hs
      exact ⟨i, _, .release (by rw [hi]; rfl) rfl, rfl, nofun⟩
    · cases hs
  | try_lock i ok =>
    simp only [step] at hs
    split at hs
    · rename_i hi
      cases ok with
      | true =>
        simp only [if_true, Option.ite_none_right_eq_some, Option.some.injEq] at hs
        obtain ⟨ho, rfl⟩ := hs
        exact ⟨i, _, .acquire ho rfl, rfl, nofun⟩
      | false =>
        obtain rfl := Option.some.inj hs
        exact ⟨i, _, .move (by rw [hi]; rfl), rfl, nofun⟩
    · cases hs
  | construct i =>
    simp only [step] at hs
    split at hs
    · rename_i hi
      obtain rfl := Option.some.inj hs
      exact ⟨i, _, .move (by rw [hi]; rfl), rfl, nofun⟩
    · cases hs
  | destroy i =>
    simp only [step] at hs
    split at hs
    · rename_i hi
      obtain rfl := Option.some.inj hs
      exact ⟨i, _, .release (by rw [hi]; rfl) rfl, rfl, fun _ => by rw [hi]; rfl⟩
    · cases hs

/-! ## The mutex -/

/-- The threads at the places that have the mutex, and only those, own it. -/
def Owned (s : State ι) : Prop := ∀ i, (s.pc i).holds = true ↔ s.owner = some i

omit [DecidableEq ι] in
theorem owned_init : Owned (init : State ι) := fun i => by simp [init, Pc.holds]

theorem Outcome.pc_self (h : Outcome s i pc o s') : s'.pc i = pc := by
  cases h <;> simp [State.goto]

theorem Outcome.pc_ne (h : Outcome s i pc o s') (hj : j ≠ i) : s'.pc j = s.pc j := by
  cases h <;> simp [State.goto, hj]

/-- When a thread takes or gives back the mutex, no other thread has it. -/
theorem Outcome.not_holds {o : Lock.Op ι} (hO : Owned s) (h : Outcome s i pc (some o) s')
    (hj : j ≠ i) : ¬ (s.pc j).holds = true := by
  intro hh
  rw [hO j] at hh
  cases h with
  | acquire hf _ =>
    rw [hf] at hh
    cases hh
  | release hi _ =>
    rw [(hO i).mp hi] at hh
    exact hj (Option.some.inj hh).symm

theorem owned_outcome (h : Owned s) (ho : Outcome s i pc o s') : Owned s' := by
  intro j
  rcases eq_or_ne j i with rfl | hj
  · cases ho with
    | move hp => simpa [State.goto, hp] using h j
    | acquire _ hp => simp [State.goto, hp]
    | release _ hp => simp [State.goto, hp]
  · rw [ho.pc_ne hj]
    cases o with
    | none =>
      cases ho with
      | move _ => exact h j
    | some o =>
      have hn := ho.not_holds h hj
      cases ho with
      | acquire _ _ => simp [hn, Ne.symm hj]
      | release _ _ => simp [hn]

theorem follows_outcome (h : Owned s) (ho : Outcome s i pc o s') :
    Follows Lock.step s.owner o s'.owner := by
  cases ho with
  | move _ => rfl
  | acquire hf _ =>
    rw [hf]
    rfl
  | release hi _ =>
    rw [(h i).mp hi]
    exact if_pos rfl

theorem owned_step (h : Owned s) (hs : step s a = some s') : Owned s' := by
  obtain ⟨i, pc, ho, -, -⟩ := outcome_of_step hs
  exact owned_outcome h ho

/-- **A step is the step of the lock that it stands for, or none.** -/
theorem follows_lock (h : Owned s) (hs : step s a = some s') :
    Follows Lock.step s.owner (op a) s'.owner := by
  obtain ⟨i, pc, ho, -, -⟩ := outcome_of_step hs
  exact follows_outcome h ho

end Step

variable {s s' : State ι} {a : Act ι} {as : List (Act ι)}

theorem owned_of_run {G : State ι → Act ι → Prop} (h : Run step G init as s) : Owned s :=
  h.invariant owned_init fun _ _ _ hi _ hs => owned_step hi hs

/-- Every acquisition is followed by the release that the same thread makes, but for the one of the
thread that has the mutex. -/
theorem matched (h : Run step free init as s) : Lock.Matched (as.filterMap op) s.owner :=
  Lock.matched_of_run (h.refine State.owner op owned_init
    (fun _ _ _ hi _ hs => owned_step hi hs) fun _ _ _ hi _ hs => follows_lock hi hs)

/-! ## The guarded calls of `run` -/

/-- Nobody comes to a guarded `run` while a thread is in the `run` of the block. -/
def Guard (s : State ι) (a : Act ι) : Prop := enters a = true → ∀ j, s.pc j ≠ .tryRun

/-- A thread in a guarded `run` has the mutex, or it is in the `run` of the block. -/
theorem holds_of_inside {pc : Pc} (h : pc.inside = true) (hp : pc ≠ .tryRun) : pc.holds = true := by
  cases pc with
  | run f => rfl
  | tryRun => exact absurd rfl hp
  | _ => cases h

omit [DecidableEq ι] in
theorem op_of_enters (h : enters a = true) : ∃ o, op a = some o := by
  cases a with
  | lock i => exact ⟨_, rfl⟩
  | destroy i => exact ⟨_, rfl⟩
  | _ => cases h

/-- **A step keeps the calls of `run` apart exactly if it meets the guard.** -/
theorem exclusive_step_iff (hO : Owned s) (hx : Lock.Exclusive s.Inside)
    (hs : step s a = some s') : Lock.Exclusive s'.Inside ↔ Guard s a := by
  obtain ⟨i, pc, ho, hpc, hi⟩ := outcome_of_step hs
  have hin : s'.Inside i ↔ enters a = true := by rw [State.Inside, ho.pc_self, hpc]
  have hne : ∀ j, j ≠ i → (s'.Inside j ↔ s.Inside j) := fun j hj => by
    rw [State.Inside, ho.pc_ne hj, State.Inside]
  constructor
  · intro hx' he j hj
    rcases eq_or_ne j i with rfl | hji
    · have hj' := hi he
      rw [hj] at hj'
      cases hj'
    · have hj' : s'.Inside j := (hne j hji).mpr (by rw [State.Inside, hj]; rfl)
      exact hji (hx' j i hj' (hin.mpr he))
  · intro hg
    -- the thread that moves is not inside together with another one
    have hout : ∀ j, j ≠ i → s'.Inside j → ¬ s'.Inside i := fun j hj hj' hi' => by
      have he := hin.mp hi'
      obtain ⟨o, hop⟩ := op_of_enters he
      rw [hop] at ho
      exact ho.not_holds hO hj (holds_of_inside ((hne j hj).mp hj') (hg he j))
    intro j k hj hk
    rcases eq_or_ne j i with rfl | hji
    · rcases eq_or_ne k j with rfl | hki
      · rfl
      · exact absurd hj (hout k hki hk)
    · rcases eq_or_ne k i with rfl | hki
      · exact absurd hk (hout j hji hj)
      · exact hx j k ((hne j hji).mp hj) ((hne k hki).mp hk)

/-- **When guarded calls of `run` exclude each other.**  A run meets the guard exactly if in each
state it passes at most one thread is in a guarded `run` and every acquisition is matched. -/
theorem exclusion_iff (h : Run step free init as s) :
    Run step Guard init as s ↔ ∀ bs t, bs <+: as → Run step free init bs t →
      Lock.Exclusive t.Inside ∧ Lock.Matched (bs.filterMap op) t.owner := by
  have hx : Lock.Exclusive (init : State ι).Inside := fun i _ hi _ => by cases hi
  have hfree : Run step Guard init as s ↔ Run step (fun s a => free s a ∧ Guard s a) init as s :=
    ⟨Run.mono fun _ _ hg => ⟨trivial, hg⟩, Run.mono fun _ _ hg => hg.2⟩
  rw [hfree, h.guarded_iff (P := fun t => Lock.Exclusive t.Inside) hx
    fun as s a s' hr hP _ hs => exclusive_step_iff (owned_of_run hr) hP hs]
  constructor
  · intro hP bs t hb ht
    exact ⟨hP bs t hb ht, matched ht⟩
  · intro hP bs t hb ht
    exact (hP bs t hb ht).1

instance (s : State (Fin 2)) (a : Act (Fin 2)) : Decidable (Guard s a) := by
  unfold Guard
  infer_instance

/-- The second thread waits until the first one has left the `run` of the block. -/
def oneByOne : List (Act (Fin 2)) := [.block 0, .call 1 .runWithLock, .try_lock 0 true,
  .construct 0, .destroy 0, .ran 0, .lock 1, .ran 1, .unlock 1]

theorem exclusion_oneByOne : ∃ s, Run step Guard init oneByOne s ∧ s.owner = none ∧
    ∀ bs t, bs <+: oneByOne → Run step free init bs t →
      Lock.Exclusive t.Inside ∧ Lock.Matched (bs.filterMap op) t.owner := by
  obtain ⟨s, hr, ho⟩ : ∃ s, Run step Guard init oneByOne s ∧ s.owner = none :=
    Run.exists_of_exec _ _ (by decide)
  exact ⟨s, hr, ho, (exclusion_iff (hr.mono fun _ _ _ => trivial)).mp hr⟩

/-- The second thread takes the mutex that the guard without a name gave back. -/
def early : List (Act (Fin 2)) := [.block 0, .call 1 .runWithLock, .try_lock 0 true,
  .construct 0, .destroy 0, .lock 1]

theorem early_overlap : ∃ s, Run step free init early s ∧ ¬ Lock.Exclusive s.Inside := by
  obtain ⟨s, hr, h0, h1⟩ : ∃ s : State (Fin 2), Run step free init early s ∧
      s.pc 0 = .tryRun ∧ s.pc 1 = .run .runWithLock := Run.exists_of_exec _ _ (by decide)
  refine ⟨s, hr, fun hx => ?_⟩
  have h01 : (0 : Fin 2) = 1 :=
    hx 0 1 (by rw [State.Inside, h0]; rfl) (by rw [State.Inside, h1]; rfl)
  cases h01

end PracticeCode.MutexLock
