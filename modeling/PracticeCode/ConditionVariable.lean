import PracticeCode.Lib.MonitorInv

/-!
# `condition_variable_test.h`: providers and consumers

The queue of `condition_variable_test`, as programs of the monitor language.  Its mutex is a
`SpinLock`: the `lock` of the language is the `compare_exchange_weak` that succeeds, and `spin` one
that fails and leaves the flag as it is.

A provider releases the mutex before it notifies.  So a value may be in the queue with no wakeup
yet, and another consumer may take it meanwhile; the notification that is still owed counts
(`consumers_cover_queue`).
-/

namespace PracticeCode.ConditionVariableTest

open Lib Lib.Monitor

/-- One turn of the loop of `provider`: `{ lock_guard lg(readyFlagMutex); queue.push(val + i); }`
and then `readyCondVar.notify_one()`. -/
def provide (v : ℤ) : List (Stmt ℤ) := [.lock, .push v, .unlock, .notify]

/-- `provider(val)`, for `n` turns of its loop; the source has `50`. -/
def provider (val : ℤ) (n : ℕ) : List (Stmt ℤ) := (List.range n).flatMap fun i => provide (val + i)

/-- One round of `consumer`: `readyCondVar.wait(ul, …)`, `val = queue.front()`, `queue.pop()` under
the lock; `run` is the output of `val` after it. -/
def consumer : List (Stmt ℤ) := [.lock, .await, .front, .pop, .unlock, .run]

inductive Calls : List (Stmt ℤ) → Prop
  | provider (val : ℤ) (n : ℕ) : Calls (provider val n)
  | consumer : Calls consumer

/-- Every value counts. -/
def null (_ : ℤ) : Bool := false

theorem provide_fits (v : ℤ) : Fits true .out (provide v) := by simp [provide]

theorem flatMap_provide_fits (val : ℤ) (l : List ℕ) :
    Fits true .out (l.flatMap fun i => provide (val + i)) := by
  induction l with
  | nil => rfl
  | cons i l ih => exact (provide_fits _).append ih

theorem calls_fit {p : List (Stmt ℤ)} (h : Calls p) : Fits true .out p := by
  cases h with
  | provider val n => exact flatMap_provide_fits val _
  | consumer => simp [consumer]

section Consumers

variable {n : ℕ} {as : List (Act ℤ)} {s : State ℤ}

/-- Either no consumer is blocked, or the consumers on their way to the predicate and the providers
between the push and `notify_one` are as many as the queued values. -/
def Covered (s : State ℤ) : Prop := s.blocked = 0 ∨ s.queue.length ≤ s.coming + s.owing

instance : DecidablePred Covered := fun s => by unfold Covered; infer_instance

/-- Two consumers sleep, a provider pushes one value and wakes the first. -/
def sleepTwice : List (Act ℤ) :=
  [.call 0 consumer, .exec 0, .exec 0, .call 1 consumer, .exec 1, .exec 1,
    .call 2 (provider 1 1), .exec 2, .exec 2, .exec 2, .notify 2 (some 0)]

theorem sleepTwice_calls : ∀ a ∈ sleepTwice, ∀ s, calls Calls s a := by
  simp [sleepTwice, calls, Calls.consumer, Calls.provider]

/-- The consumer that has found the queue non-empty and not removed its value yet is past the
predicate, and the other one sleeps. -/
theorem not_covered_before_pop : ∃ as, ∃ s : State ℤ,
    Run (step null) (calls Calls) (init 3) as s ∧ ¬ Covered s := by
  obtain ⟨s, hr, hs⟩ : ∃ s : State ℤ, Run (step null) free (init 3)
      (sleepTwice ++ [.relock 0, .exec 0]) s ∧ ¬ Covered s :=
    Run.exists_of_exec _ _ (by decide)
  refine ⟨_, s, hr.of_forall_mem (List.forall_mem_append.mpr ⟨sleepTwice_calls, ?_⟩), hs⟩
  simp [calls]

/-- **Producer and consumer.**  The values consumed are a prefix of the values pushed, no `front` or
`pop` meets an empty queue; and while a consumer is blocked, the consumers on their way to the
predicate, the providers between the push and `notify_one`, and the one consumer that has the mutex
and is about to remove its value are as many as the queued values. -/
theorem consumers_cover_queue (h : Run (step null) (calls Calls) (init n) as s) :
    (s.taken <+: s.pushed ∧ s.taken ++ s.queue = s.pushed ∧ s.underflow = false) ∧
      (s.blocked = 0 ∨ s.queue.length ≤ s.coming + s.owing + s.taking) ∧
      s.taking ≤ (if s.locked then 1 else 0) ∧ (s.locked = false → Covered s) := by
  have hI : Inv null true s := inv_of_run (fun _ hp => calls_fit hp) h
  have hc := hI.covered
  have hle := hI.taking_le
  refine ⟨⟨⟨s.queue, hI.fifo⟩, hI.fifo, hI.safe⟩, by omega, hle, fun hl => ?_⟩
  rw [hl] at hle
  simp only [Bool.false_eq_true, if_false] at hle
  unfold Covered
  omega

theorem consumers_cover_queue_three : ∃ s : State ℤ, 0 < s.blocked ∧ s.queue = [1] ∧
    (s.blocked = 0 ∨ s.queue.length ≤ s.coming + s.owing + s.taking) := by
  obtain ⟨s, hr, hs, hq⟩ : ∃ s : State ℤ, Run (step null) free (init 3) sleepTwice s ∧
      0 < s.blocked ∧ s.queue = [1] := Run.exists_of_exec _ _ (by decide)
  exact ⟨s, hs, hq, (consumers_cover_queue (hr.of_forall_mem sleepTwice_calls)).2.1⟩

end Consumers

end PracticeCode.ConditionVariableTest
