import PracticeCode.ConditionVariable
import PracticeCode.Lib.MonitorQueue
import PracticeCode.WorkerPool

/-!
# What the users of the queues see

The queues of both worker pools, `SafeQueue` and the queue of `condition_variable_test`, seen from
outside: the threads call `addQueue`, `shift` and so on at any time and get their results.  Whatever
the interleaving, the choice of the woken thread and the spurious wakeups, they see a FIFO queue
whose operations happen one at a time, each between its call and its return.
-/

namespace PracticeCode

open Lib Lib.Monitor

variable {τ : Type*}

theorem Server3.WorkerPool.calls_ops {p : List (Stmt τ)} (h : Calls p) : Ops false p := by
  cases h with
  | addQueue task => exact .put task .nil
  | run_worker => exact .take .nil

theorem Server31.SafeQueue.calls_ops {p : List (Stmt τ)} (h : Calls p) : Ops false p := by
  cases h with
  | push t => exact .put t .nil
  | shift => exact .take .nil
  | shift_no_wait => exact .poll .nil

theorem Server31.WorkerPool.calls_ops {p : List (Stmt τ)} (h : Calls p) : Ops false p := by
  cases h with
  | addQueue task => exact SafeQueue.calls_ops (.push task)
  | run_worker => exact SafeQueue.calls_ops .shift

/-- **The pools are queues.**  What the callers of `addQueue` and `push` and the threads in
`run_worker`, `shift` and `shift_no_wait` see of each other can be put in one order of a FIFO queue
that respects the order of calls and returns. -/
theorem pools_linearizable {null : τ → Bool} {P : List (Stmt τ) → Prop} {n : ℕ}
    {as : List (Monitor.Act τ)} {p : Monitor.State τ × List (Event (QueueOp τ) (Option τ))}
    (hP : P = Server3.WorkerPool.Calls ∨ P = Server31.SafeQueue.Calls ∨
      P = Server31.WorkerPool.Calls)
    (h : Run (watch (step null) events) (fun p a => calls P p.1 a) (init n, []) as p) :
    ∃ l, Linearizes fifo [] p.2 l := by
  refine linearizes_of_ops (fun r hr => (?_ : Ops false r)) h
  rcases hP with rfl | rfl | rfl
  · exact Server3.WorkerPool.calls_ops hr
  · exact Server31.SafeQueue.calls_ops hr
  · exact Server31.WorkerPool.calls_ops hr

theorem pools_linearizable_one : ∃ p : Monitor.State ℕ × List (Event (QueueOp ℕ) (Option ℕ)),
    p.2 = [.call 0 .take, .call 1 (.put 7), .ret 1 none, .ret 0 (some 7)] ∧
      ∃ l, Linearizes fifo [] p.2 l := by
  obtain ⟨p, hr, hp⟩ : ∃ p, Run (watch (step (· == 0)) events) free (init 2, [])
      (sleepThenAdd Server3.WorkerPool.run_worker (Server3.WorkerPool.addQueue 7) ++
        wakeThenRun) p ∧
      p.2 = [.call 0 .take, .call 1 (.put 7), .ret 1 none, .ret 0 (some 7)] :=
    Run.exists_of_exec _ _ (by decide)
  refine ⟨p, hp, pools_linearizable (.inl rfl) (hr.of_forall_mem fun a ha q => ?_)⟩
  exact List.forall_mem_append.mpr
    ⟨sleepThenAdd_calls .run_worker (.addQueue 7), wakeThenRun_calls⟩ a ha q.1

namespace ConditionVariableTest

theorem flatMap_provide_ops (val : ℤ) (l : List ℕ) :
    Ops true (l.flatMap fun i => provide (val + i)) := by
  induction l with
  | nil => exact .nil
  | cons i l ih => exact .putLate _ rfl ih

theorem calls_ops {p : List (Stmt ℤ)} (h : Calls p) : Ops true p := by
  cases h with
  | provider val n => exact flatMap_provide_ops val _
  | consumer => exact .take .nil

/-- **The queue of the test is a queue**, although a provider notifies after it released the mutex:
each turn of a provider and each round of a consumer happen at once, between call and return. -/
theorem consumers_linearizable {n : ℕ} {as : List (Monitor.Act ℤ)}
    {p : Monitor.State ℤ × List (Event (QueueOp ℤ) (Option ℤ))}
    (h : Run (watch (step null) events) (fun p a => calls Calls p.1 a) (init n, []) as p) :
    ∃ l, Linearizes fifo [] p.2 l :=
  linearizes_of_ops (fun _ hr => calls_ops hr) h

/-- The sleeping consumer is served while the second value of the provider is on its way. -/
theorem consumers_linearizable_two : ∃ p : Monitor.State ℤ × List (Event (QueueOp ℤ) (Option ℤ)),
    p.2 = [.call 0 .take, .call 1 (.put 5), .ret 1 none, .call 1 (.put 6), .ret 0 (some 5)] ∧
      ∃ l, Linearizes fifo [] p.2 l := by
  obtain ⟨p, hr, hp⟩ : ∃ p, Run (watch (step null) events) free (init 2, [])
      [.call 0 consumer, .exec 0, .exec 0, .call 1 (provider 5 2), .exec 1, .exec 1, .exec 1,
        .notify 1 (some 0), .relock 0, .spin 1, .exec 0, .exec 0, .exec 0, .exec 0, .exec 0] p ∧
      p.2 = [.call 0 .take, .call 1 (.put 5), .ret 1 none, .call 1 (.put 6), .ret 0 (some 5)] :=
    Run.exists_of_exec _ _ (by decide)
  refine ⟨p, hp, consumers_linearizable (hr.of_forall_mem fun a ha q => ?_)⟩
  revert a
  simp [calls, Calls.consumer, Calls.provider]

end ConditionVariableTest

end PracticeCode
