import PracticeCode.Lib.MonitorInv

/-!
# The worker pools of `3.single_reactor_multi_worker` and `3.1single_reactor_multi_worker`

`WorkerPool.h` and `SafeQueue.h` as programs of the monitor language.  A `Runable` is an element of
`τ`, and `null` tells the empty ones.

Any number of threads call these functions in any order.  What is put in comes out in the same
order, once, and is run (`tasks_dispatched`).  No task waits for a sleeping worker: the workers on
their way to the check are as many as the queued tasks, but for the one thread that has the mutex
(`workers_cover_queue`).
-/

namespace PracticeCode

open Lib Lib.Monitor

variable {τ : Type*}

/-! ## The functions -/

namespace Server3.WorkerPool

/-- `lock_guard l(lock); task_queue.push(task); conditiob_var.notify_one();` -/
def addQueue (task : τ) : List (Stmt τ) := [.lock, .push task, .notify, .unlock]

/-- One round of the loop: `conditiob_var.wait(l, …)`, `task = task_queue.front()`,
`task_queue.pop()` under the lock, then `if (task == nullptr) continue; task();`. -/
def run_worker : List (Stmt τ) := [.lock, .await, .front, .pop, .unlock, .run]

inductive Calls : List (Stmt τ) → Prop
  | addQueue (task : τ) : Calls (addQueue task)
  | run_worker : Calls run_worker

theorem calls_fit {p : List (Stmt τ)} (h : Calls p) : Fits false .out p := by
  cases h with
  | addQueue task => simp [addQueue]
  | run_worker => simp [run_worker]

end Server3.WorkerPool

namespace Server31.SafeQueue

/-- `lock_guard lock(m); q.push(t); c.notify_one();` -/
def push (t : τ) : List (Stmt τ) := [.lock, .push t, .notify, .unlock]

/-- `while (q.empty()) c.wait(lock);`, then `front` and `pop`; `run` stands for what the caller does
with the value that is returned. -/
def shift : List (Stmt τ) := [.lock, .await, .front, .pop, .unlock, .run]

/-- `if (q.empty()) return false;`, then `front` and `pop`. -/
def shift_no_wait : List (Stmt τ) := [.lock, .leaveIfEmpty, .front, .pop, .unlock, .run]

inductive Calls : List (Stmt τ) → Prop
  | push (t : τ) : Calls (push t)
  | shift : Calls shift
  | shift_no_wait : Calls shift_no_wait

theorem calls_fit {p : List (Stmt τ)} (h : Calls p) : Fits false .out p := by
  cases h with
  | push t => simp [push]
  | shift => simp [shift]
  | shift_no_wait => simp [shift_no_wait]

end Server31.SafeQueue

namespace Server31.WorkerPool

/-- `task_queue.push(task)`. -/
def addQueue (task : τ) : List (Stmt τ) := SafeQueue.push task

/-- `task = task_queue.shift(); if (task == nullptr) continue; task();` -/
def run_worker : List (Stmt τ) := SafeQueue.shift

inductive Calls : List (Stmt τ) → Prop
  | addQueue (task : τ) : Calls (addQueue task)
  | run_worker : Calls run_worker

theorem calls_fit {p : List (Stmt τ)} (h : Calls p) : Fits false .out p := by
  cases h with
  | addQueue task => exact SafeQueue.calls_fit (.push task)
  | run_worker => exact SafeQueue.calls_fit .shift

end Server31.WorkerPool

/-! ## Dispatch -/

/-- What the pool promises for the tasks that were put in. -/
structure Dispatched (null : τ → Bool) (P : List (Stmt τ) → Prop) (s : State τ) : Prop where
  /-- The tasks come out in the order in which they were put in. -/
  prefixed : s.taken <+: s.pushed
  /-- None is lost or duplicated: what was not taken is queued. -/
  kept : s.taken ++ s.queue = s.pushed
  nonempty : s.underflow = false
  /-- The non-null tasks that were taken were started or are in a worker's hand. -/
  started : (s.taken.filter fun x => !null x).Perm (s.ran ++ s.hands.filter fun x => !null x)
  /-- Every task is started at most as often as it was put in. -/
  once : s.ran.Subperm s.pushed
  /-- A task in hand is started by the next steps of its worker. -/
  starts : ∀ i t x, s.threads[i]? = some t → x ∈ t.hand → null x = false →
    ∃ k s', 0 < k ∧ Run (step null) (calls P) s (List.replicate k (.exec i)) s' ∧
      s'.ran = s.ran ++ [x]

section Pools

variable {null : τ → Bool} {late : Bool} {P : List (Stmt τ) → Prop} {n : ℕ} {as : List (Act τ)}
  {s : State τ}

theorem dispatched_of_inv (h : Inv null late s) : Dispatched null P s where
  prefixed := ⟨s.queue, h.fifo⟩
  kept := h.fifo
  nonempty := h.safe
  started := h.ledger
  once := by
    have h1 : s.ran.Subperm (s.taken.filter fun x => !null x) :=
      (List.sublist_append_left ..).subperm.trans h.ledger.symm.subperm
    have h2 : (s.taken.filter fun x => !null x).Sublist s.pushed :=
      List.filter_sublist.trans (h.fifo ▸ List.sublist_append_left ..)
    exact h1.trans h2.subperm
  starts _ _ _ hi hx hn := h.exists_ran hi hx hn

/-- **Dispatch.**  Both pools, with any number of workers and any callers of `addQueue`: the tasks
taken are a prefix of the tasks put in, none from an empty queue, and the non-null ones are run,
each at most once. -/
theorem tasks_dispatched (hP : P = Server3.WorkerPool.Calls ∨ P = Server31.WorkerPool.Calls)
    (h : Run (step null) (calls P) (init n) as s) : Dispatched null P s := by
  refine dispatched_of_inv (inv_of_run (fun p hp => ?_) h : Inv null false s)
  rcases hP with rfl | rfl
  · exact Server3.WorkerPool.calls_fit hp
  · exact Server31.WorkerPool.calls_fit hp

/-- Worker `0` falls asleep on the empty queue, and thread `1` puts a task in: the actions up to the
notification, and from there up to the run of the task. -/
def sleepThenAdd (worker task : List (Stmt ℕ)) : List (Act ℕ) :=
  [.call 0 worker, .exec 0, .exec 0, .call 1 task, .exec 1, .exec 1]

def wakeThenRun : List (Act ℕ) :=
  [.notify 1 (some 0), .exec 1, .relock 0, .exec 0, .exec 0, .exec 0, .exec 0, .exec 0]

theorem sleepThenAdd_calls {worker task : List (Stmt ℕ)} {P : List (Stmt ℕ) → Prop}
    (hw : P worker) (ht : P task) : ∀ a ∈ sleepThenAdd worker task, ∀ s, calls P s a := by
  simp [sleepThenAdd, calls, hw, ht]

theorem wakeThenRun_calls {P : List (Stmt ℕ) → Prop} : ∀ a ∈ wakeThenRun, ∀ s, calls P s a := by
  simp [wakeThenRun, calls]

theorem tasks_dispatched_one : ∃ s : State ℕ, s.ran = [7] ∧
    Dispatched (· == 0) Server31.WorkerPool.Calls s := by
  obtain ⟨s, hr, hs⟩ : ∃ s : State ℕ, Run (step (· == 0)) free (init 2)
      (sleepThenAdd Server31.WorkerPool.run_worker (Server31.WorkerPool.addQueue 7) ++
        wakeThenRun) s ∧ s.ran = [7] := Run.exists_of_exec _ _ (by decide)
  refine ⟨s, hs, tasks_dispatched (.inr rfl) (hr.of_forall_mem ?_)⟩
  exact List.forall_mem_append.mpr
    ⟨sleepThenAdd_calls .run_worker (.addQueue 7), wakeThenRun_calls⟩

/-! ## Wakeups -/

/-- Either nobody sleeps, or as many workers are on their way to the check as tasks are queued. -/
def Covered (s : State τ) : Prop := s.blocked = 0 ∨ s.queue.length ≤ s.coming

instance : DecidablePred (@Covered τ) := fun s => by unfold Covered; infer_instance

/-- Inside the critical section of `addQueue` it does not hold: the task is in the queue, and the
notification comes next. -/
theorem not_covered_before_notify :
    (∃ as, ∃ s : State ℕ, Run (step (· == 0)) (calls Server3.WorkerPool.Calls) (init 2) as s ∧
      ¬ Covered s) ∧
    ∃ as, ∃ s : State ℕ, Run (step (· == 0)) (calls Server31.SafeQueue.Calls) (init 2) as s ∧
      ¬ Covered s := by
  constructor
  · obtain ⟨s, hr, hs⟩ : ∃ s : State ℕ, Run (step (· == 0)) free (init 2)
        (sleepThenAdd Server3.WorkerPool.run_worker (Server3.WorkerPool.addQueue 7)) s ∧
          ¬ Covered s := Run.exists_of_exec _ _ (by decide)
    exact ⟨_, s, hr.of_forall_mem (sleepThenAdd_calls .run_worker (.addQueue 7)), hs⟩
  · obtain ⟨s, hr, hs⟩ : ∃ s : State ℕ, Run (step (· == 0)) free (init 2)
        (sleepThenAdd Server31.SafeQueue.shift (Server31.SafeQueue.push 7)) s ∧
          ¬ Covered s := Run.exists_of_exec _ _ (by decide)
    exact ⟨_, s, hr.of_forall_mem (sleepThenAdd_calls .shift (.push 7)), hs⟩

/-- **No lost wakeup.**  While a worker sleeps, the workers on their way to the check, together with
the thread that has the mutex and is about to take a task or to notify, are as many as the queued
tasks.  When no thread has the mutex, the workers on their way to the check are enough. -/
theorem workers_cover_queue
    (hP : P = Server3.WorkerPool.Calls ∨ P = Server31.SafeQueue.Calls)
    (h : Run (step null) (calls P) (init n) as s) :
    (s.blocked = 0 ∨ s.queue.length ≤ s.coming + (s.taking + s.owing)) ∧
      s.taking + s.owing ≤ (if s.locked then 1 else 0) ∧ (s.locked = false → Covered s) := by
  have hI : Inv null false s := by
    refine inv_of_run (fun p hp => ?_) h
    rcases hP with rfl | rfl
    · exact Server3.WorkerPool.calls_fit hp
    · exact Server31.SafeQueue.calls_fit hp
  have hc := hI.covered
  have hle := hI.taking_add_owing_le
  refine ⟨by omega, hle, fun hl => ?_⟩
  rw [hl] at hle
  simp only [Bool.false_eq_true, if_false] at hle
  unfold Covered
  omega

theorem workers_cover_queue_one : ∃ s : State ℕ, 0 < s.blocked ∧ s.queue = [7] ∧
    (s.blocked = 0 ∨ s.queue.length ≤ s.coming + (s.taking + s.owing)) := by
  obtain ⟨s, hr, hs, hq⟩ : ∃ s : State ℕ, Run (step (· == 0)) free (init 2)
      (sleepThenAdd Server3.WorkerPool.run_worker (Server3.WorkerPool.addQueue 7)) s ∧
        0 < s.blocked ∧ s.queue = [7] := Run.exists_of_exec _ _ (by decide)
  have hr' : Run _ (calls Server3.WorkerPool.Calls) _ _ s :=
    hr.of_forall_mem (sleepThenAdd_calls .run_worker (.addQueue 7))
  exact ⟨s, hs, hq, (workers_cover_queue (.inl rfl) hr').1⟩

end Pools

end PracticeCode
