import PracticeCode.Lib.Compose
import PracticeCode.QueueHistories
import PracticeCode.Server3.Inv

/-!
# Server 3 with the mutex and the condition variable of its pool

`Server3.step` puts a task into the queue and takes one out in one step.  Here the reactor thread
runs `addQueue` and the workers run `run_worker`, statement by statement, as threads of one monitor:
thread `0` is the reactor, thread `w + 1` is worker `w`.

* `Threads.own` and `Threads.accept` say what the threads do outside and at the border of these two
  functions: while the reactor is in `addQueue` it does nothing else, and a worker calls
  `data_handler` when `run_worker` has a task for it;
* `view` forgets the mutex, the condition variable and where the threads are in the two functions.
-/

namespace PracticeCode.Server3

open Lib Lib.Monitor Linux

/-! ## The threads and the monitor -/

/-- `server` is the state outside the pool; its `task_queue` stays empty. -/
structure Threads where
  server : State
  /-- The reactor is in `addQueue`. -/
  adding : Bool

/-- The steps of the reactor thread. -/
def Act.ofReactor : Act → Bool
  | .epollWait _ | .dispatch | .accept _ | .acceptAgain | .acceptFail | .ctlAdd
  | .ctlAddFail => true
  | _ => false

/-- A step outside `addQueue` and `run_worker`. -/
def Threads.own (t : Threads) (a : Act) : Option Threads :=
  if t.adding && a.ofReactor then none else
    (step t.server a).bind fun s => if s.task_queue = [] then some { t with server := s } else none

abbrev PoolEvent := Lib.Event (QueueOp RevPtr) (Option RevPtr)

/-- How the threads go on at a call or a return of the pool. -/
def Threads.accept (t : Threads) : PoolEvent → Option Threads
  -- `data_handler_by_worker` calls `addQueue`
  | .call 0 (.put rev) => if t.adding then none else
      (step t.server .dispatch).bind fun s =>
        if s.task_queue = [rev] then some ⟨{ s with task_queue := [] }, true⟩ else none
  | .ret 0 none => some { t with adding := false }
  | .call (w + 1) .take => if t.server.workers[w]? = some .idle then some t else none
  -- `task()`
  | .ret (w + 1) (some rev) =>
      if t.server.workers[w]? = some .idle then
        (t.server.heap rev).map fun r =>
          { t with server := t.server.setWorker w (.run rev r.client_fd .recv) }
      else none
  | _ => none

/-- Server 3 with its pool.  No task is empty. -/
def poolStep : Threads × Monitor.State RevPtr → Act ⊕ Monitor.Act RevPtr →
    Option (Threads × Monitor.State RevPtr) :=
  together Threads.own Threads.accept (Monitor.step fun _ => false) events

def poolInit (n : ℕ) : Threads × Monitor.State RevPtr := (⟨init n, false⟩, Monitor.init (n + 1))

/-- The threads call `addQueue` and `run_worker` only. -/
def poolCalls : Threads × Monitor.State RevPtr → Act ⊕ Monitor.Act RevPtr → Prop :=
  within (calls WorkerPool.Calls)

/-! ## The view -/

/-- A task that a worker has taken out is one it runs. -/
def withTask (heap : RevPtr → Option ReactorEvent) (hand : List RevPtr) : Worker → Worker
  | .idle => match hand with
    | rev :: _ => .run rev ((heap rev).elim 0 ReactorEvent.client_fd) .recv
    | [] => .idle
  | x => x

/-- The state of `Server3.step`: the queue with the task that the reactor is about to push, and the
workers with the tasks that they have taken out. -/
def viewOf (s : State) (queue : List RevPtr) (hand : ℕ → List RevPtr) : State :=
  { s with
    task_queue := if s.reactor = .exited then [] else queue
    workers := s.workers.mapIdx fun w => withTask s.heap (hand w) }

def Threads.view (t : Threads) (p : Monitor.State RevPtr) : State :=
  viewOf t.server (p.queue ++ (p.threads[0]?.elim [] fun u => pushing u.rest))
    fun w => p.threads[w + 1]?.elim [] Thread.hand

/-- The same with the pool as one object. -/
def Threads.viewAtomic (t : Threads)
    (q : Atomic (List RevPtr) (QueueOp RevPtr) (Option RevPtr)) : State :=
  viewOf t.server (q.obj ++ putting (q.client 0)) fun w => getting (q.client (w + 1))

/-! ## The server's own steps under the view -/

section Frame

variable {s s' : State} {a : Act} {q : List RevPtr} {l : List Worker}

/-- The state with another queue and other workers. -/
def State.withPool (s : State) (q : List RevPtr) (l : List Worker) : State :=
  { s with task_queue := q, workers := l }

/-- The reactor does not look at the pool, but that it takes it away at the end. -/
theorem reactorStep_withPool (h : reactorStep s a = some s')
    (hq : s'.reactor = .exited ∨ s'.task_queue = s.task_queue) :
    reactorStep (s.withPool q l) a =
        some (if s'.reactor = .exited then s' else s'.withPool q l) ∧
      s'.workers = (if s'.reactor = .exited then [] else s.workers) := by
  cases a with
  | epollWait fds =>
    simp only [reactorStep] at h ⊢
    split at h
    · rename_i hr
      obtain ⟨p, hp, rfl⟩ := Option.map_eq_some_iff.mp h
      simp [State.withPool, hr, hp]
    · cases h
  | dispatch =>
    simp only [reactorStep] at h ⊢
    split at h
    · rename_i hr
      obtain rfl := Option.some.inj h
      simp [State.withPool, hr]
    · rename_i rev evs hr
      obtain ⟨r, hh, rfl⟩ := Option.map_eq_some_iff.mp h
      cases hc : r.callback with
      | connection_handler => simp [State.withPool, callback, hr, hh, hc]
      | data_handler_by_worker => simp [hc] at hq
    · rename_i hr
      obtain rfl := Option.some.inj h
      simp [State.withPool, hr]
    · cases h
  | accept fd =>
    simp only [reactorStep] at h ⊢
    split at h
    · rename_i hr
      obtain ⟨p, hp, rfl⟩ := Option.map_eq_some_iff.mp h
      simp [State.withPool, hr, hp]
    · cases h
  | acceptAgain =>
    simp only [reactorStep] at h ⊢
    split at h
    · rename_i hr
      split at h
      · rename_i hb
        obtain rfl := Option.some.inj h
        simp [State.withPool, hr, hb]
      · cases h
    · cases h
  | acceptFail =>
    simp only [reactorStep] at h ⊢
    split at h
    · rename_i hr
      obtain rfl := Option.some.inj h
      simp [State.withPool, State.exit, hr]
    · cases h
  | ctlAdd =>
    simp only [reactorStep] at h ⊢
    split at h
    · rename_i hr
      split at h
      · rename_i hk
        obtain rfl := Option.some.inj h
        simp [State.withPool, hr, hk]
      · rename_i hk
        obtain rfl := Option.some.inj h
        simp [State.withPool, State.exit, hr, hk]
    · cases h
  | ctlAddFail =>
    simp only [reactorStep] at h ⊢
    split at h
    · rename_i hr
      obtain rfl := Option.some.inj h
      simp [State.withPool, State.exit, hr]
    · cases h
  | _ => simp [reactorStep] at h

/-- Neither do the clients. -/
theorem step_withPool_of_client (ha : a = .connect ∨ (∃ c bytes, a = .clientSend c bytes) ∨
      ∃ c, a = .clientClose c) (h : step s a = some s') :
    step (s.withPool q l) a = some (s'.withPool q l) ∧ s'.workers = s.workers ∧
      s'.reactor = s.reactor ∧ s'.task_queue = s.task_queue := by
  rcases ha with rfl | ⟨c, bytes, rfl⟩ | ⟨c, rfl⟩
  · obtain rfl := Option.some.inj h
    exact ⟨rfl, rfl, rfl, rfl⟩
  · obtain ⟨k, hk, rfl⟩ := Option.map_eq_some_iff.mp h
    simp [State.withPool, step, hk]
  · obtain ⟨k, hk, rfl⟩ := Option.map_eq_some_iff.mp h
    simp [State.withPool, step, hk]

/-- A worker in `data_handler` looks at nobody else. -/
theorem workerStep_withPool (h : workerStep s a = some s') (ha : ∀ w, a ≠ .pop w)
    (hl : ∀ (w : ℕ) (x : Worker), s.workers[w]? = some x → x ≠ .idle → l[w]? = some x) :
    ∃ (w : ℕ) (x : Worker), s'.workers = s.workers.set w x ∧ s'.reactor = s.reactor ∧
      s'.heap = s.heap ∧ s'.task_queue = s.task_queue ∧
      (∃ y, s.workers[w]? = some y ∧ y ≠ .idle) ∧
      workerStep (s.withPool q l) a = some (s'.withPool q (l.set w x)) := by
  cases a with
  | pop w => exact absurd rfl (ha w)
  | recv w n =>
    simp only [workerStep] at h
    split at h
    · rename_i rev cfd hw
      have hlw := hl w _ hw (by simp)
      split at h
      · rename_i hn
        rcases hk : s.kernel.recv cfd n with ⟨r, k⟩
        rw [hk] at h
        cases r with
        | data c chunk =>
          obtain rfl := Option.some.inj h
          refine ⟨w, _, rfl, rfl, rfl, rfl, ⟨_, hw, by simp⟩, ?_⟩
          simp [State.withPool, State.setWorker, State.record, workerStep, hlw, hn, hk]
        | again =>
          obtain rfl := Option.some.inj h
          refine ⟨w, _, rfl, rfl, rfl, rfl, ⟨_, hw, by simp⟩, ?_⟩
          simp [State.withPool, State.setWorker, State.record, workerStep, hlw, hn, hk]
        | _ =>
          obtain rfl := Option.some.inj h
          refine ⟨w, _, rfl, rfl, rfl, rfl, ⟨_, hw, by simp⟩, ?_⟩
          simp [State.withPool, State.setWorker, State.record, workerStep, hlw, hn, hk]
      · cases h
    · cases h
  | recvFail w =>
    simp only [workerStep] at h
    split at h
    · rename_i rev cfd hw
      obtain rfl := Option.some.inj h
      refine ⟨w, _, rfl, rfl, rfl, rfl, ⟨_, hw, by simp⟩, ?_⟩
      simp [State.withPool, State.setWorker, State.record, workerStep, hl w _ hw (by simp)]
    · cases h
  | send w res =>
    simp only [workerStep] at h
    split at h
    · rename_i rev cfd src buf hw
      split at h
      · rename_i hc
        obtain rfl := Option.some.inj h
        refine ⟨w, _, rfl, rfl, rfl, rfl, ⟨_, hw, by simp⟩, ?_⟩
        simp [State.withPool, State.setWorker, State.record, workerStep, hl w _ hw (by simp), hc]
      · cases h
    · cases h
  | ctlDel w =>
    simp only [workerStep] at h
    split at h
    · rename_i rev cfd hw
      obtain rfl := Option.some.inj h
      refine ⟨w, _, rfl, rfl, rfl, rfl, ⟨_, hw, by simp⟩, ?_⟩
      simp [State.withPool, State.setWorker, State.record, workerStep, hl w _ hw (by simp)]
    · cases h
  | close w =>
    simp only [workerStep] at h
    split at h
    · rename_i rev cfd hw
      obtain rfl := Option.some.inj h
      refine ⟨w, _, rfl, rfl, rfl, rfl, ⟨_, hw, by simp⟩, ?_⟩
      simp [State.withPool, State.setWorker, State.record, workerStep, hl w _ hw (by simp)]
    · cases h
  | _ => simp [workerStep] at h

end Frame

end PracticeCode.Server3
