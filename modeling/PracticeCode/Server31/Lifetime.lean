import PracticeCode.Server31.Inv

/-!
# Tasks and the objects they captured

`TaskSafe`: no task of the pool, waiting or running, is for a released `reactor_event`.  Only
`addQueue` makes a task, and only `unbind_reactor_event` releases an object.
-/

namespace PracticeCode.Server31

open Lib Linux

def Worker.task : Worker → Option RevPtr
  | .idle => none
  | .run rev _ => some rev

/-- The reactor is about to add the task of a message of `c`. -/
def Reactor.adding (c : Conn) : Reactor → ℕ
  | .data rev _ _ .addQueue _ => if rev = .data c then 1 else 0
  | _ => 0

/-- A task `data_handler(rev)` waits in the queue or is run by a worker. -/
def Pending (s : State) (rev : RevPtr) : Prop :=
  rev ∈ s.task_queue ∨ ∃ x ∈ s.workers, x.task = some rev

instance (s : State) (rev : RevPtr) : Decidable (Pending s rev) := by
  unfold Pending; infer_instance

/-- **No task is for a released object.** -/
def TaskSafe (s : State) : Prop := ∀ rev, Pending s rev → s.live rev = true

section

variable {s s' : State} {a : Act}

/-- The tasks after a step of a worker were tasks before it. -/
theorem pending_of_set {l : List Worker} {w : ℕ} {y : Worker} {q : List RevPtr} {rev : RevPtr}
    (hy : ∀ rev, y.task = some rev → Pending s rev) (hl : s.workers = l)
    (hq : ∀ rev ∈ q, rev ∈ s.task_queue) (h : rev ∈ q ∨ ∃ x ∈ l.set w y, x.task = some rev) :
    Pending s rev := by
  rcases h with h | ⟨x, hx, hr⟩
  · exact .inl (hq _ h)
  · rcases List.mem_or_eq_of_mem_set hx with hx | rfl
    · exact .inr ⟨x, hl ▸ hx, hr⟩
    · exact hy _ hr

/-- **Only `addQueue` makes a task**, and it makes one for the object the handler runs for. -/
theorem pending_of_step {rev : RevPtr} (hs : step s a = some s') (h : Pending s' rev) :
    Pending s rev ∨ ∃ cfd rspfd evs, s.reactor = .data rev cfd rspfd .addQueue evs ∧
      s'.live = s.live := by
  cases outcome_of_step hs with
  | addQueue hr =>
    rcases h with h | h
    · rcases List.mem_append.mp h with h | h
      · exact .inl (.inl h)
      · rw [List.mem_singleton.mp h]
        exact .inr ⟨_, _, _, hr, rfl⟩
    · exact .inl (.inr h)
  | exit => rcases h with h | ⟨x, hx, -⟩ <;> contradiction
  | @pop w r rest hw hq =>
    refine .inl (pending_of_set ?_ rfl (fun _ hm => ?_) h)
    · rintro _ ⟨⟩
      exact .inl (by rw [hq]; exact List.mem_cons_self ..)
    · rw [hq]
      exact List.mem_cons_of_mem _ hm
  | shiftReq hw =>
    refine .inl (pending_of_set ?_ rfl (fun _ hm => hm) h)
    rintro _ ⟨⟩
    exact .inr ⟨_, List.mem_of_getElem? hw, rfl⟩
  | reqEmpty hw => exact .inl (pending_of_set (y := .idle) nofun rfl (fun _ hm => hm) h)
  | pushRsp hw =>
    refine .inl (pending_of_set ?_ rfl (fun _ hm => hm) h)
    rintro _ ⟨⟩
    exact .inr ⟨_, List.mem_of_getElem? hw, rfl⟩
  | write hw => exact .inl (pending_of_set (y := .idle) nofun rfl (fun _ hm => hm) h)
  | _ => exact .inl h

/-- **Only `unbind_reactor_event` releases an object.** -/
theorem live_of_step {rev : RevPtr} (hs : step s a = some s') (h : s.live rev = true) :
    s'.live rev = true ∨
      (a = .unbind ∧ ∃ cfd rspfd evs, s.reactor = .data rev cfd rspfd .unbind evs) := by
  cases outcome_of_step hs with
  | @addClient lfd c cfd evfd evs k hr hk =>
    refine .inl ?_
    simp only [State.bind, Function.update_apply]
    split <;> simp [h]
  | @addRsp lfd c cfd evfd evs k hr hk =>
    refine .inl ?_
    simp only [State.bind, Function.update_apply]
    split <;> simp [h]
  | @unbind r cfd rspfd evs hr =>
    by_cases e : rev = r
    · exact .inr ⟨rfl, cfd, rspfd, evs, e ▸ hr⟩
    · exact .inl (by simpa only [Function.update_of_ne e] using h)
  | _ => exact .inl h

end

/-- A connection is accepted and bound to `fd` and `fd'`, from a batch with its event. -/
def acceptActs (fd fd' : Fd) : List Act :=
  [.dispatch, .accept fd, .eventfd fd', .ctlAdd, .ctlAdd, .acceptAgain]

/-- The handler reads one message and makes a task of it. -/
def readActs : List Act := [.recv 1024 [], .pushReq, .addQueue]

/-- The handler reads the EOF and closes the connection. -/
def closeActs : List Act := [.recv 1024 [], .ctlDel, .ctlDel, .close, .close, .unbind]

/-- The message is processed before the client closes; the next client has a task waiting. -/
def settledRun : List Act := List.flatten
  [[.connect, .epollWait [4]], acceptActs 5 6,
    [.dispatch, .clientSend 0 [1], .epollWait [5], .dispatch], readActs,
    [.recv 1024 [], .pop 0, .shiftReq 0, .pushRsp 0, .write 0, .dispatch, .clientClose 0, .connect,
      .epollWait [5, 4], .dispatch], closeActs, acceptActs 5 6,
    [.dispatch, .clientSend 1 [2], .epollWait [5], .dispatch], readActs]

end PracticeCode.Server31
