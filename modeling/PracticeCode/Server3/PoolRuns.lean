import PracticeCode.Server3.NoStall
import PracticeCode.Server3.PoolRefinement

/-!
# Every run of server 3 is one of its pool

The converse of `pool_refines`: with nobody in the pool, `addQueue` can run from its lock to its
unlock, and a worker from its lock to the call of the task.  So each step of `Server3.step` is the
view of some steps with the pool (`Quiet.lift`), and what the step relation can do, the mutex and
the condition variable allow (`pool_reaches_iff`).

So what holds of all runs of `Server3.step` holds with the pool.  `unread_onItsWay` puts the two
levels together: no connection with unread bytes is forgotten, by epoll or by a sleeping worker.
-/

namespace PracticeCode.Server3

open Lib Lib.Monitor Linux

/-- Nobody is in the pool, and the view is `s`. -/
structure Quiet (x : Threads × Monitor.State RevPtr) (s : State) : Prop where
  adding : x.1.adding = false
  unlocked : x.2.locked = false
  rest : ∀ u ∈ x.2.threads, u = ⟨[], none, .awake⟩
  threads : s.workers.length < x.2.threads.length
  server : x.1.server = s.withPool [] s.workers
  queue : s.reactor = .exited ∨ x.2.queue = s.task_queue
  exited : s.reactor = .exited → s.task_queue = [] ∧ s.workers = []

section Quiet

variable {x : Threads × Monitor.State RevPtr} {s s' : State} {a : Act} {i : ℕ}

theorem Quiet.thread (h : Quiet x s) (hi : i < x.2.threads.length) :
    x.2.threads[i]? = some ⟨[], none, .awake⟩ := by
  rw [List.getElem?_eq_getElem hi, h.rest _ (List.getElem_mem hi)]

theorem Quiet.view (h : Quiet x s) : x.1.view x.2 = s := by
  have hput : (x.2.threads[0]?.elim [] fun u => pushing u.rest) = [] := by
    rw [h.thread (Nat.zero_lt_of_lt h.threads)]
    rfl
  have hget : (fun w => x.2.threads[w + 1]?.elim [] Thread.hand) = fun _ => [] := by
    funext w
    cases hu : x.2.threads[w + 1]? with
    | none => rfl
    | some u =>
      obtain rfl := h.rest u (List.mem_of_getElem? hu)
      rfl
  have hw : (s.workers.mapIdx fun _ => withTask s.heap []) = s.workers := by
    refine List.ext_getElem? fun w => ?_
    rw [List.getElem?_mapIdx]
    cases s.workers[w]? <;> simp
  rw [Threads.view, hput, hget, h.server, List.append_nil]
  simp only [viewOf, State.withPool, hw]
  by_cases hx : s.reactor = .exited
  · simp only [if_pos hx, ← (h.exited hx).1]
  · simp only [if_neg hx, h.queue.resolve_left hx]

/-- A step outside the pool. -/
theorem Quiet.own (h : Quiet x s)
    (hf : step (s.withPool [] s.workers) a = some (s'.withPool [] s'.workers))
    (hq : s'.reactor = .exited ∨ s.reactor ≠ .exited ∧ s'.task_queue = s.task_queue)
    (hw : s'.workers.length ≤ s.workers.length)
    (hx : s'.reactor = .exited → s'.task_queue = [] ∧ s'.workers = []) :
    ∃ as x', Run poolStep poolCalls x as x' ∧ Quiet x' s' := by
  have hown : x.1.own a = some { x.1 with server := s'.withPool [] s'.workers } := by
    simp only [Threads.own, h.adding, Bool.false_and, if_neg Bool.false_ne_true, h.server, hf]
    rfl
  have hstep : poolStep x (.inl a) = some ({ x.1 with server := s'.withPool [] s'.workers }, x.2) :=
    together_inl.mpr ⟨hown, rfl⟩
  refine ⟨[.inl a], _, .cons trivial hstep .nil, ?_⟩
  refine ⟨h.adding, h.unlocked, h.rest, hw.trans_lt h.threads, rfl, ?_, hx⟩
  rcases hq with hq | ⟨ha, hq⟩
  · exact .inl hq
  · exact .inr ((h.queue.resolve_left ha).trans hq.symm)

/-! ### Runs through the pool -/

/-- A statement inside an operation. -/
theorem poolStep_exec {t : Threads} {p p' : Monitor.State RevPtr} {st : Stmt RevPtr}
    {r : List (Stmt RevPtr)} {v : Option RevPtr} (hi : p.threads[i]? = some ⟨st :: r, v, .awake⟩)
    (hb : between r = false) (hs : execStmt (fun _ => false) p i r v st = some p') :
    poolStep (t, p) (.inr (.exec i)) = some (t, p') := by
  refine together_inr.mpr ⟨?_, ?_⟩
  · simp only [Monitor.step, hi, hs]
  · simp only [events, hi, hb]
    rfl

/-- The last statement of an operation. -/
theorem poolStep_ret {t t' : Threads} {p p' : Monitor.State RevPtr} {st : Stmt RevPtr}
    {v : Option RevPtr} (hi : p.threads[i]? = some ⟨[st], v, .awake⟩)
    (hs : execStmt (fun _ => false) p i [] v st = some p') (ht : t.accept (.ret i v) = some t') :
    poolStep (t, p) (.inr (.exec i)) = some (t', p') := by
  refine together_inr.mpr ⟨?_, ?_⟩
  · simp only [Monitor.step, hi, hs]
  · simp [events, hi, between, nextCall, opOf, ht]

theorem poolStep_call {t t' : Threads} {p : Monitor.State RevPtr} {r : List (Stmt RevPtr)}
    {o : QueueOp RevPtr} (hi : p.threads[i]? = some ⟨[], none, .awake⟩) (ho : opOf r = some o)
    (ht : t.accept (.call i o) = some t') :
    poolStep (t, p) (.inr (.call i r)) = some (t', p.put i ⟨r, none, .awake⟩) := by
  refine together_inr.mpr ⟨?_, ?_⟩
  · simp only [Monitor.step, hi]
  · simp [events, nextCall, ho, ht]

theorem poolStep_notify {t : Threads} {p : Monitor.State RevPtr} {r : List (Stmt RevPtr)}
    {v : Option RevPtr} (hi : p.threads[i]? = some ⟨.notify :: r, v, .awake⟩)
    (hb : between r = false) (h0 : (p.put i ⟨r, v, .awake⟩).blocked = 0) :
    poolStep (t, p) (.inr (.notify i none)) = some (t, p.put i ⟨r, v, .awake⟩) := by
  refine together_inr.mpr ⟨?_, ?_⟩
  · simp only [Monitor.step, hi, State.wakeOne, if_pos h0]
  · simp only [events, hi, hb]
    rfl

theorem getElem?_put {p : Monitor.State RevPtr} (hi : i < p.threads.length) (u : Thread RevPtr) :
    (p.put i u).threads[i]? = some u :=
  List.getElem?_set_self hi

/-- Nobody sleeps when one thread is in the pool. -/
theorem blocked_put {p : Monitor.State RevPtr} (hr : ∀ u ∈ p.threads, u = ⟨[], none, .awake⟩)
    (r : List (Stmt RevPtr)) (v : Option RevPtr) : (p.put i ⟨r, v, .awake⟩).blocked = 0 := by
  refine (total_eq_zero_iff _).mpr fun u hu => ?_
  rcases List.mem_or_eq_of_mem_set hu with hu | rfl
  · rw [hr u hu]
    rfl
  · rfl

/-- The reactor runs `addQueue` from its call to its return. -/
theorem run_addQueue {t t' : Threads} {p : Monitor.State RevPtr} {rev : RevPtr}
    (hu : p.locked = false) (hr : ∀ u ∈ p.threads, u = ⟨[], none, .awake⟩)
    (hi : 0 < p.threads.length) (ht : t.accept (.call 0 (.put rev)) = some t') :
    ∃ as p', Run poolStep poolCalls (t, p) as ({ t' with adding := false }, p') ∧
      p'.queue = p.queue ++ [rev] ∧ p'.locked = false ∧ p'.threads = p.threads := by
  have hth : p.threads[0]? = some ⟨[], none, .awake⟩ := by
    rw [List.getElem?_eq_getElem hi, hr _ (List.getElem_mem hi)]
  obtain ⟨queue, locked, threads, pushed, taken, ran, underflow⟩ := p
  obtain rfl : locked = false := hu
  have hrun : ∃ p', Run poolStep free
      (t, ⟨queue, false, threads, pushed, taken, ran, underflow⟩)
      [.inr (.call 0 (WorkerPool.addQueue rev)), .inr (.exec 0), .inr (.exec 0),
        .inr (.notify 0 none), .inr (.exec 0)] ({ t' with adding := false }, p') ∧
      p'.queue = queue ++ [rev] ∧ p'.locked = false ∧
      p'.threads = threads.set 0 ⟨[], none, .awake⟩ := by
    refine ⟨_, .cons trivial (poolStep_call hth (o := .put rev) rfl ht)
      (.cons trivial (poolStep_exec (getElem?_put hi _) rfl rfl)
      (.cons trivial (poolStep_exec (getElem?_put ?_ _) rfl rfl)
      (.cons trivial (poolStep_notify (getElem?_put ?_ _) rfl ?_)
      (.cons trivial (poolStep_ret (getElem?_put ?_ _) rfl rfl) .nil)))), ?_⟩
    · simpa [State.put] using hi
    · simpa [State.put] using hi
    · have := blocked_put (i := 0) hr [.unlock] none
      simpa [State.blocked, State.put] using this
    · simpa [State.put] using hi
    · exact ⟨rfl, rfl, by simp [State.put]⟩
  obtain ⟨p', hp', hq, hl, hth'⟩ := hrun
  refine ⟨_, p', hp'.of_forall_mem ?_, hq, hl, hth'.trans (set_eq_self hth)⟩
  simp [poolCalls, within, calls, WorkerPool.Calls.addQueue]

/-- A worker runs `run_worker` from its lock to the call of the task. -/
theorem run_takeTask {t t₁ t' : Threads} {p : Monitor.State RevPtr} {rev : RevPtr}
    {rest : List RevPtr} {w : ℕ} (hq : p.queue = rev :: rest) (hu : p.locked = false)
    (hr : ∀ u ∈ p.threads, u = ⟨[], none, .awake⟩) (hi : w + 1 < p.threads.length)
    (h₁ : t.accept (.call (w + 1) .take) = some t₁)
    (ht : t₁.accept (.ret (w + 1) (some rev)) = some t') :
    ∃ as p', Run poolStep poolCalls (t, p) as (t', p') ∧
      p'.queue = rest ∧ p'.locked = false ∧ p'.threads = p.threads := by
  have hth : p.threads[w + 1]? = some ⟨[], none, .awake⟩ := by
    rw [List.getElem?_eq_getElem hi, hr _ (List.getElem_mem hi)]
  obtain ⟨queue, locked, threads, pushed, taken, ran, underflow⟩ := p
  obtain rfl : locked = false := hu
  obtain rfl : queue = rev :: rest := hq
  have hrun : ∃ p', Run poolStep free
      (t, ⟨rev :: rest, false, threads, pushed, taken, ran, underflow⟩)
      (.inr (.call (w + 1) WorkerPool.run_worker) :: List.replicate 6 (.inr (.exec (w + 1))))
      (t', p') ∧
      p'.queue = rest ∧ p'.locked = false ∧
      p'.threads = threads.set (w + 1) ⟨[], none, .awake⟩ := by
    refine ⟨_, .cons trivial (poolStep_call hth (o := .take) rfl h₁)
      (.cons trivial (poolStep_exec (getElem?_put hi _) rfl rfl)
      (.cons trivial (poolStep_exec (getElem?_put ?_ _) rfl rfl)
      (.cons trivial (poolStep_exec (getElem?_put ?_ _) rfl rfl)
      (.cons trivial (poolStep_exec (getElem?_put ?_ _) rfl rfl)
      (.cons trivial (poolStep_exec (getElem?_put ?_ _) rfl rfl)
      (.cons trivial (poolStep_ret (getElem?_put ?_ _) rfl ht) .nil)))))), ?_⟩
    · simpa [State.put] using hi
    · simpa [State.put] using hi
    · simpa [State.put] using hi
    · simpa [State.put] using hi
    · simpa [State.put] using hi
    · exact ⟨rfl, rfl, by simp [State.put]⟩
  obtain ⟨p', hp', hq', hl, hth'⟩ := hrun
  refine ⟨_, p', hp'.of_forall_mem ?_, hq', hl, hth'.trans (set_eq_self hth)⟩
  simp [poolCalls, within, calls, WorkerPool.Calls.run_worker]

/-! ### The steps -/

theorem Quiet.enqueue (h : Quiet x s) {rev : RevPtr} {evs : List Event} {r : ReactorEvent}
    (hr : s.reactor = .loop ((rev, true) :: evs)) (hh : s.heap rev = some r)
    (hc : r.callback = .data_handler_by_worker) :
    ∃ as x', Run poolStep poolCalls x as x' ∧
      Quiet x' { s with task_queue := s.task_queue ++ [rev], reactor := .loop evs } := by
  obtain ⟨t, p⟩ := x
  have hcall : t.accept (.call 0 (.put rev)) =
      some ⟨{ t.server with reactor := .loop evs }, true⟩ := by
    have hs := h.server
    have ha := h.adding
    simp only at hs ha
    simp [Threads.accept, ha, hs, State.withPool, step, reactorStep, hr, callback, hh, hc]
  obtain ⟨as, p', hrun, hq, hl, hth⟩ :=
    run_addQueue h.unlocked h.rest (Nat.zero_lt_of_lt h.threads) hcall
  refine ⟨as, _, hrun, rfl, hl, ?_, ?_, ?_, .inr ?_, fun hn => by cases hn⟩
  · intro u hu
    exact h.rest u (hth ▸ hu)
  · exact hth ▸ h.threads
  · have hs := h.server
    simp only at hs
    simp only [hs, State.withPool]
  · have hx : s.reactor ≠ .exited := by simp [hr]
    rw [hq, h.queue.resolve_left hx]

theorem Quiet.pop (h : Quiet x s) {w : ℕ} {rev : RevPtr} {rest : List RevPtr} {r : ReactorEvent}
    (hw : s.workers[w]? = some .idle) (hq : s.task_queue = rev :: rest)
    (hh : s.heap rev = some r) :
    ∃ as x', Run poolStep poolCalls x as x' ∧
      Quiet x' ({ s with task_queue := rest }.setWorker w (.run rev r.client_fd .recv)) := by
  obtain ⟨t, p⟩ := x
  have hx : s.reactor ≠ .exited := fun hx => by
    rw [(h.exited hx).1] at hq
    cases hq
  obtain ⟨hlt, -⟩ := List.getElem?_eq_some_iff.mp hw
  have hs : t.server = s.withPool [] s.workers := h.server
  have hcall : t.accept (.call (w + 1) .take) = some t := by
    simp [Threads.accept, hs, State.withPool, hw]
  have hret : t.accept (.ret (w + 1) (some rev)) =
      some { t with server := t.server.setWorker w (.run rev r.client_fd .recv) } := by
    simp [Threads.accept, hs, State.withPool, hw, hh]
  obtain ⟨as, p', hrun, hq', hl, hth⟩ := run_takeTask ((h.queue.resolve_left hx).trans hq)
    h.unlocked h.rest ((Nat.succ_lt_succ hlt).trans_le h.threads) hcall hret
  refine ⟨as, _, hrun, h.adding, hl, ?_, ?_, ?_, .inr hq', fun hn => absurd hn hx⟩
  · intro u hu
    exact h.rest u (hth ▸ hu)
  · have := h.threads
    simp only [State.setWorker, List.length_set]
    exact hth ▸ this
  · simp only [hs, State.withPool, State.setWorker]

theorem Quiet.alive (h : Quiet x s) {w : ℕ} {y : Worker} (hw : s.workers[w]? = some y) :
    s.reactor ≠ .exited := fun hx => by
  rw [(h.exited hx).2] at hw
  cases hw

theorem Quiet.own_client (h : Quiet x s)
    (ha : a = .connect ∨ (∃ c bytes, a = .clientSend c bytes) ∨ ∃ c, a = .clientClose c)
    (hs : step s a = some s') : ∃ as x', Run poolStep poolCalls x as x' ∧ Quiet x' s' := by
  obtain ⟨hf, hw, hr, hq⟩ := step_withPool_of_client (q := []) (l := s.workers) ha hs
  rw [← hw] at hf
  refine h.own (by rwa [← hw]) ?_ (by rw [hw]) fun hx => ?_
  · by_cases hx : s.reactor = .exited
    · exact .inl (hr.trans hx)
    · exact .inr ⟨hx, hq⟩
  · rw [hq, hw]
    exact h.exited (hr.symm.trans hx)

theorem Quiet.own_reactor (h : Quiet x s) (ha : ∀ u, step u a = reactorStep u a)
    (hs : step s a = some s')
    (hq : s' = s.exit ∨ s.reactor ≠ .exited ∧ s'.reactor ≠ .exited ∧
      s'.task_queue = s.task_queue) :
    ∃ as x', Run poolStep poolCalls x as x' ∧ Quiet x' s' := by
  rw [ha] at hs
  obtain ⟨hf, hw⟩ := reactorStep_withPool (q := []) (l := s.workers) hs
    (hq.imp (fun e => by rw [e]; rfl) fun e => e.2.2)
  rw [← ha] at hf
  rcases hq with rfl | ⟨hx, hx', hq⟩
  · exact h.own hf (.inl rfl) (Nat.zero_le _) fun _ => ⟨rfl, rfl⟩
  · rw [if_neg hx'] at hf hw
    rw [← hw] at hf
    exact h.own (by rwa [← hw]) (.inr ⟨hx, hq⟩) (by rw [hw]) fun hn => absurd hn hx'

theorem Quiet.own_worker (h : Quiet x s) (ha : ∀ u, step u a = workerStep u a)
    (hpop : ∀ w, a ≠ .pop w) (hs : step s a = some s') :
    ∃ as x', Run poolStep poolCalls x as x' ∧ Quiet x' s' := by
  rw [ha] at hs
  obtain ⟨w, y, hw, hr, -, hq, ⟨z, hz, -⟩, hf⟩ :=
    workerStep_withPool (q := []) (l := s.workers) hs hpop fun _ _ hv _ => hv
  have hx := h.alive hz
  rw [← ha, ← hw] at hf
  refine h.own hf (.inr ⟨hx, hq⟩) (by rw [hw, List.length_set]) fun hn => ?_
  exact absurd (hr.symm.trans hn) hx

/-- **The step lemma**: a step of `Server3.step` is the view of a run. -/
theorem Quiet.lift (h : Quiet x s) (hs : step s a = some s') :
    ∃ as x', Run poolStep poolCalls x as x' ∧ Quiet x' s' := by
  rcases step_cases hs with ha | ⟨hre, ha⟩ | ha
  · exact h.own_client ha hs
  · cases outcome_of_step hs with
    | exit => exact h.own_reactor ha hs (.inl rfl)
    | enqueue hr hh hc => exact h.enqueue hr hh hc
    | epollWait hr | batchEnd hr | skip hr | connection hr | accept hr | acceptAgain hr
    | ctlAdd hr => exact h.own_reactor ha hs (.inr ⟨by simp [hr], nofun, rfl⟩)
    | recvStop hw => exact h.own_reactor ha hs (.inr ⟨h.alive hw, h.alive hw, rfl⟩)
    | _ => cases hre
  · by_cases hpop : ∃ w, a = .pop w
    · obtain ⟨w, rfl⟩ := hpop
      simp only [step, workerStep] at hs
      split at hs
      · rename_i hw hq
        obtain ⟨r, hh, rfl⟩ := Option.map_eq_some_iff.mp hs
        exact h.pop hw hq hh
      · cases hs
    · exact h.own_worker ha (fun w e => hpop ⟨w, e⟩) hs

end Quiet

theorem quiet_init (n : ℕ) : Quiet (poolInit n) (init n) where
  adding := rfl
  unlocked := rfl
  rest u hu := List.eq_of_mem_replicate hu
  threads := by simp [init, poolInit, Monitor.init]
  server := rfl
  queue := .inr rfl
  exited := nofun

/-- **The queue adds nothing to the pool**: every run of `Server3.step` is the view of a run of the
server with the mutex and the condition variable of its pool. -/
theorem pool_complete {n : ℕ} {bs : List Act} {s : State} (h : Run step free (init n) bs s) :
    ∃ as x, Run poolStep poolCalls (poolInit n) as x ∧ x.1.view x.2 = s := by
  obtain ⟨as, x, hr, hx⟩ : ∃ as x, Run poolStep poolCalls (poolInit n) as x ∧ Quiet x s := by
    refine h.invariant (I := fun s => ∃ as x, Run poolStep poolCalls (poolInit n) as x ∧ Quiet x s)
      ⟨[], poolInit n, .nil, quiet_init n⟩ ?_
    rintro s a s' ⟨as, x, hr, hx⟩ - hs
    obtain ⟨as', x', hr', hx'⟩ := hx.lift hs
    exact ⟨as ++ as', x', hr.append hr', hx'⟩
  exact ⟨as, x, hr, hx.view⟩

/-- **The pool is the queue**: seen through `view`, server 3 with the statements of `addQueue` and
`run_worker` reaches exactly the states of `Server3.step`. -/
theorem pool_reaches_iff {n : ℕ} {s : State} :
    (∃ as x, Run poolStep poolCalls (poolInit n) as x ∧ x.1.view x.2 = s) ↔
      ∃ bs, Run step free (init n) bs s := by
  constructor
  · rintro ⟨as, x, h, rfl⟩
    exact pool_refines h
  · rintro ⟨bs, h⟩
    exact pool_complete h

/-! ## Unread bytes -/

/-- `data_handler(rev)` is on its way: the reactor has the event or is about to push the task, or
the task is in the queue and, if a worker sleeps, enough of the others are on their way to the
queue, or a worker has taken the task out or is in `data_handler`. -/
inductive OnItsWay (x : Threads × Monitor.State RevPtr) (rev : RevPtr) (fd : Fd) : Prop
  | batch : (rev, true) ∈ x.1.server.reactor.batch → OnItsWay x rev fd
  | pushed {u} : x.2.threads[0]? = some u → rev ∈ pushing u.rest → OnItsWay x rev fd
  | queued : rev ∈ x.2.queue →
      x.2.blocked = 0 ∨ x.2.queue.length ≤ x.2.coming + (x.2.taking + x.2.owing) →
      OnItsWay x rev fd
  | taken {w : ℕ} {u} : x.2.threads[w + 1]? = some u → rev ∈ u.hand → OnItsWay x rev fd
  | handled {pt} : .run rev fd pt ∈ x.1.server.workers → OnItsWay x rev fd

theorem onItsWay_of_served {x : Threads × Monitor.State RevPtr} {rev : RevPtr} {fd : Fd}
    (hI : Monitor.Inv (fun _ => false) false x.2) (h : Served (x.1.view x.2) rev fd) :
    OnItsWay x rev fd := by
  rcases h with h | h | ⟨pt, h⟩
  · exact .batch h
  · simp only [Threads.view, viewOf] at h
    split at h
    · cases h
    · rcases List.mem_append.mp h with h | h
      · have hc := hI.covered
        exact .queued h (by omega)
      · cases hu : x.2.threads[0]? with
        | none =>
          rw [hu] at h
          cases h
        | some u =>
          rw [hu] at h
          exact .pushed hu h
  · simp only [Threads.view, viewOf] at h
    obtain ⟨w, hw⟩ := List.mem_iff_getElem?.mp h
    rw [List.getElem?_mapIdx, Option.map_eq_some_iff] at hw
    obtain ⟨y, hy, hrun⟩ := hw
    cases y with
    | run rev' fd' pt' =>
      cases hrun
      exact .handled (List.mem_of_getElem? hy)
    | idle =>
      cases hu : x.2.threads[w + 1]? with
      | none =>
        rw [hu] at hrun
        cases hrun
      | some u =>
        rw [hu] at hrun
        simp only [Option.elim_some, withTask] at hrun
        split at hrun
        · rename_i rev' l hl
          cases hrun
          exact .taken hu (by rw [hl]; exact List.mem_cons_self)
        · cases hrun

/-- **No stalled descriptor, and no lost wakeup**: while a registered connection has unread bytes,
an edge is to come or its `data_handler` is on its way through the pool. -/
theorem unread_onItsWay {n : ℕ} {as : List (Act ⊕ Monitor.Act RevPtr)}
    {x : Threads × Monitor.State RevPtr} (h : Run poolStep poolCalls (poolInit n) as x) {fd : Fd}
    {rev : RevPtr} {c : Conn} (hf : x.1.server.kernel.files fd = some (.sock c))
    (hr : x.1.server.kernel.reg fd = some rev) (hne : x.1.server.kernel.inbox c ≠ []) :
    x.1.server.kernel.edge fd = true ∨ OnItsWay x rev fd := by
  have hI : Monitor.Inv (fun _ => false) false x.2 := by
    obtain ⟨bs, hb⟩ := h.component
    exact Monitor.inv_of_run (fun p hp => WorkerPool.calls_fit hp) hb
  obtain ⟨bs, hb⟩ := pool_refines h
  have hN : Inv (x.1.view x.2) ∧ NoStall (x.1.view x.2) :=
    hb.invariant (I := fun s => Inv s ∧ NoStall s) ⟨init_inv n, init_noStall n⟩
      fun _ _ _ hi _ hs => ⟨inv_step hi.1 hs, noStall_step hi.1 hi.2 hs⟩
  rcases hN.2.sock hf hr hne with he | hs
  · exact .inl he
  · exact .inr (onItsWay_of_served hI hs)

/-- A client connects and sends; the worker sleeps, is woken by `addQueue` and takes the task. -/
def servedRun : List (Act ⊕ Monitor.Act RevPtr) :=
  [.inr (.call 1 WorkerPool.run_worker), .inr (.exec 1), .inr (.exec 1), .inl .connect,
    .inl (.epollWait [4]), .inl .dispatch, .inl (.accept 5), .inl .ctlAdd, .inl .acceptAgain,
    .inl .dispatch, .inl (.clientSend 0 [7]), .inl (.epollWait [5]),
    .inr (.call 0 (WorkerPool.addQueue (.data 0))), .inr (.exec 0), .inr (.exec 0),
    .inr (.notify 0 (some 1)), .inr (.exec 0), .inr (.relock 1), .inr (.exec 1), .inr (.exec 1),
    .inr (.exec 1), .inr (.exec 1), .inr (.exec 1)]

theorem servedRun_calls : ∀ a ∈ servedRun, ∀ x, poolCalls x a := by
  simp [servedRun, poolCalls, within, calls, WorkerPool.Calls.addQueue, WorkerPool.Calls.run_worker]

/-- The task is in the queue, and the woken worker is on its way. -/
theorem unread_onItsWay_woken : ∃ x : Threads × Monitor.State RevPtr,
    x.1.server.kernel.inbox 0 = [7] ∧ x.2.queue = [.data 0] ∧
      (x.1.server.kernel.edge 5 = true ∨ OnItsWay x (.data 0) 5) := by
  obtain ⟨x, hr, hx⟩ : ∃ x, Run poolStep free (poolInit 1) (servedRun.take 16) x ∧
      (x.1.server.kernel.files 5 = some (.sock 0) ∧ x.1.server.kernel.reg 5 = some (.data 0) ∧
        x.1.server.kernel.inbox 0 = [7] ∧ x.2.queue = [.data 0]) :=
    Run.exists_of_exec _ _ (by decide)
  have hr' : Run poolStep poolCalls (poolInit 1) (servedRun.take 16) x :=
    hr.of_forall_mem fun a ha => servedRun_calls a (List.mem_of_mem_take ha)
  exact ⟨x, hx.2.2.1, hx.2.2.2,
    unread_onItsWay hr' hx.1 hx.2.1 (by rw [hx.2.2.1]; nofun)⟩

end PracticeCode.Server3
