import PracticeCode.Server3.Pool

/-!
# The pool of server 3 refines its queue

`Shape` says which threads are in the pool, seen as one object with its clients.  A step of the
threads or of the object keeps it, and moves the view as a step of `Server3.step`, or not at all
(`Shape.own`, `Shape.keeps`).  With the pool simulated by the object this is `pool_refines`.
-/

namespace PracticeCode.Server3

open Lib Lib.Monitor Linux

/-! ## The workers under the view -/

section Workers

variable {heap heap' : RevPtr → Option ReactorEvent} {hand hand' : ℕ → List RevPtr}
  {l : List Worker} {w : ℕ} {x y z : Worker}

theorem withTask_of_ne (hx : x ≠ .idle) (h : List RevPtr) : withTask heap h x = x := by
  cases x with
  | idle => exact absurd rfl hx
  | run => rfl

@[simp] theorem withTask_nil : withTask heap [] x = x := by cases x <;> rfl

theorem mapIdx_withTask_congr
    (h : ∀ w x, l[w]? = some x → withTask heap' (hand' w) x = withTask heap (hand w) x) :
    (l.mapIdx fun w => withTask heap' (hand' w)) = l.mapIdx fun w => withTask heap (hand w) := by
  refine List.ext_getElem? fun w => ?_
  rw [List.getElem?_mapIdx, List.getElem?_mapIdx]
  cases hx : l[w]? with
  | none => rfl
  | some x => exact congrArg some (h w x hx)

/-- Worker `w` goes on, or what it has in hand changes. -/
theorem mapIdx_withTask_set (hl : l[w]? = some z) (hy : withTask heap (hand' w) x = y)
    (hne : ∀ v, v ≠ w → hand' v = hand v) :
    ((l.set w x).mapIdx fun w => withTask heap (hand' w)) =
      (l.mapIdx fun w => withTask heap (hand w)).set w y := by
  obtain ⟨hlt, -⟩ := List.getElem?_eq_some_iff.mp hl
  refine List.ext_getElem? fun v => ?_
  rw [List.getElem?_mapIdx, List.getElem?_set, List.getElem?_set, List.length_mapIdx,
    List.getElem?_mapIdx]
  by_cases e : w = v
  · subst e
    simp [hlt, hy]
  · simp [e, hne v (Ne.symm e)]

end Workers

/-! ## The simulation -/

/-- Which threads are in the pool. -/
structure Shape (t : Threads) (q : Atomic (List RevPtr) (QueueOp RevPtr) (Option RevPtr)) :
    Prop where
  empty : t.server.task_queue = []
  reactor : t.adding = false → q.client 0 = .idle
  puts : ∀ o, q.client 0 = .asked o → ∃ rev, o = .put rev
  takes : ∀ w o, q.client (w + 1) = .asked o → o = .take
  /-- A worker in `run_worker` is not in `data_handler`. -/
  inPool : ∀ w, q.client (w + 1) ≠ .idle → t.server.reactor ≠ .exited →
    t.server.workers[w]? = some .idle
  exited : t.server.reactor = .exited → t.server.workers = []

theorem step_cases {s s' : State} {a : Act} (h : step s a = some s') :
    (a = .connect ∨ (∃ c bytes, a = .clientSend c bytes) ∨ ∃ c, a = .clientClose c) ∨
      (a.ofReactor = true ∧ ∀ u, step u a = reactorStep u a) ∨
        ∀ u, step u a = workerStep u a := by
  cases a <;> simp [Act.ofReactor, step]

section Simulation

variable {t t' : Threads} {q q' : Atomic (List RevPtr) (QueueOp RevPtr) (Option RevPtr)}

/-- The view keeps up with a step. -/
def Keeps (t t' : Threads) (q q' : Atomic (List RevPtr) (QueueOp RevPtr) (Option RevPtr)) : Prop :=
  Shape t' q' ∧ (t'.viewAtomic q' = t.viewAtomic q ∨
    ∃ a, step (t.viewAtomic q) a = some (t'.viewAtomic q'))

/-- A task in hand is bound, and stays bound. -/
theorem withTask_of_step (hi : Inv (t.viewAtomic q)) {s' : State} {a : Act} {v : State}
    (hs : step (t.viewAtomic q) a = some v) (hv : v.heap = s'.heap) (w : ℕ) (x : Worker)
    (hw : t.server.workers[w]? = some x) :
    withTask s'.heap (getting (q.client (w + 1))) x =
      withTask t.server.heap (getting (q.client (w + 1))) x := by
  cases x with
  | run => rfl
  | idle =>
    cases hg : getting (q.client (w + 1)) with
    | nil => rfl
    | cons rev rest =>
      have hm : (t.viewAtomic q).workers[w]? =
          some (.run rev ((t.server.heap rev).elim 0 ReactorEvent.client_fd) .recv) := by
        simp only [Threads.viewAtomic, viewOf, List.getElem?_mapIdx, hw, Option.map_some, hg,
          withTask]
      obtain ⟨c, r, rfl, hr, -⟩ := hi.workers (List.mem_of_getElem? hm)
      have hr' : s'.heap (.data c) = some r := hv ▸ heap_of_step hi hs hr
      have hr0 : t.server.heap (.data c) = some r := hr
      simp only [withTask, hr', hr0]

/-- A step outside the pool, before the end of the process. -/
theorem viewAtomic_of_alive (hr : t.server.reactor ≠ .exited) :
    t.viewAtomic q = t.server.withPool (q.obj ++ putting (q.client 0))
      (t.server.workers.mapIdx fun w => withTask t.server.heap (getting (q.client (w + 1)))) := by
  simp only [Threads.viewAtomic, viewOf, State.withPool, if_neg hr]

theorem viewAtomic_of_exited (h : Shape t q) (hr : t.server.reactor = .exited) :
    t.viewAtomic q = t.server := by
  have hw := h.exited hr
  have he := h.empty
  obtain ⟨⟨_, _, _, _, _, _⟩, _⟩ := t
  simp only at hr hw he
  simp [Threads.viewAtomic, viewOf, hr, hw, he]

theorem Shape.withServer (h : Shape t q) {s' : State} (hq : s'.task_queue = [])
    (hr : s'.reactor ≠ .exited → t.server.reactor ≠ .exited)
    (hw : ∀ w : ℕ, s'.reactor ≠ .exited → q.client (w + 1) ≠ .idle →
      t.server.workers[w]? = some .idle → s'.workers[w]? = some .idle)
    (hx : s'.reactor = .exited → s'.workers = []) : Shape { t with server := s' } q where
  empty := hq
  reactor := h.reactor
  puts := h.puts
  takes := h.takes
  inPool w hc ha := hw w ha hc (h.inPool w hc (hr ha))
  exited := hx

/-- After the end of the process only the clients go on. -/
theorem Shape.step_of_exited (h : Shape t q) (hx : t.server.reactor = .exited) {s' : State}
    {a : Act} (hs : step t.server a = some s') : s'.reactor = .exited ∧ s'.workers = [] := by
  rcases step_cases hs with ha | ⟨-, ha⟩ | ha
  · obtain ⟨-, hw, hr, -⟩ := step_withPool_of_client (q := []) (l := []) ha hs
    exact ⟨hr.trans hx, hw.trans (h.exited hx)⟩
  · rw [ha] at hs
    cases a <;> simp [reactorStep, hx] at hs
  · rw [ha] at hs
    cases a <;> simp [workerStep, h.exited hx] at hs

section Own

variable {s' : State} {a : Act}

/-- What the threads have in the pool, as the view shows it. -/
def Threads.tasks (t : Threads) (q : Atomic (List RevPtr) (QueueOp RevPtr) (Option RevPtr)) :
    List Worker :=
  t.server.workers.mapIdx fun w => withTask t.server.heap (getting (q.client (w + 1)))

theorem Shape.own_client (h : Shape t q) (hi : Inv (t.viewAtomic q))
    (hx : t.server.reactor ≠ .exited)
    (ha : a = .connect ∨ (∃ c bytes, a = .clientSend c bytes) ∨ ∃ c, a = .clientClose c)
    (hs : step t.server a = some s') (hq' : s'.task_queue = []) :
    Keeps t { t with server := s' } q q := by
  obtain ⟨hf, hw, hr, -⟩ :=
    step_withPool_of_client (q := q.obj ++ putting (q.client 0)) (l := t.tasks q) ha hs
  have hx' : s'.reactor ≠ .exited := by rwa [hr]
  have hsh : Shape { t with server := s' } q := by
    refine h.withServer hq' (fun _ => hx) (fun w _ _ hi => ?_) fun hn => absurd hn hx'
    rwa [hw]
  rw [Threads.tasks, ← viewAtomic_of_alive hx] at hf
  refine ⟨hsh, .inr ⟨a, hf.trans (congrArg some ?_)⟩⟩
  rw [viewAtomic_of_alive hx', hw]
  exact congrArg _ (mapIdx_withTask_congr (withTask_of_step hi hf rfl)).symm

theorem Shape.own_reactor (h : Shape t q) (hi : Inv (t.viewAtomic q))
    (hx : t.server.reactor ≠ .exited) (ha : ∀ u, step u a = reactorStep u a)
    (hs : step t.server a = some s') (hq' : s'.task_queue = []) :
    Keeps t { t with server := s' } q q := by
  rw [ha] at hs
  obtain ⟨hf, hw⟩ :=
    reactorStep_withPool (q := q.obj ++ putting (q.client 0)) (l := t.tasks q) hs
      (.inr (hq'.trans h.empty.symm))
  rw [← ha, Threads.tasks, ← viewAtomic_of_alive hx] at hf
  by_cases hx' : s'.reactor = .exited
  · rw [if_pos hx'] at hf hw
    have hsh : Shape { t with server := s' } q :=
      h.withServer hq' (fun hn => absurd hx' hn) (fun w hn => absurd hx' hn) fun _ => hw
    refine ⟨hsh, .inr ⟨a, ?_⟩⟩
    rw [viewAtomic_of_exited hsh hx']
    exact hf
  · rw [if_neg hx'] at hf hw
    have hsh : Shape { t with server := s' } q := by
      refine h.withServer hq' (fun _ => hx) (fun w _ _ hi => ?_) fun hn => absurd hn hx'
      rwa [hw]
    refine ⟨hsh, .inr ⟨a, hf.trans (congrArg some ?_)⟩⟩
    rw [viewAtomic_of_alive hx', hw]
    exact congrArg _ (mapIdx_withTask_congr (withTask_of_step hi hf rfl)).symm

theorem Shape.own_worker (h : Shape t q) (hx : t.server.reactor ≠ .exited)
    (ha : ∀ u, step u a = workerStep u a) (hs : step t.server a = some s')
    (hq' : s'.task_queue = []) : Keeps t { t with server := s' } q q := by
  rw [ha] at hs
  have hpop : ∀ w, a ≠ .pop w := by
    rintro w rfl
    simp [workerStep, h.empty] at hs
  obtain ⟨w, x, hw, hr, hh, -, ⟨y, hy, hne⟩, hf⟩ := workerStep_withPool
    (q := q.obj ++ putting (q.client 0)) (l := t.tasks q) hs hpop fun v z hv hz => by
      rw [Threads.tasks, List.getElem?_mapIdx, hv, Option.map_some, withTask_of_ne hz]
  have hx' : s'.reactor ≠ .exited := by rwa [hr]
  -- a worker that is in `data_handler` is not in the pool
  have hidle : q.client (w + 1) = .idle := by
    by_contra hc
    rw [h.inPool w hc hx] at hy
    exact hne (Option.some.inj hy).symm
  have hsh : Shape { t with server := s' } q := by
    refine h.withServer hq' (fun _ => hx) (fun v _ hc hv => ?_) fun hn => absurd hn hx'
    have hvw : w ≠ v := by
      rintro rfl
      exact hc hidle
    rwa [hw, List.getElem?_set_ne hvw]
  rw [← ha, Threads.tasks, ← viewAtomic_of_alive hx] at hf
  refine ⟨hsh, .inr ⟨a, hf.trans (congrArg some ?_)⟩⟩
  rw [viewAtomic_of_alive hx', hw, hh]
  refine congrArg _ (mapIdx_withTask_set hy ?_ fun _ _ => rfl).symm
  rw [hidle]
  exact withTask_nil

/-- A step of the threads outside the pool. -/
theorem Shape.own (h : Shape t q) (hi : Inv (t.viewAtomic q)) (hs : t.own a = some t') :
    Keeps t t' q q := by
  simp only [Threads.own, Option.ite_none_left_eq_some, Option.bind_eq_some_iff,
    Option.ite_none_right_eq_some, Option.some.injEq] at hs
  obtain ⟨-, s', hst, hq', rfl⟩ := hs
  by_cases hx : t.server.reactor = .exited
  · obtain ⟨hx', hw'⟩ := h.step_of_exited hx hst
    have hsh : Shape { t with server := s' } q :=
      h.withServer hq' (fun hn => absurd hx' hn) (fun w hn => absurd hx' hn) fun _ => hw'
    refine ⟨hsh, .inr ⟨a, ?_⟩⟩
    rw [viewAtomic_of_exited h hx, viewAtomic_of_exited hsh hx']
    exact hst
  · rcases step_cases hst with ha | ha | ha
    · exact h.own_client hi hx ha hst hq'
    · exact h.own_reactor hi hx ha.2 hst hq'
    · exact h.own_worker hx ha hst hq'

end Own

section Pool

variable {rev : RevPtr} {w : ℕ}

/-- The reactor calls `addQueue`: the view has the task in the queue from now on. -/
theorem Shape.call_put (h : Shape t q) (hc : q.client 0 = .idle)
    (hs : t.accept (.call 0 (.put rev)) = some t') :
    Keeps t t' q (q.put q.obj 0 (.asked (.put rev))) := by
  simp only [Threads.accept, Option.ite_none_left_eq_some, Option.bind_eq_some_iff,
    Option.ite_none_right_eq_some, Option.some.injEq] at hs
  obtain ⟨-, s', hst, hq, rfl⟩ := hs
  have he := h.empty
  cases outcome_of_step hst with
  | @enqueue rev' evs r hr hh hcb =>
    obtain rfl : rev' = rev := by simpa [he] using hq
    have hx : t.server.reactor ≠ .exited := by simp [hr]
    refine ⟨⟨rfl, nofun, ?_, ?_, ?_, nofun⟩, .inr ⟨.dispatch, ?_⟩⟩
    · intro o ho
      rw [Atomic.put_client, if_pos rfl, Client.asked.injEq] at ho
      exact ⟨rev', ho.symm⟩
    · intro v o ho
      rw [Atomic.put_client, if_neg (Nat.succ_ne_zero v)] at ho
      exact h.takes v o ho
    · intro v hv _
      rw [Atomic.put_client, if_neg (Nat.succ_ne_zero v)] at hv
      exact h.inPool v hv hx
    · simp [Threads.viewAtomic, viewOf, step, reactorStep, callback, hr, hh, hcb, hc, putting,
        Atomic.put]
  | exit => simp [State.exit] at hq
  | _ => simp [State.record, State.setWorker, he] at hq

theorem Shape.commit_put (h : Shape t q) (hc : q.client 0 = .asked (.put rev)) :
    Keeps t t q (q.put (q.obj ++ [rev]) 0 (.done none)) := by
  refine ⟨⟨h.empty, ?_, ?_, ?_, ?_, h.exited⟩, .inl ?_⟩
  · intro ha
    rw [h.reactor ha] at hc
    cases hc
  · intro o ho
    rw [Atomic.put_client, if_pos rfl] at ho
    cases ho
  · intro v o ho
    rw [Atomic.put_client, if_neg (Nat.succ_ne_zero v)] at ho
    exact h.takes v o ho
  · intro v hv
    rw [Atomic.put_client, if_neg (Nat.succ_ne_zero v)] at hv
    exact h.inPool v hv
  · simp [Threads.viewAtomic, hc, putting, Atomic.put]

theorem Shape.ret_put (h : Shape t q) (hc : q.client 0 = .done none)
    (hs : t.accept (.ret 0 none) = some t') : Keeps t t' q (q.put q.obj 0 .idle) := by
  obtain rfl := Option.some.inj hs
  refine ⟨⟨h.empty, ?_, ?_, ?_, ?_, h.exited⟩, .inl ?_⟩
  · intro _
    rw [Atomic.put_client, if_pos rfl]
  · intro o ho
    rw [Atomic.put_client, if_pos rfl] at ho
    cases ho
  · intro v o ho
    rw [Atomic.put_client, if_neg (Nat.succ_ne_zero v)] at ho
    exact h.takes v o ho
  · intro v hv
    rw [Atomic.put_client, if_neg (Nat.succ_ne_zero v)] at hv
    exact h.inPool v hv
  · simp [Threads.viewAtomic, hc, putting, Atomic.put]

/-- Worker `w` goes on in the pool and is still out of `data_handler`. -/
theorem Shape.withWorker (h : Shape t q) {obj : List RevPtr}
    {c : Client (QueueOp RevPtr) (Option RevPtr)} (hc : ∀ o, c = .asked o → o = .take)
    (hw : t.server.reactor ≠ .exited → t.server.workers[w]? = some .idle) :
    Shape t (q.put obj (w + 1) c) := by
  refine ⟨h.empty, ?_, ?_, ?_, ?_, h.exited⟩
  · intro ha
    rw [Atomic.put_client, if_neg (Nat.succ_ne_zero w).symm]
    exact h.reactor ha
  · intro o ho
    rw [Atomic.put_client, if_neg (Nat.succ_ne_zero w).symm] at ho
    exact h.puts o ho
  · intro v o ho
    rw [Atomic.put_client] at ho
    split at ho
    · exact hc o ho
    · exact h.takes v o ho
  · intro v hv hx
    rw [Atomic.put_client] at hv
    split at hv
    · rename_i e
      obtain rfl := Nat.succ.inj e
      exact hw hx
    · exact h.inPool v hv hx

/-- What the other workers have in hand. -/
theorem getting_put_of_ne {obj : List RevPtr} {c : Client (QueueOp RevPtr) (Option RevPtr)} {v : ℕ}
    (hv : v ≠ w) : getting ((q.put obj (w + 1) c).client (v + 1)) = getting (q.client (v + 1)) := by
  rw [Atomic.put_client, if_neg (by omega)]

theorem Shape.call_take (h : Shape t q) (hc : q.client (w + 1) = .idle)
    (hs : t.accept (.call (w + 1) .take) = some t') :
    Keeps t t' q (q.put q.obj (w + 1) (.asked .take)) := by
  simp only [Threads.accept, Option.ite_none_right_eq_some, Option.some.injEq] at hs
  obtain ⟨hw, rfl⟩ := hs
  refine ⟨h.withWorker (fun o ho => (Client.asked.inj ho).symm) fun _ => hw, .inl ?_⟩
  have hg : (fun v => getting ((q.put q.obj (w + 1) (.asked .take)).client (v + 1))) =
      fun v => getting (q.client (v + 1)) := by
    funext v
    by_cases e : v = w
    · subst e
      rw [Atomic.put_client, if_pos rfl, hc]
      rfl
    · exact getting_put_of_ne e
  rw [Threads.viewAtomic, hg, Atomic.put_client, if_neg (Nat.succ_ne_zero w).symm]
  rfl

/-- Worker `w` takes a task out of the queue: the view has the worker run it from now on. -/
theorem Shape.commit_take (h : Shape t q) (hi : Inv (t.viewAtomic q)) {rest : List RevPtr}
    (hc : q.client (w + 1) = .asked .take) (hq : q.obj = rev :: rest) :
    Keeps t t q (q.put rest (w + 1) (.done (some rev))) := by
  have hsh : Shape t (q.put rest (w + 1) (.done (some rev))) :=
    h.withWorker nofun (h.inPool w (by rw [hc]; nofun))
  refine ⟨hsh, ?_⟩
  by_cases hx : t.server.reactor = .exited
  · left
    rw [viewAtomic_of_exited h hx, viewAtomic_of_exited hsh hx]
  · right
    have hw := h.inPool w (by rw [hc]; nofun) hx
    have hmem : rev ∈ (t.viewAtomic q).task_queue := by
      simp [viewAtomic_of_alive hx, State.withPool, hq]
    obtain ⟨fd, c, r, rfl, hr, rfl⟩ := hi.queue hmem
    replace hr : t.server.heap (.data c) = some r := hr
    have hidle : (t.tasks q)[w]? = some .idle := by
      rw [Threads.tasks, List.getElem?_mapIdx, hw, Option.map_some, hc]
      rfl
    refine ⟨.pop w, ?_⟩
    have hset : ((t.server.workers.set w .idle).mapIdx fun v => withTask t.server.heap
          (getting ((q.put rest (w + 1) (.done (some (.data c)))).client (v + 1)))) =
        (t.server.workers.mapIdx fun v => withTask t.server.heap (getting (q.client (v + 1)))).set w
          (.run (.data c) r.client_fd .recv) :=
      mapIdx_withTask_set hw (by rw [Atomic.put_client, if_pos rfl]; simp [getting, withTask, hr])
        fun v hv => getting_put_of_ne hv
    rw [set_eq_self hw] at hset
    rw [viewAtomic_of_alive hx, viewAtomic_of_alive hx, hset, Atomic.put_client,
      if_neg (Nat.succ_ne_zero w).symm]
    rw [Threads.tasks] at hidle
    simp [step, workerStep, State.withPool, State.setWorker, hidle, hq, hr, Atomic.put]

/-- `task()`: the worker runs what it had in hand. -/
theorem Shape.ret_take (h : Shape t q) (hc : q.client (w + 1) = .done (some rev))
    (hs : t.accept (.ret (w + 1) (some rev)) = some t') :
    Keeps t t' q (q.put q.obj (w + 1) .idle) := by
  simp only [Threads.accept, Option.ite_none_right_eq_some, Option.map_eq_some_iff] at hs
  obtain ⟨hw, r, hr, rfl⟩ := hs
  have hx : t.server.reactor ≠ .exited := fun hx => by
    rw [h.exited hx] at hw
    cases hw
  have hne : (Atomic.put q q.obj (w + 1) .idle).client 0 = q.client 0 := by
    rw [Atomic.put_client, if_neg (Nat.succ_ne_zero w).symm]
  refine ⟨⟨h.empty, ?_, ?_, ?_, ?_, fun hn => absurd hn hx⟩, .inl ?_⟩
  · intro ha
    rw [hne]
    exact h.reactor ha
  · intro o ho
    rw [hne] at ho
    exact h.puts o ho
  · intro v o ho
    rw [Atomic.put_client] at ho
    split at ho
    · cases ho
    · exact h.takes v o ho
  · intro v hv _
    rw [Atomic.put_client] at hv
    split at hv
    · exact absurd rfl hv
    · rename_i e
      have hvw : w ≠ v := by omega
      simp only [State.setWorker, List.getElem?_set_ne hvw]
      exact h.inPool v hv hx
  · have hx' : ({ t with server := t.server.setWorker w (.run rev r.client_fd .recv) } :
        Threads).server.reactor ≠ .exited := hx
    have hset : ((t.server.workers.set w (.run rev r.client_fd .recv)).mapIdx fun v =>
          withTask t.server.heap (getting ((q.put q.obj (w + 1) .idle).client (v + 1)))) =
        (t.server.workers.mapIdx fun v => withTask t.server.heap (getting (q.client (v + 1)))).set w
          (.run rev r.client_fd .recv) :=
      mapIdx_withTask_set hw rfl fun v hv => getting_put_of_ne hv
    have hself : (t.tasks q)[w]? = some (.run rev r.client_fd .recv) := by
      rw [Threads.tasks, List.getElem?_mapIdx, hw, Option.map_some, hc]
      simp [getting, withTask, hr]
    rw [viewAtomic_of_alive hx', viewAtomic_of_alive hx, hne]
    simp only [State.setWorker, State.withPool]
    rw [hset, ← Threads.tasks, set_eq_self hself]
    rfl

end Pool

/-- **The step lemma** for the pool as one object. -/
theorem Shape.keeps (h : Shape t q) (hi : Inv (t.viewAtomic q)) {b : Atomic.Act (QueueOp RevPtr)}
    (hst : Atomic.step fifo q b = some q')
    (hacc : (Atomic.events q b).foldlM Threads.accept t = some t') : Keeps t t' q q' := by
  cases b with
  | call i o =>
    simp only [Atomic.step] at hst
    split at hst
    · rename_i hc
      obtain rfl := Option.some.inj hst
      have hacc : t.accept (.call i o) = some t' := by simpa [Atomic.events] using hacc
      cases i with
      | zero =>
        cases o with
        | put rev => exact h.call_put hc hacc
        | _ => cases hacc
      | succ w =>
        cases o with
        | take => exact h.call_take hc hacc
        | _ => cases hacc
    · cases hst
  | commit i =>
    simp only [Atomic.step] at hst
    split at hst
    · rename_i o hc
      obtain ⟨y, hy, rfl⟩ := Option.map_eq_some_iff.mp hst
      obtain rfl : t = t' := Option.some.inj hacc
      cases i with
      | zero =>
        obtain ⟨rev, rfl⟩ := h.puts o hc
        rw [fifo, Option.some.injEq] at hy
        subst hy
        exact h.commit_put hc
      | succ w =>
        obtain rfl := h.takes w o hc
        cases hq : q.obj with
        | nil => simp [hq, fifo] at hy
        | cons rev rest =>
          rw [hq, fifo, Option.some.injEq] at hy
          subst hy
          exact h.commit_take hi hc hq
    · cases hst
  | ret i =>
    simp only [Atomic.step] at hst
    split at hst
    · rename_i v hc
      obtain rfl := Option.some.inj hst
      have hacc : t.accept (.ret i v) = some t' := by simpa [Atomic.events, hc] using hacc
      cases i with
      | zero =>
        cases v with
        | none => exact h.ret_put hc hacc
        | some _ => cases hacc
      | succ w =>
        cases v with
        | none => cases hacc
        | some rev => exact h.ret_take hc hacc
    · cases hst

end Simulation

/-- At the start nobody is in the pool. -/
theorem shape_init (n : ℕ) : Shape ⟨init n, false⟩ (Atomic.init []) where
  empty := rfl
  reactor _ := rfl
  puts _ := nofun
  takes _ _ := nofun
  inPool _ h := absurd rfl h
  exited := nofun

theorem viewAtomic_init (n : ℕ) :
    Threads.viewAtomic ⟨init n, false⟩ (Atomic.init []) = init n := by
  simp only [Threads.viewAtomic, viewOf, init, Atomic.init]
  congr 1
  refine List.ext_getElem? fun w => ?_
  rw [List.getElem?_mapIdx]
  cases (List.replicate n Worker.idle)[w]? <;> simp [getting]

/-- The two views agree. -/
theorem view_eq {t : Threads} {p : Monitor.State RevPtr}
    {q : Atomic (List RevPtr) (QueueOp RevPtr) (Option RevPtr)} {null : RevPtr → Bool}
    (h : Simulated null false (p, []) (q, [])) : t.view p = t.viewAtomic q := by
  have hput : (p.threads[0]?.elim [] fun u => pushing u.rest) = putting (q.client 0) := by
    cases hu : p.threads[0]? with
    | none => rw [h.staged.absent 0 hu]; rfl
    | some u => exact (h.staged.stage 0 u hu).pushing
  have hget : (fun w => p.threads[w + 1]?.elim [] Thread.hand) =
      fun w => getting (q.client (w + 1)) := by
    funext w
    cases hu : p.threads[w + 1]? with
    | none => rw [h.staged.absent _ hu]; rfl
    | some u => exact (h.staged.stage _ u hu).hand u.status
  have hobj : q.obj = p.queue := h.obj
  rw [Threads.view, Threads.viewAtomic, hput, hget, hobj]

/-- **The pool refines the queue.**  Seen through `view`, a run of server 3 with the mutex, the
condition variable, the sleeping workers and the spurious wakeups of its pool is a run of
`Server3.step`, where a task is put and taken in one step. -/
theorem pool_refines {n : ℕ} {as : List (Act ⊕ Monitor.Act RevPtr)}
    {x : Threads × Monitor.State RevPtr} (h : Run poolStep poolCalls (poolInit n) as x) :
    ∃ bs, Run step free (init n) bs (x.1.view x.2) := by
  -- the pool is an atomic object
  obtain ⟨bs, q, hq, hsim⟩ := h.together_simulate (fun p q => Simulated _ false (p, []) (q, []))
    (simulated_init _ false (n + 1)) fun s a s' q hR hg hs =>
      emits_of_step (fun _ hr => WorkerPool.calls_ops hr) hR hg hs
  -- and its user is the server
  obtain ⟨cs, v, hv, -, -, rfl⟩ : ∃ cs v, Run step free (init n) cs v ∧
      Shape x.1 q ∧ Inv v ∧ v = x.1.viewAtomic q := by
    refine hq.simulate (fun y v => Shape y.1 y.2 ∧ Inv v ∧ v = y.1.viewAtomic y.2)
      ⟨shape_init n, init_inv n, (viewAtomic_init n).symm⟩ fun y b y' v hR _ hs => ?_
    obtain ⟨hsh, hi, rfl⟩ := hR
    have hk : Keeps y.1 y'.1 y.2 y'.2 := by
      cases b with
      | inl a =>
        obtain ⟨ha, he⟩ := together_inl.mp hs
        rw [he]
        exact hsh.own hi ha
      | inr b =>
        obtain ⟨hst, hacc⟩ := together_inr.mp hs
        exact hsh.keeps hi hst hacc
    obtain ⟨hsh', hsame | ⟨a, ha⟩⟩ := hk
    · exact .inl ⟨hsh', hi, hsame.symm⟩
    · exact .inr ⟨a, _, trivial, ha, hsh', inv_step hi ha, rfl⟩
  exact ⟨cs, by rwa [view_eq hsim]⟩

end PracticeCode.Server3
