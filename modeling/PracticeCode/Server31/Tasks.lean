import PracticeCode.Server31.Availability
import PracticeCode.Server31.Messages

/-!
# When the tasks of server 3.1 outlive the object

`recv` returns 0, and `data_handler_by_worker` closes the connection and releases the object,
without a look at the tasks it made before.

* `Counted`: a task was made for each message pushed, and is over, running or waiting;
* `taskSafe`: no task is for a released object in every run in which the tasks of a connection are
  over when `recv` returns 0 on it (`drained`); where they are not, the reactor need only go on for
  a task to be for a released object;
* `danglingRun`: the handler reads a message and the EOF in one pass of its loop, and releases the
  object while the task of the message waits.
-/

namespace PracticeCode.Server31

open Lib Linux

/-! ## Counting tasks -/

/-- The call with which `data_handler` ends for the connection `c`. -/
def Op.isEnd (c : Conn) : Op → Bool
  | .reqEmpty rev | .notify rev _ => rev = .data c
  | _ => false

/-- How many tasks of `c` are over. -/
def ended (log : List Op) (c : Conn) : ℕ := log.countP (Op.isEnd c)

def Worker.tasks (c : Conn) : Worker → ℕ
  | .run rev _ => if rev = .data c then 1 else 0
  | .idle => 0

/-- A task was made for each message pushed, except the last one before `addQueue`. -/
def Counted (s : State) : Prop :=
  s.reactor ≠ .exited → ∀ c, (pushed s.log c).length =
    ended s.log c + s.task_queue.count (.data c) + total (Worker.tasks c) s.workers +
      s.reactor.adding c

/-- **`recv` returns 0 after the tasks are over**: by then the workers have made as many last calls
for the connection as messages of it were pushed. -/
def drained (s : State) : Act → Prop
  | .recv n _ =>
    match s.reactor with
    | .data (.data c) cfd _ .recv _ =>
      (s.kernel.recv cfd n).1 = .eof → ended s.log c = (pushed s.log c).length
    | _ => True
  | _ => True

instance (s : State) (a : Act) : Decidable (drained s a) := by
  induction a using Act.casesOn with
  | recv n beyond =>
    unfold drained
    generalize s.reactor = re
    match re with
    | .data (.data c) cfd _ .recv _ => exact inferInstanceAs (Decidable (_ → _))
    | .data .listen .. | .data (.rsp _) .. | .data (.data _) _ _ (.push _) _
    | .data (.data _) _ _ .addQueue _ | .data (.data _) _ _ .delClient _
    | .data (.data _) _ _ .delRsp _ | .data (.data _) _ _ .closeClient _
    | .data (.data _) _ _ .closeRsp _ | .data (.data _) _ _ .unbind _
    | .wait | .loop _ | .conn .. | .rsp .. | .exited => exact isTrue trivial
  | _ => exact isTrue trivial

/-- While a connection is being closed no task of it is left. -/
def Idle (s : State) : Prop :=
  ∀ {c}, s.reactor.dropping = some (.data c) → ¬ Pending s (.data c)

section Count

variable {s s' : State} {a : Act} {c : Conn}

theorem init_counted (n : ℕ) : Counted (init n) := fun _ c => by
  simp [init, pushed, ended, total_replicate, Worker.tasks, Reactor.adding]

theorem ended_append {o : Op} (h : o.isEnd c = false) (log : List Op) :
    ended (log ++ [o]) c = ended log c := by
  simp [ended, h]

/-- A step of the reactor that is about no message. -/
theorem Counted.goto (h : Counted s) (hne : s.reactor ≠ .exited)
    (hadd : ∀ c, s.reactor.adding c = 0) (hadd' : ∀ c, s'.reactor.adding c = 0)
    (hpush : ∀ c, pushed s'.log c = pushed s.log c) (hend : ∀ c, ended s'.log c = ended s.log c)
    (hq : s'.task_queue = s.task_queue) (hw : s'.workers = s.workers) : Counted s' := by
  intro _ c
  have hc := h hne c
  rw [hadd] at hc
  rw [hpush, hend, hq, hw, hadd', hc]

/-- A step of a worker. -/
theorem Counted.work (h : Counted s) {w : ℕ} {x y : Worker} (hx : s.workers[w]? = some x)
    (hw : s'.workers = s.workers.set w y) (hr : s'.reactor = s.reactor)
    (hpush : ∀ c, pushed s'.log c = pushed s.log c)
    (hmove : ∀ c, ended s'.log c + s'.task_queue.count (.data c) + y.tasks c =
      ended s.log c + s.task_queue.count (.data c) + x.tasks c) : Counted s' := by
  intro hexit c
  rw [hr] at hexit
  have hc := h hexit c
  have hset := total_set (Worker.tasks c) y hx
  have hm := hmove c
  rw [hpush, hw, hr]
  omega

theorem counted_pushReq (hi : Inv s) (h : Counted s) {rev : RevPtr} {cfd rspfd : Fd} {msg : Msg}
    {evs : List Event} {req : Conn → List Msg}
    (hr : s.reactor = .data rev cfd rspfd (.push msg) evs) : Counted ({ s with
      req_queue := req, reactor := .data rev cfd rspfd .addQueue evs }.record
        (.pushReq rev msg)) := by
  obtain ⟨q, r, rfl, -⟩ := hi.atData hr
  intro _ c
  have hc := h (by rw [hr]; nofun) c
  rw [hr] at hc
  simp only [Reactor.adding] at hc
  have hend : ended (s.log ++ [.pushReq (.data q) msg]) c = ended s.log c := ended_append rfl _
  by_cases e : q = c
  · subst e
    simp only [State.record, pushed, List.filterMap_append, List.length_append, hend,
      Reactor.adding, if_true]
    simp only [pushed] at hc
    simp only [List.filterMap_cons, List.filterMap_nil, Op.isPushed, if_true, List.length_singleton]
    omega
  · have hpush : pushed (s.log ++ [.pushReq (.data q) msg]) c = pushed s.log c :=
      pushed_append _ (by simp [Op.isPushed, e])
    simp only [State.record, hpush, hend, Reactor.adding, RevPtr.data.injEq, if_neg e]
    exact hc

theorem counted_addQueue (h : Counted s) {rev : RevPtr} {cfd rspfd : Fd} {evs : List Event}
    (hr : s.reactor = .data rev cfd rspfd .addQueue evs) : Counted { s with
      task_queue := s.task_queue ++ [rev], reactor := .data rev cfd rspfd .recv evs } := by
  intro _ c
  have hc := h (by rw [hr]; nofun) c
  rw [hr] at hc
  simp only [Reactor.adding] at hc
  simp only [List.count_append, List.count_singleton, Reactor.adding, beq_iff_eq]
  omega

/-- **A step keeps the count of the tasks.** -/
theorem counted_step (hi : Inv s) (h : Counted s) (hs : step s a = some s') : Counted s' := by
  cases outcome_of_step hs with
  | exit => exact fun hexit => absurd rfl hexit
  | connect | clientSend | clientClose => exact h
  | pushReq hr => exact counted_pushReq hi h hr
  | addQueue hr => exact counted_addQueue h hr
  | @pop w rev rest hw hq =>
    refine h.work hw rfl rfl (fun _ => rfl) fun c => ?_
    simp only [State.setWorker, hq, List.count_cons, Worker.tasks, beq_iff_eq]
    omega
  | shiftReq hw | pushRsp hw => exact h.work hw rfl rfl (fun _ => rfl) fun _ => rfl
  | @reqEmpty w rev r q hw | @write w rev r hw =>
    refine h.work hw rfl rfl (fun c => pushed_append _ rfl) fun c => ?_
    simp only [State.record, State.setWorker, ended, List.countP_append, List.countP_singleton,
      Op.isEnd, Worker.tasks, decide_eq_true_eq]
    omega
  | epollWait hr | batchEnd hr | skip hr | connection hr | dataEvent hr | rspEvent hr =>
    exact h.goto (by simp [hr]) (fun _ => by rw [hr]; rfl) (fun _ => rfl) (fun _ => rfl)
      (fun _ => rfl) rfl rfl
  | accept hr | acceptAgain hr | eventfd hr | addClient hr | addRsp hr =>
    exact h.goto (by simp [hr]) (fun _ => by rw [hr]; rfl) (fun _ => rfl) (fun _ => rfl)
      (fun _ => rfl) rfl rfl
  | recvEof hr | recvAgain hr | delClient hr | delRsp hr | closeClient hr | closeRsp hr =>
    exact h.goto (by simp [hr]) (fun _ => by rw [hr]; rfl) (fun _ => rfl) (fun _ => rfl)
      (fun _ => rfl) rfl rfl
  | unbind hr | readOk hr | readStop hr | shiftRsp hr =>
    exact h.goto (by simp [hr]) (fun _ => by rw [hr]; rfl) (fun _ => rfl) (fun _ => rfl)
      (fun _ => rfl) rfl rfl
  | recvData hr | rspEmpty hr | send hr =>
    exact h.goto (by simp [hr]) (fun _ => by rw [hr]; rfl) (fun _ => rfl)
      (fun _ => pushed_append _ rfl) (fun _ => ended_append rfl _) rfl rfl

/-- A task is left exactly if not every message has had its last call. -/
theorem Counted.pending_iff (h : Counted s) {cfd rspfd : Fd} {evs : List Event}
    (hr : s.reactor = .data (.data c) cfd rspfd .recv evs) :
    Pending s (.data c) ↔ ended s.log c ≠ (pushed s.log c).length := by
  have hc := h (by rw [hr]; nofun) c
  rw [hr] at hc
  simp only [Reactor.adding, Nat.add_zero] at hc
  constructor
  · rintro (hq | ⟨x, hx, ht⟩)
    · have := List.count_pos_iff.mpr hq
      omega
    · have hle := le_total (Worker.tasks c) hx
      cases x with
      | idle => cases ht
      | run rev pt =>
        obtain rfl := Option.some.inj ht
        simp only [Worker.tasks, if_true] at hle
        omega
  · intro hne
    by_cases hq : 0 < s.task_queue.count (.data c)
    · exact .inl (List.count_pos_iff.mp hq)
    · have ht : total (Worker.tasks c) s.workers ≠ 0 := by omega
      rw [Ne, total_eq_zero_iff, not_forall] at ht
      obtain ⟨x, hx⟩ := ht
      rw [Classical.not_imp] at hx
      obtain ⟨hx, hpos⟩ := hx
      refine .inr ⟨x, hx, ?_⟩
      cases x with
      | idle => exact absurd rfl hpos
      | run rev pt =>
        simp only [Worker.tasks, ite_eq_right_iff, not_forall] at hpos
        rw [Worker.task, hpos.1]

end Count

/-! ## Runs -/

section Runs

variable {s s' : State} {a : Act} {c : Conn}

theorem init_taskSafe (n : ℕ) : TaskSafe (init n) := by
  rintro rev (h | ⟨x, hx, hr⟩)
  · cases h
  · rw [(List.mem_replicate.mp hx).2] at hr
    cases hr

theorem init_idle (n : ℕ) : Idle (init n) := by
  intro c hd
  cases hd

theorem idle_step (hc : Counted s) (h : Idle s) (hg : drained s a) (hs : step s a = some s') :
    Idle s' := by
  intro c hd hp
  rcases recvEof_of_dropping hs hd with hd₀ | ⟨n, beyond, cfd, rspfd, evs, rfl, hr, heof⟩
  · rcases pending_of_step hs hp with hp | ⟨cfd, rspfd, evs, hr, -⟩
    · exact h hd₀ hp
    · rw [hr] at hd₀
      cases hd₀
  · rcases pending_of_step hs hp with hp | ⟨_, _, _, hr', -⟩
    · simp only [drained, hr] at hg
      exact (hc.pending_iff hr).mp hp (hg heof)
    · rw [hr] at hr'
      cases hr'

theorem taskSafe_step (hi : Inv s) (h : TaskSafe s) (hidle : Idle s) (hs : step s a = some s') :
    TaskSafe s' := by
  intro rev hp
  rcases pending_of_step hs hp with hp' | ⟨cfd, rspfd, evs, hr, hlive⟩
  · rcases live_of_step hs (h rev hp') with hl | ⟨rfl, cfd, rspfd, evs, hr⟩
    · exact hl
    · obtain ⟨c, r, rfl, -⟩ := hi.atData hr
      exact absurd hp' (hidle (by rw [hr]; rfl))
  · obtain ⟨c, r, rfl, -, -, -, hserv⟩ := hi.atData hr
    rw [hlive]
    exact hserv.live

/-! ### What the reactor does after the last `recv` -/

theorem exists_ctlDel {fd : Fd} {f : File} {p : RevPtr} (hf : s.kernel.files fd = some f)
    (hp : s.kernel.reg fd = some p) : ∃ k, s.kernel.ctlDel fd = some k := by
  simp [Kernel.ctlDel, hf, hp]

/-- The close path goes through to its end. -/
theorem exists_unbind (hi : Inv s) (h : Ready s) {cfd rspfd : Fd} {evs : List Event}
    (hr : s.reactor = .data (.data c) cfd rspfd .delClient evs) :
    ∃ as s', Run step free s as s' ∧ s'.live (.data c) = false ∧ s'.task_queue = s.task_queue ∧
      s'.workers = s.workers := by
  obtain ⟨_, r, e, -, rfl, rfl, hserv⟩ := hi.atData hr
  cases e
  obtain ⟨k, hk⟩ := exists_ctlDel hserv.sock ((h.client hserv).resolve_left (by rw [hr]; nofun))
  let t : State := { s with
    kernel := k, reactor := .data (.data c) r.client_fd r.rsp_event_fd .delRsp evs }
  have h1 : step s .ctlDel = some t := by
    simp only [step, reactorStep, hr, data_handler_by_worker, hk, t]
  have hi' : Inv t := inv_step hi h1
  have h' : Ready t := ready_step hi h h1 nofun
  obtain ⟨_, r', e, hb, hcfd, hrspfd, hserv', -⟩ := hi'.atData (show t.reactor = _ from rfl)
  cases e
  obtain ⟨k', hk'⟩ := exists_ctlDel hserv'.event
    ((h'.rsp hserv').resolve_right (by rintro (h | h) <;> cases h))
  rw [hrspfd] at hk'
  have h2 : step t .ctlDel = some { t with
      kernel := k', reactor := .data (.data c) r.client_fd r.rsp_event_fd .closeClient evs } := by
    simp only [step, reactorStep, data_handler_by_worker, t] at hk' ⊢
    rw [hk']
  refine ⟨[.ctlDel, .ctlDel, .close, .close, .unbind], _, .cons trivial h1 (.cons trivial h2
    (.cons trivial rfl (.cons trivial rfl (.cons trivial rfl .nil)))), ?_, rfl, rfl⟩
  exact Function.update_self ..

/-- **The reactor does not wait for the tasks.**  When `recv` returns 0 while a task is left, the
reactor can go on until the object is released. -/
theorem not_taskSafe_of_pending (hi : Inv s) (h : Ready s) {n : ℕ} {beyond : List UInt8}
    {cfd rspfd : Fd} {evs : List Event} (hr : s.reactor = .data (.data c) cfd rspfd .recv evs)
    (heof : (s.kernel.recv cfd n).1 = .eof) (hs : step s (.recv n beyond) = some s')
    (hp : Pending s (.data c)) :
    ∃ as t, Run step free s (.recv n beyond :: as) t ∧ ¬ TaskSafe t := by
  have hs' : s' = { s with reactor := .data (.data c) cfd rspfd .delClient evs } := by
    simp only [step, reactorStep, hr, data_handler_by_worker] at hs
    split at hs
    · split at hs
      · rename_i hk
        rw [hk] at heof
        cases heof
      · exact (Option.some.inj hs).symm
      · rename_i hk
        rw [hk] at heof
        cases heof
      · rename_i hk
        rw [hk] at heof
        cases heof
    · cases hs
  subst hs'
  obtain ⟨as, t, hrun, hlive, hq, hw⟩ :=
    exists_unbind (inv_step hi hs) (ready_step hi h hs nofun) rfl
  refine ⟨as, t, .cons trivial hs hrun, fun ht => ?_⟩
  have hpt : Pending t (.data c) := by
    unfold Pending
    rw [hq, hw]
    exact hp
  rw [ht _ hpt] at hlive
  cases hlive

theorem ready_of_run {n : ℕ} {as : List Act} (h : Run step free (init n) as s) :
    (Inv s ∧ Counted s) ∧ (s.reactor ≠ .exited → Ready s) :=
  h.invariant (I := fun s => (Inv s ∧ Counted s) ∧ (s.reactor ≠ .exited → Ready s))
    ⟨⟨init_inv n, init_counted n⟩, fun _ => init_ready n⟩ fun _ _ _ hI _ hs =>
      ⟨⟨inv_step hI.1.1 hs, counted_step hI.1.1 hI.1.2 hs⟩, fun hne =>
        ready_step hI.1.1 (hI.2 fun e => hne (exited_of_step hs e)) hs hne⟩

end Runs

/-- **The tasks of the pool are for bound objects** in every run in which the tasks of a connection
are over when `recv` returns 0 on it.  No more can be said: from a `recv` that returns 0 too early,
the reactor alone gets to a released object with a task. -/
theorem taskSafe {n : ℕ} {as : List Act} {s : State} :
    (Run step drained (init n) as s → TaskSafe s) ∧
    (Run step free (init n) as s → ∀ a, (step s a).isSome → ¬ drained s a →
      ∃ bs t, Run step free s (a :: bs) t ∧ ¬ TaskSafe t) := by
  constructor
  · intro h
    have hI : (Inv s ∧ Counted s) ∧ Idle s ∧ TaskSafe s :=
      h.invariant (I := fun s => (Inv s ∧ Counted s) ∧ Idle s ∧ TaskSafe s)
        ⟨⟨init_inv n, init_counted n⟩, init_idle n, init_taskSafe n⟩
        fun s a s' hI hg hs => by
          obtain ⟨⟨hi, hc⟩, hidle, hsafe⟩ := hI
          exact ⟨⟨inv_step hi hs, counted_step hi hc hs⟩, idle_step hc hidle hg hs,
            taskSafe_step hi hsafe hidle hs⟩
    exact hI.2.2
  · intro h a ha hg
    obtain ⟨⟨hi, hc⟩, hready⟩ := ready_of_run h
    obtain ⟨s', hs⟩ := Option.isSome_iff_exists.mp ha
    unfold drained at hg
    split at hg
    · split at hg
      · rename_i hr
        rw [Classical.not_imp] at hg
        exact not_taskSafe_of_pending hi (hready (by rw [hr]; nofun)) hr hg.1 hs
          ((hc.pending_iff hr).mpr hg.2)
      · exact absurd trivial hg
    · exact absurd trivial hg

/-- The handler has read a message, and the client has closed. -/
def danglingStart : List Act := List.flatten
  [[.connect, .epollWait [4]], acceptActs 5 6,
    [.dispatch, .clientSend 0 [1], .clientClose 0, .epollWait [5], .dispatch], readActs]

theorem taskSafe_settled : (∃ s, Run step drained (init 1) settledRun s ∧
    (s.live (.data 0) = false ∧ Pending s (.data 1)) ∧ TaskSafe s) ∧
    ∃ s, Run step free (init 1) danglingStart s ∧
      ∃ bs t, Run step free s (.recv 1024 [] :: bs) t ∧ ¬ TaskSafe t := by
  obtain ⟨s, hr, hp⟩ : ∃ s, Run step drained (init 1) settledRun s ∧
      s.live (.data 0) = false ∧ Pending s (.data 1) := Run.exists_of_exec _ _ (by decide)
  obtain ⟨t, hr', ha, hg⟩ : ∃ s, Run step free (init 1) danglingStart s ∧
      (step s (.recv 1024 [])).isSome = true ∧ ¬ drained s (.recv 1024 []) :=
    Run.exists_of_exec _ _ (by decide)
  exact ⟨⟨s, hr, hp, taskSafe.1 hr⟩, t, hr', taskSafe.2 hr' _ ha hg⟩

/-- A message and the EOF in one pass of the loop; the worker gets the task after the release. -/
def danglingRun : List Act := danglingStart ++ closeActs ++ [.pop 0]

/-- **A worker can run a task for a released object.** -/
theorem not_taskSafe :
    ¬ ∀ n as s, Run step lowestFree (init n) as s → TaskSafe s := by
  intro h
  obtain ⟨s, hr, h0, h1⟩ : ∃ s, Run step lowestFree (init 1) danglingRun s ∧
      s.live (.data 0) = false ∧ Pending s (.data 0) := Run.exists_of_exec _ _ (by decide)
  have := h _ _ _ hr _ h1
  rw [h0] at this
  cases this

end PracticeCode.Server31
