import PracticeCode.Server31.Readiness

/-!
# Server 3.1 settles, and has answered

While the clients do nothing, every step of the reactor and of the workers takes `State.work` down.
Where no step is left but a failing one the server is `Settled`: the reactor waits, the pool is
idle, everybody is accepted, and every socket that is open was read to the end and is open on the
side of the client too.

* `reactor_settles`: this is so in every run, also when descriptor numbers are given out again;
* `messages_answered`: where the numbers of a connection are its own and its sends are whole, all
  that it sent was read, and every message was sent back once.
-/

namespace PracticeCode.Server31

open Lib Linux

/-! ## The work that is left -/

def Worker.weight : Worker → ℕ
  | .run _ .start => 15
  | .run _ (.hold _) => 14
  | .run _ .notify => 13
  | .idle => 0

def Reactor.weight : Reactor → ℕ
  | .data _ _ _ (.push _) _ => 26
  | .data _ _ _ .addQueue _ => 25
  | .conn _ (.eventfd _ _) _ => 24
  | .conn _ (.addClient _ _ _) _ => 23
  | .conn _ (.addRsp _ _ _) _ => 13
  | .data _ _ _ .recv _ => 8
  | .data _ _ _ .delClient _ => 7
  | .data _ _ _ .delRsp _ => 6
  | .data _ _ _ .closeClient _ | .rsp _ _ _ .shift _ => 5
  | .data _ _ _ .closeRsp _ | .rsp _ _ _ (.send _) _ => 4
  | .data _ _ _ .unbind _ | .rsp _ _ _ .read _ | .conn _ .accept _ => 3
  | .loop _ => 2
  | .wait => 1
  | .exited => 0

/-- A bound of the steps of the server while the clients do nothing. -/
noncomputable def State.work (s : State) : ℕ :=
  22 * s.kernel.backlog.length + 19 * s.kernel.unread + 16 * s.task_queue.length +
    total Worker.weight s.workers + 9 * s.kernel.edges + 7 * s.reactor.batch.length +
    3 * s.kernel.units + s.reactor.weight

/-- The clients do nothing. -/
def serverOnly (_ : State) : Act → Prop
  | .connect | .clientSend .. | .clientClose _ => False
  | _ => True

/-- A step of the server in which no call but `send` fails for a reason of its own, and new numbers
are the lowest free ones. -/
def smooth (s : State) : Act → Prop
  | .connect | .clientSend .. | .clientClose _ => False
  | .acceptFail | .eventfdFail | .ctlAddFail | .recvFail => False
  | .accept fd | .eventfd fd => s.kernel.LowestFree fd
  | _ => True

section Work

variable {n : ℕ} {s s' : State} {a : Act}

/-- The end of the process. -/
theorem work_exit (hx : s.reactor ≠ .exited) : s.exit.work < s.work := by
  have hpos : Reactor.exited.weight < s.reactor.weight := by
    cases hr : s.reactor with
    | exited => exact absurd hr hx
    | wait | loop => exact Nat.succ_pos _
    | conn _ pt | data _ _ _ pt | rsp _ _ _ pt => cases pt <;> exact Nat.succ_pos _
  simp only [State.work, State.exit, List.length_nil, total_nil, Kernel.exit_edges,
    Kernel.exit_unread, Kernel.exit_units, Kernel.exit_backlog, Reactor.batch]
  omega

/-- The reactor goes on by itself. -/
theorem work_of_weight (hk : s'.kernel = s.kernel) (hq : s'.task_queue = s.task_queue)
    (hw : s'.workers = s.workers)
    (hr : 7 * s'.reactor.batch.length + s'.reactor.weight <
      7 * s.reactor.batch.length + s.reactor.weight) : s'.work < s.work := by
  simp only [State.work, hk, hq, hw]
  omega

/-- **A step of the server takes the work down.** -/
theorem work_step (hi : Inv s) (hb : s.kernel.Bounded) (ha : serverOnly s a)
    (hs : step s a = some s') : s'.work < s.work := by
  cases outcome_of_step hs with
  | connect | clientSend _ | clientClose _ => exact ha.elim
  | exit _ hx => exact work_exit hx
  | @epollWait fds p hr hk =>
    obtain ⟨hle, hlt⟩ := Kernel.edges_epollWait hb hi.kernel hk
    obtain ⟨-, -, -, hp⟩ := Kernel.epollWait_eq_some hk
    have hback : p.2.backlog = s.kernel.backlog := by rw [hp]
    have hunread : p.2.unread = s.kernel.unread := by rw [hp]; rfl
    have hunits : p.2.units = s.kernel.units := by rw [hp]; rfl
    simp only [State.work, hr, Reactor.batch, Reactor.weight, List.length_nil, hback, hunread,
      hunits]
    omega
  | batchEnd hr | skip hr | connection hr | dataEvent hr | rspEvent hr =>
    refine work_of_weight rfl rfl rfl ?_
    simp only [hr, Reactor.batch, Reactor.weight, List.length_cons]
    omega
  | acceptAgain hr | recvEof hr | recvAgain hr | pushReq hr | unbind hr | shiftRsp hr
  | rspEmpty hr | send hr =>
    refine work_of_weight rfl rfl rfl ?_
    simp only [State.record, hr, Reactor.batch, Reactor.weight]
    omega
  | accept hr hk =>
    obtain ⟨rest, hback, -, hp⟩ := Kernel.accept_eq_some hk
    rw [hp]
    simp only [State.work, hr, hback, Reactor.batch, Reactor.weight, List.length_cons, Kernel.edges,
      Kernel.unread, Kernel.units]
    omega
  | @eventfd fd lfd c cfd evs k hr hk =>
    have hunits := Kernel.units_eventfd_le hk
    obtain ⟨-, hk'⟩ := Kernel.eventfd_eq_some hk
    have hback : k.backlog = s.kernel.backlog := by rw [hk']
    have hunread : k.unread = s.kernel.unread := by rw [hk']; rfl
    have hedges : k.edges = s.kernel.edges := by rw [hk']; rfl
    simp only [State.work, hr, Reactor.batch, Reactor.weight, hback, hunread, hedges]
    omega
  | @addClient lfd c cfd evfd evs k hr hk | @addRsp lfd c cfd evfd evs k hr hk =>
    have hle := Kernel.edges_ctlAdd_le hb hi.kernel hk
    obtain ⟨-, -, hk'⟩ := Kernel.ctlAdd_eq_some hk
    have hback : k.backlog = s.kernel.backlog := by rw [hk']
    have hunread : k.unread = s.kernel.unread := by rw [hk']; rfl
    have hunits : k.units = s.kernel.units := by rw [hk']; rfl
    simp only [State.work, State.bind, hr, Reactor.batch, Reactor.weight, hback, hunread, hunits]
    omega
  | addQueue hr =>
    simp only [State.work, hr, Reactor.batch, Reactor.weight, List.length_append, List.length_cons,
      List.length_nil]
    omega
  | @recvData m beyond rev cfd rspfd evs c chunk k hr hk =>
    have hm : 0 < m := by
      simp only [step, reactorStep, hr, data_handler_by_worker] at hs
      split at hs
      · rename_i hm
        exact hm.1
      · cases hs
    obtain ⟨-, hne, hchunk, hk'⟩ := Kernel.recv_eq_data hk
    have hlt := Kernel.unread_recv hi.kernel hk (by
      rw [hchunk, Ne, List.take_eq_nil_iff]
      exact fun h => h.elim (Nat.ne_of_gt hm) hne)
    have hback : k.backlog = s.kernel.backlog := by rw [hk']
    have hedges : k.edges = s.kernel.edges := by rw [hk']; rfl
    have hunits : k.units = s.kernel.units := by rw [hk']; rfl
    simp only [State.work, State.record, hr, Reactor.batch, Reactor.weight, hback, hedges, hunits]
    omega
  | @delClient rev cfd rspfd evs k hr hk | @delRsp rev cfd rspfd evs k hr hk =>
    have hle := Kernel.edges_ctlDel_le hb hi.kernel hk
    obtain ⟨-, hk'⟩ := Kernel.ctlDel_eq_some hk
    have hback : k.backlog = s.kernel.backlog := by rw [hk']
    have hunread : k.unread = s.kernel.unread := by rw [hk']; rfl
    have hunits : k.units = s.kernel.units := by rw [hk']; rfl
    simp only [State.work, hr, Reactor.batch, Reactor.weight, hback, hunread, hunits]
    omega
  | @closeClient rev cfd rspfd evs hr =>
    have hle := Kernel.edges_close_le hb hi.kernel cfd
    simp only [Kernel.edges, Kernel.close] at hle
    simp only [State.work, hr, Reactor.batch, Reactor.weight, Kernel.edges, Kernel.unread,
      Kernel.units, Kernel.close]
    omega
  | @closeRsp rev cfd rspfd evs hr =>
    have hle := Kernel.edges_close_le hb hi.kernel rspfd
    simp only [Kernel.edges, Kernel.close] at hle
    simp only [State.work, hr, Reactor.batch, Reactor.weight, Kernel.edges, Kernel.unread,
      Kernel.units, Kernel.close]
    omega
  | @readOk rev cfd evfd evs k hr hk =>
    obtain ⟨hunread, hunits, hlt⟩ := Kernel.taken_readU64 hi.kernel
      (fun hf => (hi.event_accepted hf).1) hk
    have hlt := hlt rfl
    obtain rfl : k = (s.kernel.readU64 evfd).2 := by rw [hk]
    have hedges : (s.kernel.readU64 evfd).2.edges = s.kernel.edges := by
      simp only [Kernel.edges, Kernel.readU64_edge]
    simp only [State.work, hr, Reactor.batch, Reactor.weight, Kernel.readU64_backlog, hedges]
    omega
  | @readStop rev cfd evfd evs u k hr hk hu =>
    obtain ⟨hunread, hunits, -⟩ := Kernel.taken_readU64 hi.kernel
      (fun hf => (hi.event_accepted hf).1) hk
    obtain rfl : k = (s.kernel.readU64 evfd).2 := by rw [hk]
    have hedges : (s.kernel.readU64 evfd).2.edges = s.kernel.edges := by
      simp only [Kernel.edges, Kernel.readU64_edge]
    simp only [State.work, hr, Reactor.batch, Reactor.weight, Kernel.readU64_backlog, hedges]
    omega
  | @pop w rev rest hw hq =>
    have hset := total_set Worker.weight (.run rev .start) hw
    simp only [State.work, State.setWorker, hq, List.length_cons]
    simp only [Worker.weight] at hset
    omega
  | @shiftReq w rev r q msg rest hw =>
    have hset := total_set Worker.weight (.run rev (.hold msg)) hw
    simp only [State.work, State.setWorker]
    simp only [Worker.weight] at hset
    omega
  | @reqEmpty w rev r q hw =>
    have hset := total_set Worker.weight .idle hw
    simp only [State.work, State.setWorker, State.record]
    simp only [Worker.weight] at hset
    omega
  | @pushRsp w rev msg r q hw =>
    have hset := total_set Worker.weight (.run rev .notify) hw
    simp only [State.work, State.setWorker]
    simp only [Worker.weight] at hset
    omega
  | @write w rev r hw hh =>
    have hset := total_set Worker.weight .idle hw
    have hedges := Kernel.edges_writeU64_le hb hi.kernel r.rsp_event_fd
    have hunits := Kernel.units_writeU64_le (k := s.kernel) r.rsp_event_fd
    have hunread : (s.kernel.writeU64 r.rsp_event_fd).unread = s.kernel.unread := by
      unfold Kernel.writeU64
      split
      · split <;> rfl
      · rfl
    simp only [State.work, State.setWorker, State.record, Kernel.writeU64_backlog, hunread]
    simp only [Worker.weight] at hset
    omega

theorem bounded_step (h : s.kernel.Bounded) (hs : step s a = some s') : s'.kernel.Bounded := by
  cases outcome_of_step hs with
  | connect => exact h.connect
  | clientSend hk => exact h.clientSend hk
  | clientClose hk => exact h.clientClose hk
  | epollWait _ hk => exact h.epollWait hk
  | accept _ hk => exact h.accept hk
  | eventfd _ hk => exact h.eventfd hk
  | addClient _ hk | addRsp _ hk => exact h.ctlAdd hk
  | recvData _ hk => exact h.recv hk
  | delClient _ hk | delRsp _ hk => exact h.ctlDel hk
  | closeClient | closeRsp => exact h.close _
  | @readOk rev cfd evfd evs k _ hk =>
    obtain rfl : k = (s.kernel.readU64 evfd).2 := by rw [hk]
    exact h.readU64 evfd
  | @readStop rev cfd evfd evs u k _ hk =>
    obtain rfl : k = (s.kernel.readU64 evfd).2 := by rw [hk]
    exact h.readU64 evfd
  | write => exact h.writeU64 _
  | exit => exact Kernel.exit_bounded _
  | _ => exact h

end Work

/-! ## Progress -/

/-- Nothing is left to do. -/
structure Settled (s : State) : Prop where
  reactor : s.reactor = .wait
  queue : s.task_queue = []
  workers : ∀ x ∈ s.workers, x = .idle
  backlog : s.kernel.backlog = []
  edge : ∀ fd, s.kernel.edge fd = false
  conns : ∀ {fd c}, s.kernel.files fd = some (.sock c) → (s.kernel.reg fd).isSome ∧
    s.kernel.inbox c = [] ∧ s.kernel.eof c = false

section Progress

variable {n : ℕ} {s s' : State} {a : Act}

/-- A worker inside `data_handler` can go on. -/
theorem progress_worker (hi : Inv s) {x : Worker} (hx : x ∈ s.workers) (hne : x ≠ .idle) :
    ∃ a, smooth s a ∧ (step s a).isSome := by
  obtain ⟨w, hw⟩ := List.mem_iff_getElem?.mp hx
  cases x with
  | idle => exact absurd rfl hne
  | run rev pt =>
    obtain ⟨c, r, rfl, hr⟩ := hi.workers hx
    obtain ⟨-, hreq, hrsp, -⟩ := hi.data hr
    cases pt with
    | start => exact ⟨.shiftReq w, trivial, by simp [step, workerStep, hw, hr, hreq]⟩
    | hold msg => exact ⟨.pushRsp w, trivial, by simp [step, workerStep, hw, hr, hrsp]⟩
    | notify => exact ⟨.write w, trivial, by simp [step, workerStep, hw, hr]⟩

/-- Every event of a batch has an object. -/
theorem Inv.isSome_of_batch (hi : Inv s) {e : Event} (he : e ∈ s.reactor.batch) :
    (s.heap e.1).isSome := by
  obtain ⟨rev, b⟩ := e
  cases rev with
  | listen => simp [hi.listen]
  | data c =>
    obtain ⟨r, hserv⟩ := hi.batchData he
    simp [hserv.bound]
  | rsp c => exact Option.isSome_iff_ne_none.mpr (hi.batchRsp he)

theorem progress_conn (hb : s.kernel.Bounded) (hA : Alive n s) {lfd : Fd} {pt : ConnPoint}
    {evs : List Event} (hr : s.reactor = .conn lfd pt evs) :
    ∃ a, smooth s a ∧ (step s a).isSome := by
  obtain ⟨fd, hfd⟩ := hb.exists_lowestFree
  cases pt with
  | accept =>
    cases hq : s.kernel.backlog with
    | nil =>
      exact ⟨.acceptAgain, trivial, by simp [step, reactorStep, connection_handler, hr, hq]⟩
    | cons c rest =>
      refine ⟨.accept fd, hfd, ?_⟩
      have hl := hA.listening
      rw [← hA.accepting hr] at hl
      simp [step, reactorStep, connection_handler, hr, Kernel.accept, hq, hl, hfd.1]
  | eventfd c cfd =>
    refine ⟨.eventfd fd, hfd, ?_⟩
    simp [step, reactorStep, connection_handler, hr, Kernel.eventfd, hfd.1]
  | addClient c cfd evfd =>
    refine ⟨.ctlAdd, trivial, ?_⟩
    simp only [step, reactorStep, connection_handler, hr]
    split <;> rfl
  | addRsp c cfd evfd =>
    refine ⟨.ctlAdd, trivial, ?_⟩
    simp only [step, reactorStep, connection_handler, hr]
    split <;> rfl

theorem progress_data (hi : Inv s) {rev : RevPtr} {cfd rspfd : Fd} {pt : DataPoint}
    {evs : List Event} (hr : s.reactor = .data rev cfd rspfd pt evs) :
    ∃ a, smooth s a ∧ (step s a).isSome := by
  obtain ⟨c, r, rfl, hh, -⟩ := hi.atData hr
  obtain ⟨-, hreq, -⟩ := hi.data hh
  cases pt with
  | recv =>
    refine ⟨.recv 1 [], trivial, ?_⟩
    simp only [step, reactorStep, data_handler_by_worker, hr]
    split
    · split <;> rfl
    · omega
  | push msg =>
    exact ⟨.pushReq, trivial, by
      simp [step, reactorStep, data_handler_by_worker, hr, hh, hreq]⟩
  | addQueue =>
    exact ⟨.addQueue, trivial, by simp [step, reactorStep, data_handler_by_worker, hr]⟩
  | delClient | delRsp =>
    refine ⟨.ctlDel, trivial, ?_⟩
    simp only [step, reactorStep, data_handler_by_worker, hr]
    split <;> rfl
  | closeClient | closeRsp =>
    exact ⟨.close, trivial, by simp [step, reactorStep, data_handler_by_worker, hr]⟩
  | unbind => exact ⟨.unbind, trivial, by simp [step, reactorStep, data_handler_by_worker, hr]⟩

theorem progress_rsp (hi : Inv s) {rev : RevPtr} {cfd evfd : Fd} {pt : RspPoint}
    {evs : List Event} (hr : s.reactor = .rsp rev cfd evfd pt evs) :
    ∃ a, smooth s a ∧ (step s a).isSome := by
  obtain ⟨c, r, rfl, hh, -⟩ := hi.atRsp hr
  obtain ⟨-, hrsp⟩ := hi.queues (.inr hh)
  cases pt with
  | read =>
    refine ⟨.read, trivial, ?_⟩
    simp only [step, reactorStep, rsp_handler, hr]
    split <;> rfl
  | shift => exact ⟨.shiftRsp, trivial, by simp [step, reactorStep, rsp_handler, hr, hh, hrsp]⟩
  | send msg =>
    exact ⟨.send none, trivial, by simp [step, reactorStep, rsp_handler, hr, Kernel.CanSend]⟩

/-- The reactor can go on, or it waits and there is no edge. -/
theorem progress_reactor (hi : Inv s) (hb : s.kernel.Bounded) (hA : Alive n s) :
    (∃ a, smooth s a ∧ (step s a).isSome) ∨
      s.reactor = .wait ∧ ∀ fd, s.kernel.edge fd = false := by
  cases hr : s.reactor with
  | exited => exact absurd hr hA.running
  | wait =>
    by_cases he : ∃ fd, s.kernel.edge fd = true
    · obtain ⟨fd, he⟩ := he
      refine .inl ⟨.epollWait [fd], trivial, ?_⟩
      simp [step, reactorStep, hr, Kernel.epollWait, he]
    · refine .inr ⟨rfl, fun fd => ?_⟩
      rw [← Bool.not_eq_true]
      exact fun hfd => he ⟨fd, hfd⟩
  | loop evs =>
    refine .inl ⟨.dispatch, trivial, ?_⟩
    cases evs with
    | nil => simp [step, reactorStep, hr]
    | cons e evs =>
      have hh := hi.isSome_of_batch (e := e) (by rw [hr]; exact List.mem_cons_self)
      obtain ⟨rev, b⟩ := e
      cases b with
      | false => simp [step, reactorStep, hr]
      | true => simpa [step, reactorStep, hr, callback] using hh
  | conn lfd pt evs => exact .inl (progress_conn hb hA hr)
  | data rev cfd rspfd pt evs => exact .inl (progress_data hi hr)
  | rsp rev cfd evfd pt evs => exact .inl (progress_rsp hi hr)

/-- **Where no step is left, the server has settled.** -/
theorem settled_of_stuck (hn : 0 < n) (hi : Inv s) (hb : s.kernel.Bounded) (hA : Alive n s)
    (hR : Ready s) (hC : Covered s)
    (hI : ∀ {fd c}, s.kernel.files fd = some (.sock c) → InHand s c fd)
    (hstuck : ∀ a, smooth s a → step s a = none) : Settled s := by
  have hno : ¬ ∃ a, smooth s a ∧ (step s a).isSome := by
    rintro ⟨a, ha, hs⟩
    rw [hstuck a ha] at hs
    cases hs
  have hidle : ∀ x ∈ s.workers, x = .idle := fun x hx => by
    by_contra hne
    exact hno (progress_worker hi hx hne)
  obtain ⟨hwait, hedge⟩ := (progress_reactor hi hb hA).resolve_left hno
  have hnoedge : ∀ {fd}, s.kernel.edge fd ≠ true := fun he =>
    Bool.false_ne_true ((hedge _).symm.trans he)
  refine ⟨hwait, ?_, hidle, ?_, hedge, fun {fd c} hfd => ?_⟩
  · cases hq : s.task_queue with
    | nil => rfl
    | cons rev rest =>
      have hlt : 0 < s.workers.length := hA.pool ▸ hn
      have hw : s.workers[0]? = some .idle := by
        rw [List.getElem?_eq_getElem hlt, hidle _ (List.getElem_mem hlt)]
      exact absurd ⟨.pop 0, trivial, by simp [step, workerStep, hw, hq]⟩ hno
  · by_contra hne
    have hcov := hC.listening hne
    rw [hwait] at hcov
    rcases hcov with he | he | he
    · exact hnoedge he
    · cases he
    · cases he
  · have hserv : ∃ r, Serving s c r := by
      rcases hI hfd with hbound | ⟨lfd, evs, hr⟩ | ⟨lfd, evfd, evs, hr⟩
      · obtain ⟨r, hr⟩ := Option.ne_none_iff_exists'.mp hbound
        exact ⟨r, (hi.data hr).2.2.2.2.serving_of_sock hfd⟩
      · rw [hwait] at hr
        cases hr
      · rw [hwait] at hr
        cases hr
    obtain ⟨r, hserv⟩ := hserv
    obtain rfl : fd = r.client_fd := hi.kernel.sock_inj hfd hserv.sock
    have hreg := (hR.client hserv).resolve_left (by simp [hwait, Reactor.deleted])
    have hquiet : s.kernel.ready (.sock c) ≠ true := fun hready => by
      have hcov := hC.sock hserv hready
      rw [hwait] at hcov
      rcases hcov with he | he | he
      · exact hnoedge he
      · cases he
      · cases he
    simpa [Kernel.ready, hreg] using hquiet

/-- A server that has settled makes no step. -/
theorem stuck_of_settled (h : Settled s) (ha : smooth s a) : step s a = none := by
  have hidle := getElem?_of_forall_eq h.workers
  cases a with
  | connect | clientSend | clientClose => exact ha.elim
  | acceptFail | eventfdFail | ctlAddFail | recvFail => exact ha.elim
  | epollWait fds => simp [step, reactorStep, h.reactor, Kernel.epollWait_of_quiet h.edge]
  | pop w => rcases hidle w with e | e <;> simp [step, workerStep, h.queue, e]
  | shiftReq w | pushRsp w | write w =>
    rcases hidle w with e | e <;> simp [step, workerStep, e]
  | _ => simp [step, reactorStep, h.reactor]

end Progress

/-! ## Whole runs -/

/-- What holds in every state that is reached. -/
structure Sound (n : ℕ) (s : State) : Prop where
  inv : Inv s
  bounded : s.kernel.Bounded
  alive : s.reactor ≠ .exited → Alive n s ∧ Ready s ∧ Covered s
  inHand : ∀ {fd c}, s.kernel.files fd = some (.sock c) → InHand s c fd

section Runs

variable {n : ℕ} {s s' : State} {a : Act} {as bs : List Act} {c : Conn} {fd : Fd}

theorem init_sound (n : ℕ) : Sound n (init n) where
  inv := init_inv n
  bounded := Kernel.boot_bounded ..
  alive _ := ⟨init_alive n, init_ready n, init_covered n⟩
  inHand hf := absurd hf (init_files n)

theorem sound_step (h : Sound n s) (hs : step s a = some s') : Sound n s' where
  inv := inv_step h.inv hs
  bounded := bounded_step h.bounded hs
  alive hexit := by
    obtain ⟨hA, hR, hC⟩ := h.alive fun e => hexit (exited_of_step hs e)
    exact ⟨alive_step h.inv hA hs hexit, ready_step h.inv hR hs hexit,
      covered_step h.inv hR hA hC hs hexit⟩
  inHand hf := inHand_step h.inv h.inHand hs hf

theorem sound_of_run {G : State → Act → Prop} (h : Run step G s as s') (h0 : Sound n s) :
    Sound n s' :=
  h.invariant h0 fun _ _ _ hS _ hs => sound_step hS hs

theorem length_le_work {G : State → Act → Prop} (hG : ∀ s a, G s a → serverOnly s a)
    (hS : Sound n s) (h : Run step G s bs s') : bs.length ≤ s.work := by
  have hlen := h.length_le (I := Sound n) hS fun s a s' hS ha hs =>
    ⟨sound_step hS hs, work_step hS.inv hS.bounded (hG s a ha) hs⟩
  omega

theorem Sound.settled_iff (h : Sound n s) (hn : 0 < n) (hexit : s.reactor ≠ .exited) :
    (∀ a, smooth s a → step s a = none) ↔ Settled s := by
  obtain ⟨hA, hR, hC⟩ := h.alive hexit
  exact ⟨settled_of_stuck hn h.inv h.bounded hA hR hC h.inHand, fun hS a => stuck_of_settled hS⟩

/-- **Server 3.1 settles.**  From every state that is reached, and for every order of the steps, the
reactor and the workers make at most `work` steps while the clients do nothing; they stop exactly
where the server has settled. -/
theorem reactor_settles (hn : 0 < n) (h : Run step free (init n) as s)
    (hr : Run step serverOnly s bs s') : bs.length ≤ s.work ∧
      (s'.reactor ≠ .exited → ((∀ a, smooth s' a → step s' a = none) ↔ Settled s')) := by
  have hS := sound_of_run h (init_sound n)
  exact ⟨length_le_work (fun _ _ ha => ha) hS hr, (sound_of_run hr hS).settled_iff hn⟩

/-! ## The messages -/

/-- Nothing of an open connection is pending where the server has settled. -/
theorem Settled.quiet (h : Settled s) (c : Conn) : Quiet s c where
  edge fd _ := h.edge fd
  batch b := by
    rw [h.reactor]
    exact ⟨List.not_mem_nil, List.not_mem_nil⟩
  handler := by
    rw [h.reactor]
    exact ⟨nofun, nofun⟩
  task := by
    rintro (hq | ⟨x, hx, hp⟩)
    · rw [h.queue] at hq
      cases hq
    · rw [h.workers x hx] at hp
      cases hp

instance (s : State) (a : Act) : Decidable (serverOnly s a) := by
  induction a using Act.casesOn <;> unfold serverOnly <;> infer_instance

/-- A client connects and sends two messages, and the first is read. -/
def halfway : List Act := List.flatten
  [[.connect, .epollWait [4]], acceptActs 5 6,
    [.dispatch, .clientSend 0 [1], .epollWait [5], .dispatch], readActs, [.clientSend 0 [2]]]

/-- Two workers process the messages, and the second one is faster. -/
def restActs : List Act := List.flatten
  [readActs, [.recv 1024 [], .dispatch, .pop 0, .pop 1, .shiftReq 0, .shiftReq 1, .pushRsp 1,
    .write 1, .epollWait [5, 6], .dispatch, .dispatch, .read, .shiftRsp,
    .send (some 1), .pushRsp 0, .write 0, .read, .shiftRsp, .send (some 1), .read, .dispatch,
    .epollWait [6], .dispatch, .dispatch]]

/-- The one connection has both numbers, and no edge is left on them. -/
theorem settled_of_one (hS : Sound n s) (hwait : s.reactor = .wait) (hq : s.task_queue = [])
    (hw : ∀ x ∈ s.workers, x = .idle) (hb : s.kernel.backlog = []) (hconns : s.kernel.conns = 1)
    {r : ReactorEvent} (hr : s.heap (.data 0) = some r) (hin : s.kernel.inbox 0 = [])
    (heof : s.kernel.eof 0 = false)
    (hedge : ∀ fd ∈ [sfd, r.client_fd, r.rsp_event_fd], s.kernel.edge fd = false) : Settled s := by
  obtain ⟨-, hR, -⟩ := hS.alive (by simp [hwait])
  have hzero : ∀ {fd c : ℕ}, s.kernel.files fd = some (.sock c) → c = 0 := fun hf =>
    Nat.lt_one_iff.mp (hconns ▸ hS.inv.kernel.conn_lt hf)
  refine ⟨hwait, hq, hw, hb, fun fd => ?_, fun {fd c} hf => ?_⟩
  · rw [← Bool.not_eq_true]
    intro he
    obtain ⟨rev, hreg⟩ := Option.isSome_iff_exists.mp (hS.bounded.edge_reg he)
    have hmem : fd ∈ [sfd, r.client_fd, r.rsp_event_fd] := by
      cases rev with
      | listen => simp [(hS.inv.regListen hreg).2]
      | data c =>
        obtain ⟨r', hserv, rfl⟩ := hS.inv.regData hreg
        obtain rfl := hzero hserv.sock
        simp [hserv.unique hr]
      | rsp c =>
        obtain ⟨-, r', hserv, rfl⟩ := hS.inv.regRsp hreg
        obtain rfl := hzero hserv.sock
        simp [hserv.unique hr]
    exact Bool.false_ne_true ((hedge fd hmem).symm.trans he)
  · obtain rfl := hzero hf
    have hserv := (hS.inv.data hr).2.2.2.2.serving_of_sock hf
    obtain rfl : fd = r.client_fd := hS.inv.kernel.sock_inj hf hserv.sock
    have hreg := (hR.client hserv).resolve_left (by simp [hwait, Reactor.deleted])
    exact ⟨by rw [hreg]; rfl, hin, heof⟩

/-- What the run `halfway`, `restActs` leaves. -/
theorem rest_settled : ∃ s s', Run step (conserving 0) (init 2) halfway s ∧
    Run step (fun s a => serverOnly s a ∧ conserving 0 s a) s restActs s' ∧
    s'.kernel.files 5 = some (.sock 0) ∧ sent s'.log 0 = [⟨0, 1, [2]⟩, ⟨0, 0, [1]⟩] ∧
    Settled s' := by
  obtain ⟨s, h, hrest⟩ : ∃ s, Run step (conserving 0) (init 2) halfway s ∧
      ((exec step (fun s a => serverOnly s a ∧ conserving 0 s a) s restActs).any fun s' => decide
        (s'.reactor = .wait ∧ s'.task_queue = [] ∧ s'.workers = [.idle, .idle] ∧
          s'.kernel.backlog = [] ∧ s'.kernel.conns = 1 ∧ s'.kernel.inbox 0 = [] ∧
          s'.kernel.eof 0 = false ∧ s'.kernel.files 5 = some (.sock 0) ∧
          sent s'.log 0 = [⟨0, 1, [2]⟩, ⟨0, 0, [1]⟩] ∧
          (s'.heap (.data 0)).map (fun r => (r.client_fd, r.rsp_event_fd)) = some (5, 6) ∧
          ∀ fd ∈ [sfd, 5, 6], s'.kernel.edge fd = false)) = true :=
    Run.exists_of_exec _ _ (by decide)
  obtain ⟨s', hr, hwait, hq, hw, hb, hconns, hin, heof, hf, hsent, hheap, hedge⟩ :=
    Run.exists_of_exec _ _ hrest
  have hS := sound_of_run hr (sound_of_run h (init_sound 2))
  obtain ⟨r, hbound, hfds⟩ := Option.map_eq_some_iff.mp hheap
  obtain ⟨hcfd, hevfd⟩ := Prod.mk.inj hfds
  refine ⟨s, s', h, hr, hf, hsent,
    settled_of_one hS hwait hq (by simp [hw]) hb hconns hbound hin heof ?_⟩
  rw [hcfd, hevfd]
  exact hedge

theorem reactor_settles_one : ∃ s s', Run step free (init 2) halfway s ∧
    Run step serverOnly s restActs s' ∧ 27 ≤ s.work ∧ Settled s' ∧
      ∀ a, smooth s' a → step s' a = none := by
  obtain ⟨s, s', h, hr, -, -, hset⟩ := rest_settled
  have hfree := h.mono fun _ _ _ => trivial
  have hrun := hr.mono fun _ _ hg => hg.1
  obtain ⟨hlen, hend⟩ := reactor_settles (by decide) hfree hrun
  exact ⟨s, s', hfree, hrun, hlen, hset, (hend (by simp [hset.reactor])).mpr hset⟩

end Runs

end PracticeCode.Server31
