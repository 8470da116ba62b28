import PracticeCode.Server3.Readiness

/-!
# Server 3 settles

While the clients do nothing, every step of the reactor and of the workers takes `State.work` down,
also the steps of a call that fails.  Where no step is left but a failing one the server is
`Settled`: the reactor waits, the pool is idle, everybody is accepted, and every connection that is
still open was read to its end, and is still open on the side of the client.

So nothing is forgotten, and no number is kept for a client that is gone, whatever the workers do
with each other's numbers.
-/

namespace PracticeCode.Server3

open Lib Linux

/-! ## The work that is left -/

def Worker.weight : Worker → ℕ
  | .run _ _ (.send ..) => 5
  | .run _ _ .recv => 4
  | .run _ _ .del => 2
  | .run _ _ .close => 1
  | .idle => 0

def Reactor.weight : Reactor → ℕ
  | .add .. => 12
  | .accept .. => 3
  | .loop _ => 2
  | .wait => 1
  | .exited => 0

/-- A bound of the steps of the server while the clients do nothing. -/
noncomputable def State.work (s : State) : ℕ :=
  10 * s.kernel.backlog.length + 8 * s.kernel.edges + 6 * s.reactor.batch.length +
    5 * s.task_queue.length + total Worker.weight s.workers + 2 * s.kernel.unread + s.reactor.weight

/-- The clients do nothing. -/
def serverOnly (_ : State) : Act → Prop
  | .connect | .clientSend .. | .clientClose _ => False
  | _ => True

/-- A step of the server in which no call but `send` fails for a reason of its own, and `accept`
gives the lowest free number. -/
def smooth (s : State) : Act → Prop
  | .connect | .clientSend .. | .clientClose _ | .acceptFail | .ctlAddFail | .recvFail _ => False
  | .accept fd => s.kernel.LowestFree fd
  | _ => True

section Work

variable {n : ℕ} {s s' : State} {a : Act}

/-- The end of the process. -/
theorem work_exit (hx : s.reactor ≠ .exited) : s.exit.work < s.work := by
  have hpos : Reactor.exited.weight < s.reactor.weight := by
    cases hr : s.reactor with
    | exited => exact absurd hr hx
    | _ => exact Nat.succ_pos _
  simp only [State.work, State.exit, List.length_nil, total_nil, Kernel.exit_edges,
    Kernel.exit_unread, Kernel.exit_backlog, Reactor.batch]
  omega

/-- **A step of the server takes the work down.** -/
theorem work_step (hi : Inv s) (hb : s.kernel.Bounded) (hx : s.reactor ≠ .exited)
    (ha : serverOnly s a) (hs : step s a = some s') : s'.work < s.work := by
  cases outcome_of_step hs with
  | connect | clientSend _ | clientClose _ => exact ha.elim
  | exit => exact work_exit hx
  | @epollWait fds p hr hk =>
    obtain ⟨hle, hlt⟩ := Kernel.edges_epollWait hb hi.kernel hk
    obtain ⟨-, -, -, hp⟩ := Kernel.epollWait_eq_some hk
    have hback : p.2.backlog = s.kernel.backlog := by rw [hp]
    have hunread : p.2.unread = s.kernel.unread := by rw [hp]; rfl
    simp only [State.work, hr, Reactor.batch, Reactor.weight, List.length_nil, hback, hunread]
    omega
  | batchEnd hr | skip hr | connection hr _ _ | acceptAgain hr _ =>
    simp only [State.work, hr, Reactor.batch, Reactor.weight, List.length_cons]
    omega
  | enqueue hr _ _ =>
    simp only [State.work, hr, Reactor.batch, Reactor.weight, List.length_cons, List.length_append,
      List.length_nil]
    omega
  | accept hr hk =>
    obtain ⟨rest, hback, -, hp⟩ := Kernel.accept_eq_some hk
    rw [hp]
    simp only [State.work, hr, hback, Reactor.batch, Reactor.weight, List.length_cons, Kernel.edges,
      Kernel.unread]
    omega
  | @ctlAdd lfd c cfd evs k hr hk =>
    have hle := Kernel.edges_ctlAdd_le hb hi.kernel hk
    obtain ⟨-, -, hk'⟩ := Kernel.ctlAdd_eq_some hk
    have hback : k.backlog = s.kernel.backlog := by rw [hk']
    have hunread : k.unread = s.kernel.unread := by rw [hk']; rfl
    simp only [State.work, hr, Reactor.batch, Reactor.weight, hback, hunread]
    omega
  | @pop w rev rest r hw hq _ =>
    have hset := total_set Worker.weight (.run rev r.client_fd .recv) hw
    simp only [State.work, State.setWorker, hq, List.length_cons]
    simp only [Worker.weight] at hset
    omega
  | @recvData w m rev cfd c chunk k hw hk hne =>
    have hset := total_set Worker.weight (.run rev cfd (.send c (fill chunk))) hw
    have hlt := Kernel.unread_recv hi.kernel hk hne
    obtain ⟨-, -, -, hk'⟩ := Kernel.recv_eq_data hk
    have hback : k.backlog = s.kernel.backlog := by rw [hk']
    have hedges : k.edges = s.kernel.edges := by rw [hk']; rfl
    simp only [State.work, State.setWorker, State.record, hback, hedges]
    simp only [Worker.weight] at hset
    omega
  | recvAgain hw _ _ =>
    have hset := total_set Worker.weight .idle hw
    simp only [State.work, State.setWorker, State.record]
    simp only [Worker.weight] at hset
    omega
  | @recvStop _ w rev cfd hw =>
    have hset := total_set Worker.weight (.run rev cfd .del) hw
    simp only [State.work, State.setWorker, State.record]
    simp only [Worker.weight] at hset
    omega
  | @send w res rev cfd src buf hw =>
    have hset := total_set Worker.weight (.run rev cfd .recv) hw
    simp only [State.work, State.setWorker, State.record]
    simp only [Worker.weight] at hset
    omega
  | @ctlDel w rev cfd k hw hk =>
    have hset := total_set Worker.weight (.run rev cfd .close) hw
    have hle : k.edges ≤ s.kernel.edges ∧ k.backlog = s.kernel.backlog ∧
        k.unread = s.kernel.unread := by
      rcases hk with hk | rfl
      · have hle := Kernel.edges_ctlDel_le hb hi.kernel hk
        obtain ⟨-, rfl⟩ := Kernel.ctlDel_eq_some hk
        exact ⟨hle, rfl, rfl⟩
      · exact ⟨le_rfl, rfl, rfl⟩
    simp only [State.work, State.setWorker, State.record, hle.2.1, hle.2.2]
    simp only [Worker.weight] at hset
    omega
  | @close w rev cfd hw =>
    have hset := total_set Worker.weight .idle hw
    have hle := Kernel.edges_close_le hb hi.kernel cfd
    have hback : (s.kernel.close cfd).backlog = s.kernel.backlog := rfl
    have hunread : (s.kernel.close cfd).unread = s.kernel.unread := rfl
    simp only [State.work, State.setWorker, State.record, hback, hunread]
    simp only [Worker.weight] at hset
    omega

/-- A process that is gone makes no step. -/
theorem stuck_of_exited (hr : s.reactor = .exited) (hw : s.workers = []) (ha : serverOnly s a) :
    step s a = none := by
  cases a <;> first | exact ha.elim | simp [step, reactorStep, workerStep, hr, hw]

theorem bounded_step (h : s.kernel.Bounded) (hs : step s a = some s') : s'.kernel.Bounded := by
  cases outcome_of_step hs with
  | connect => exact h.connect
  | clientSend hk => exact h.clientSend hk
  | clientClose hk => exact h.clientClose hk
  | epollWait _ hk => exact h.epollWait hk
  | accept _ hk => exact h.accept hk
  | exit => exact Kernel.exit_bounded _
  | ctlAdd _ hk => exact h.ctlAdd hk
  | recvData _ hk => exact h.recv hk
  | ctlDel _ hk =>
    rcases hk with hk | rfl
    · exact h.ctlDel hk
    · exact h
  | close _ => exact h.close _
  | _ => exact h

end Work

/-! ## Progress -/

/-- Nothing is left to do. -/
structure Settled (s : State) : Prop where
  reactor : s.reactor = .wait
  queue : s.task_queue = []
  workers : ∀ x ∈ s.workers, x = .idle
  backlog : s.kernel.backlog = []
  edge : ∀ fd, s.kernel.edge fd = false
  conns : ∀ {fd c}, s.kernel.files fd = some (.sock c) →
    (s.kernel.reg fd).isSome ∧ s.kernel.inbox c = [] ∧ s.kernel.eof c = false

section Progress

variable {n : ℕ} {s s' : State} {a : Act}

/-- A worker inside `data_handler` can go on. -/
theorem progress_worker {x : Worker} (hx : x ∈ s.workers) (hne : x ≠ .idle) :
    ∃ a, smooth s a ∧ (step s a).isSome := by
  obtain ⟨w, hw⟩ := List.mem_iff_getElem?.mp hx
  cases x with
  | idle => exact absurd rfl hne
  | run rev cfd pt =>
    cases pt with
    | recv =>
      refine ⟨.recv w 1, trivial, ?_⟩
      simp only [step, workerStep, hw]
      split
      · split <;> rfl
      · omega
    | send src buf => exact ⟨.send w none, trivial, by simp [step, workerStep, hw, Kernel.CanSend]⟩
    | del => exact ⟨.ctlDel w, trivial, by simp [step, workerStep, hw]⟩
    | close => exact ⟨.close w, trivial, by simp [step, workerStep, hw]⟩

/-- The reactor can go on, or it waits and there is no edge. -/
theorem progress_reactor (hb : s.kernel.Bounded) (h : Alive n s) :
    (∃ a, smooth s a ∧ (step s a).isSome) ∨
      s.reactor = .wait ∧ ∀ fd, s.kernel.edge fd = false := by
  have hpt := h.reactor
  cases hr : s.reactor with
  | exited =>
    rw [hr] at hpt
    exact hpt.elim
  | wait =>
    by_cases he : ∃ fd, s.kernel.edge fd = true
    · obtain ⟨fd, he⟩ := he
      refine .inl ⟨.epollWait [fd], trivial, ?_⟩
      simp [step, reactorStep, hr, Kernel.epollWait, he]
    · refine .inr ⟨rfl, fun fd => ?_⟩
      rw [← Bool.not_eq_true]
      exact fun hfd => he ⟨fd, hfd⟩
  | loop evs =>
    rw [hr] at hpt
    refine .inl ⟨.dispatch, trivial, ?_⟩
    cases evs with
    | nil => simp [step, reactorStep, hr]
    | cons e evs =>
      obtain ⟨rev, b⟩ := e
      have hh := hpt (rev, b) List.mem_cons_self
      cases b with
      | false => simp [step, reactorStep, hr]
      | true => simpa [step, reactorStep, hr, callback] using hh
  | accept lfd evs =>
    rw [hr] at hpt
    obtain ⟨rfl, -⟩ := hpt
    cases hq : s.kernel.backlog with
    | nil => exact .inl ⟨.acceptAgain, trivial, by simp [step, reactorStep, hr, hq]⟩
    | cons c rest =>
      obtain ⟨fd, hfd⟩ := hb.exists_lowestFree
      have hl : s.kernel.files sfd = some .listening := h.listening.mpr rfl
      refine .inl ⟨.accept fd, hfd, ?_⟩
      simp [step, reactorStep, hr, Kernel.accept, hq, hl, hfd.1]
  | add lfd c cfd evs =>
    refine .inl ⟨.ctlAdd, trivial, ?_⟩
    simp only [step, reactorStep, hr]
    split <;> rfl

/-- **Where no step is left, the server has settled.** -/
theorem settled_of_stuck (hn : 0 < n) (hi : Inv s) (hb : s.kernel.Bounded) (h : Alive n s)
    (hns : NoStall s) (hc : Covered s)
    (hh : ∀ {fd c}, s.kernel.files fd = some (.sock c) → Handled s fd)
    (hstuck : ∀ a, smooth s a → step s a = none) : Settled s := by
  have hno : ¬ ∃ a, smooth s a ∧ (step s a).isSome := by
    rintro ⟨a, ha, hs⟩
    rw [hstuck a ha] at hs
    cases hs
  have hidle : ∀ x ∈ s.workers, x = .idle := fun x hx => by
    by_contra hne
    exact hno (progress_worker hx hne)
  obtain ⟨hwait, hedge⟩ := (progress_reactor hb h).resolve_left hno
  have hqueue : s.task_queue = [] := by
    cases hq : s.task_queue with
    | nil => rfl
    | cons rev rest =>
      have hlt : 0 < s.workers.length := h.pool ▸ hn
      have hw : s.workers[0]? = some .idle := by
        rw [List.getElem?_eq_getElem hlt, hidle _ (List.getElem_mem hlt)]
      obtain ⟨fd, c, r, -, hr, -⟩ := hi.queue (hq ▸ List.mem_cons_self)
      refine absurd ⟨.pop 0, trivial, ?_⟩ hno
      simp [step, workerStep, hw, hq, hr]
  have hserved : ∀ {rev fd}, ¬ Served s rev fd := by
    rintro rev fd (hv | hv | ⟨pt, hv⟩)
    · rw [hwait] at hv
      cases hv
    · rw [hqueue] at hv
      cases hv
    · cases hidle _ hv
  have hnoedge : ∀ {fd}, s.kernel.edge fd ≠ true := fun he =>
    Bool.false_ne_true ((hedge _).symm.trans he)
  refine ⟨hwait, hqueue, hidle, ?_, hedge, fun {fd c} hfd => ?_⟩
  · by_contra hne
    rcases hns.listening (h.listening.mpr rfl) h.registered hne with he | hm | hacc
    · exact hnoedge he
    · rw [hwait] at hm
      cases hm
    · rw [hwait] at hacc
      cases hacc
  · have hreg : (s.kernel.reg fd).isSome := by
      rcases hh hfd with hreg | ⟨lfd, c', evs, hr⟩ | ⟨rev, hw⟩
      · exact hreg
      · rw [hwait] at hr
        cases hr
      · cases hidle _ hw
    obtain ⟨rev, hrev⟩ := Option.isSome_iff_exists.mp hreg
    have hquiet : s.kernel.ready (.sock c) ≠ true := fun hready =>
      (hc.sock hfd hrev hready).elim hnoedge hserved
    simpa [Kernel.ready, hreg] using hquiet

/-- A server that has settled makes no step. -/
theorem stuck_of_settled (h : Settled s) (ha : smooth s a) : step s a = none := by
  have hidle := getElem?_of_forall_eq h.workers
  cases a with
  | connect | clientSend | clientClose | acceptFail | ctlAddFail | recvFail => exact ha.elim
  | epollWait fds => simp [step, reactorStep, h.reactor, Kernel.epollWait_of_quiet h.edge]
  | dispatch | accept | acceptAgain | ctlAdd => simp [step, reactorStep, h.reactor]
  | pop w => rcases hidle w with e | e <;> simp [step, workerStep, h.queue, e]
  | recv w | send w | ctlDel w | close w =>
    rcases hidle w with e | e <;> simp [step, workerStep, e]

end Progress

/-! ## Whole runs -/

/-- What holds in every state that is reached. -/
structure Sound (n : ℕ) (s : State) : Prop where
  inv : Inv s
  bounded : s.kernel.Bounded
  noStall : NoStall s
  covered : Covered s
  handled : ∀ {fd c}, s.kernel.files fd = some (.sock c) → Handled s fd
  alive : s.reactor = .exited ∧ s.workers = [] ∨ Alive n s

section Runs

variable {n : ℕ} {s s' : State} {a : Act} {as bs : List Act}

theorem init_sound (n : ℕ) : Sound n (init n) where
  inv := init_inv n
  bounded := Kernel.boot_bounded ..
  noStall := init_noStall n
  covered := init_covered n
  handled hf := absurd hf (init_handled n)
  alive := .inr (init_alive n)

/-- A process that is gone stays so. -/
theorem exited_step (hr : s.reactor = .exited) (hw : s.workers = []) (hs : step s a = some s') :
    s'.reactor = .exited ∧ s'.workers = [] := by
  by_cases ha : serverOnly s a
  · rw [stuck_of_exited hr hw ha] at hs
    cases hs
  · cases outcome_of_step hs with
    | connect | clientSend _ | clientClose _ => exact ⟨hr, hw⟩
    | exit => exact ⟨rfl, rfl⟩
    | recvStop hslot =>
      rw [hw] at hslot
      cases hslot
    | _ => exact absurd trivial ha

theorem sound_step (h : Sound n s) (hs : step s a = some s') : Sound n s' where
  inv := inv_step h.inv hs
  bounded := bounded_step h.bounded hs
  noStall := noStall_step h.inv h.noStall hs
  covered := covered_step h.inv h.covered hs
  handled hf := handled_step h.handled hs hf
  alive := by
    rcases h.alive with ⟨hr, hw⟩ | ha
    · exact .inl (exited_step hr hw hs)
    · rcases alive_step h.inv ha hs with rfl | ha
      · exact .inl ⟨rfl, rfl⟩
      · exact .inr ha

theorem Sound.alive_of_ne (h : Sound n s) (hx : s.reactor ≠ .exited) : Alive n s :=
  h.alive.resolve_left fun he => hx he.1

/-- **Server 3 settles.**  From every state that is reached, and for every order of the steps, the
reactor and the workers make at most `work` steps while the clients do nothing; they stop exactly
where the server has settled. -/
theorem pool_settles (hn : 0 < n) (h : Run step free (init n) as s)
    (hr : Run step serverOnly s bs s') : bs.length ≤ s.work ∧
      (s'.reactor ≠ .exited → ((∀ a, smooth s' a → step s' a = none) ↔ Settled s')) := by
  have hsound : Sound n s := h.invariant (init_sound n) fun _ _ _ hS _ hs => sound_step hS hs
  have hsound' : Sound n s' := hr.invariant hsound fun _ _ _ hS _ hs => sound_step hS hs
  refine ⟨?_, fun hx => ⟨fun hstuck => ?_, fun hS a ha => stuck_of_settled hS ha⟩⟩
  · have := hr.length_le hsound fun s a s' hS ha hs => by
      refine ⟨sound_step hS hs, work_step hS.inv hS.bounded ?_ ha hs⟩
      intro he
      rcases hS.alive with ⟨hr, hw⟩ | hA
      · rw [stuck_of_exited hr hw ha] at hs
        cases hs
      · have hpt := hA.reactor
        rw [he] at hpt
        exact hpt
    omega
  · exact settled_of_stuck hn hsound'.inv hsound'.bounded (hsound'.alive_of_ne hx) hsound'.noStall
      hsound'.covered hsound'.handled hstuck

/-- Client 0 sends two bytes and closes, while client 1 connects and sends one. -/
def twoClients : List Act :=
  [.connect, .epollWait [4], .dispatch, .accept 5, .ctlAdd, .acceptAgain, .dispatch,
    .clientSend 0 [104, 105], .clientClose 0, .connect, .clientSend 1 [106]]

/-- Both are answered, and the number of client 0 is closed. -/
def twoAnswers : List Act :=
  [.epollWait [4, 5], .dispatch, .accept 6, .ctlAdd, .acceptAgain, .dispatch, .dispatch, .pop 0,
    .recv 0 1024, .epollWait [6], .dispatch, .pop 1, .recv 1 1024, .send 0 (some 1024),
    .send 1 (some 1024), .recv 1 1024, .dispatch, .recv 0 1024, .ctlDel 0, .close 0]

set_option maxRecDepth 8000 in
theorem pool_settles_two : ∃ s s', Run step free (init 2) twoClients s ∧
    Run step serverOnly s twoAnswers s' ∧ 20 ≤ s.work ∧ Settled s' ∧
      ∀ a, smooth s' a → step s' a = none := by
  obtain ⟨s, h, hrest⟩ : ∃ s, Run step free (init 2) twoClients s ∧
      ((exec step free s twoAnswers).any fun s' => decide (s'.reactor = .wait ∧
        s'.task_queue = [] ∧ s'.workers = [.idle, .idle] ∧ s'.kernel.backlog = [] ∧
        s'.kernel.conns = 2 ∧ s'.kernel.edge 4 = false ∧ s'.kernel.edge 6 = false ∧
        (s'.heap (.data 0)).map ReactorEvent.client_fd = some 5 ∧ s'.kernel.files 5 = none ∧
        s'.kernel.files 6 = some (.sock 1) ∧ (s'.kernel.reg 6).isSome ∧
        s'.kernel.inbox 1 = [] ∧ s'.kernel.eof 1 = false)) = true :=
    Run.exists_of_exec _ _ (by decide)
  obtain ⟨s', hr, hwait, hq, hw, hb, hconns, he4, he6, hbound, hf5, hf6, hreg6, hin, heof⟩ :=
    Run.exists_of_exec _ _ hrest
  have hrun : Run step serverOnly s twoAnswers s' := hr.of_forall_mem (by
    simp only [twoAnswers, List.forall_mem_cons]
    simp [serverOnly])
  have hS : Sound 2 s' := (h.append hr).invariant (init_sound 2) fun _ _ _ hS _ hs =>
    sound_step hS hs
  -- client 1 is the only one that is still connected
  have hopen : ∀ {fd c : ℕ}, s'.kernel.files fd = some (.sock c) → fd = 6 ∧ c = 1 := by
    intro fd c hf
    have hlt : c < 2 := hconns ▸ hS.inv.kernel.conn_lt hf
    obtain rfl | rfl : c = 0 ∨ c = 1 := by omega
    · obtain ⟨r, hheap, h5⟩ := Option.map_eq_some_iff.mp hbound
      obtain rfl : fd = 5 := ((hS.inv.bound hheap).2.2 fd hf).trans h5
      rw [hf5] at hf
      cases hf
    · exact ⟨hS.inv.kernel.sock_inj hf hf6, rfl⟩
  obtain ⟨hlen, hend⟩ := pool_settles (by decide) h hrun
  have hset : Settled s' := by
    refine ⟨hwait, hq, by simp [hw], hb, fun fd => ?_, fun hf => ?_⟩
    · rw [← Bool.not_eq_true]
      intro he
      obtain ⟨rev, hreg⟩ := Option.isSome_iff_exists.mp (hS.bounded.edge_reg he)
      rcases hS.inv.reg hreg with ⟨-, hl⟩ | ⟨c, -, -, hf⟩
      · obtain rfl := (hS.alive_of_ne (by simp [hwait])).listening.mp hl
        exact Bool.false_ne_true (he4.symm.trans he)
      · obtain ⟨rfl, -⟩ := hopen hf
        exact Bool.false_ne_true (he6.symm.trans he)
    · obtain ⟨rfl, rfl⟩ := hopen hf
      exact ⟨hreg6, hin, heof⟩
  exact ⟨s, s', h, hrun, hlen, hset, (hend (by simp [hwait])).mpr hset⟩

end Runs

end PracticeCode.Server3
