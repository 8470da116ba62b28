import PracticeCode.Linux.KernelWork
import PracticeCode.Server3.NoStall

/-!
# Who is in charge of a connection of server 3

As long as the process is there (`Alive`), the listening socket is open and registered, and no
worker closes it.

* `Handled`: an open connection is registered, or the reactor is about to register it, or a worker
  is about to close it;
* `Covered`: for a registered connection with unread bytes *or the end of the stream* an edge is
  there, or a call of `data_handler` is on its way.

`State.work` bounds the steps that the server can make by itself.
-/

namespace PracticeCode.Server3

open Lib Linux

/-! ## The process is there -/

/-- The reactor runs `connection_handler` for the listening socket only, and the events of its batch
are of bound objects. -/
def Reactor.Ok (heap : RevPtr → Option ReactorEvent) : Reactor → Prop
  | .wait => True
  | .loop evs => ∀ e ∈ evs, (heap e.1).isSome
  | .accept lfd evs => lfd = sfd ∧ ∀ e ∈ evs, (heap e.1).isSome
  | .add lfd _ cfd evs => lfd = sfd ∧ cfd ≠ sfd ∧ ∀ e ∈ evs, (heap e.1).isSome
  | .exited => False

structure Alive (n : ℕ) (s : State) : Prop where
  pool : s.workers.length = n
  listening : ∀ {fd}, s.kernel.files fd = some .listening ↔ fd = sfd
  registered : s.kernel.reg sfd = some .listen
  client_fd : ∀ {c r}, s.heap (.data c) = some r → r.client_fd ≠ sfd
  reactor : s.reactor.Ok s.heap

/-- An open connection is in somebody's hands. -/
def Handled (s : State) (fd : Fd) : Prop :=
  (s.kernel.reg fd).isSome ∨ (∃ lfd c evs, s.reactor = .add lfd c fd evs) ∨
    ∃ rev, .run rev fd .close ∈ s.workers

/-- Somebody will look at a connection that has something to read. -/
structure Covered (s : State) : Prop where
  sock : ∀ {fd rev c}, s.kernel.files fd = some (.sock c) → s.kernel.reg fd = some rev →
    s.kernel.ready (.sock c) = true → s.kernel.edge fd = true ∨ Served s rev fd

section Alive

variable {n : ℕ} {s s' : State} {a : Act}

theorem init_alive (n : ℕ) : Alive n (init n) where
  pool := List.length_replicate ..
  listening := by
    intro fd
    simp only [init, Kernel.boot]
    grind
  registered := rfl
  client_fd h := by cases h
  reactor := trivial

/-- A step that leaves the listening socket and the objects alone. -/
theorem Alive.congr (h : Alive n s) (hw : s'.workers.length = s.workers.length)
    (hf : ∀ fd, s'.kernel.files fd = some .listening ↔ s.kernel.files fd = some .listening)
    (hr : s'.kernel.reg sfd = s.kernel.reg sfd) (hh : s'.heap = s.heap)
    (hp : s'.reactor.Ok s.heap) : Alive n s' where
  pool := hw.trans h.pool
  listening := (hf _).trans h.listening
  registered := hr.trans h.registered
  client_fd := by
    rw [hh]
    exact h.client_fd
  reactor := by rwa [hh]

theorem Alive.ne_sfd (h : Alive n s) {rev : RevPtr} {fd : Fd} (hb : Bound s.heap rev fd) :
    fd ≠ sfd := by
  obtain ⟨c, r, rfl, hr, rfl⟩ := hb
  exact h.client_fd hr

/-- A worker deletes or closes its number, which is not the listening socket. -/
theorem Alive.drop (h : Alive n s) {cfd : Fd} (hne : cfd ≠ sfd)
    (hw : s'.workers.length = s.workers.length)
    (hf : s'.kernel.files = s.kernel.files ∨
      s'.kernel.files = Function.update s.kernel.files cfd none)
    (hr : s'.kernel.reg = Function.update s.kernel.reg cfd none) (hh : s'.heap = s.heap)
    (hp : s'.reactor = s.reactor) : Alive n s' := by
  refine h.congr hw (fun fd => ?_) ?_ hh (by rw [hp]; exact h.reactor)
  · rcases hf with hf | hf
    · rw [hf]
    · rw [hf, Function.update_apply]
      split
      · rename_i e
        rw [h.listening, e]
        exact ⟨nofun, fun hs => absurd hs hne⟩
      · rfl
  · rw [hr, Function.update_of_ne hne.symm]

theorem Reactor.Ok.mono {heap heap' : RevPtr → Option ReactorEvent} {r : Reactor}
    (h : r.Ok heap) (hle : ∀ rev, (heap rev).isSome → (heap' rev).isSome) : r.Ok heap' := by
  cases r with
  | wait => trivial
  | loop evs => exact fun e he => hle _ (h e he)
  | accept lfd evs => exact ⟨h.1, fun e he => hle _ (h.2 e he)⟩
  | add lfd c cfd evs => exact ⟨h.1, h.2.1, fun e he => hle _ (h.2.2 e he)⟩
  | exited => exact h

theorem Alive.accept (h : Alive n s) {fd lfd : Fd} {evs : List Event}
    {p : Conn × Kernel RevPtr} (hr : s.reactor = .accept lfd evs)
    (hk : s.kernel.accept lfd fd = some p) :
    Alive n { s with kernel := p.2, reactor := .add lfd p.1 fd evs } := by
  obtain ⟨rest, hb, hfree, hp⟩ := Kernel.accept_eq_some hk
  have hpt := h.reactor
  rw [hr] at hpt
  have hne : fd ≠ sfd := by
    rintro rfl
    have hl : s.kernel.files sfd = some .listening := h.listening.mpr rfl
    rw [hfree] at hl
    cases hl
  refine h.congr rfl (fun fd' => ?_) (by rw [hp]) rfl ⟨hpt.1, hne, hpt.2⟩
  rw [hp]
  simp only [Function.update_apply]
  split
  · rename_i e
    rw [h.listening, e]
    exact ⟨nofun, fun hs => absurd hs hne⟩
  · rfl

theorem Alive.ctlAdd (h : Alive n s) {lfd cfd : Fd} {c : Conn} {evs : List Event}
    {k : Kernel RevPtr} (hr : s.reactor = .add lfd c cfd evs)
    (hk : s.kernel.ctlAdd cfd (.data c) = some k) :
    Alive n { s with
      kernel := k
      heap := Function.update s.heap (.data c) (some ⟨efd, cfd, .data_handler_by_worker⟩)
      reactor := .accept lfd evs } := by
  obtain ⟨-, -, rfl⟩ := Kernel.ctlAdd_eq_some hk
  have hpt := h.reactor
  rw [hr] at hpt
  obtain ⟨hl, hne, hevs⟩ := hpt
  refine ⟨h.pool, h.listening, ?_, ?_, hl, fun e he => ?_⟩
  · exact (Function.update_of_ne hne.symm ..).trans h.registered
  · intro c' r hc
    simp only [Function.update_apply] at hc
    split at hc
    · cases hc
      exact hne
    · exact h.client_fd hc
  · simp only [Function.update_apply]
    split
    · rfl
    · exact hevs e he

/-- The events of a batch are of registered numbers. -/
theorem Inv.isSome_of_report (h : Inv s) {fd : Fd} {e : Event} (he : s.kernel.report fd = some e) :
    (s.heap e.1).isSome := by
  obtain ⟨rev, hreg, rfl⟩ := Option.map_eq_some_iff.mp he
  rcases h.reg hreg with ⟨rfl, -⟩ | ⟨c, rfl, ⟨_, _, -, hr, -⟩, -⟩
  · simp [h.listen]
  · simp [hr]

/-- The process ends, or the listening socket stays. -/
theorem alive_step (hi : Inv s) (h : Alive n s) (hs : step s a = some s') :
    s' = s.exit ∨ Alive n s' := by
  have hpt := h.reactor
  cases outcome_of_step hs with
  | exit => exact .inl rfl
  | connect => exact .inr (h.congr rfl (fun _ => Iff.rfl) rfl rfl hpt)
  | clientSend hk =>
    obtain ⟨-, -, rfl⟩ := Kernel.clientSend_eq_some hk
    exact .inr (h.congr rfl (fun _ => Iff.rfl) rfl rfl hpt)
  | clientClose hk =>
    obtain ⟨-, -, rfl⟩ := Kernel.clientClose_eq_some hk
    exact .inr (h.congr rfl (fun _ => Iff.rfl) rfl rfl hpt)
  | epollWait hr hk =>
    obtain ⟨-, -, hevs, hp⟩ := Kernel.epollWait_eq_some hk
    refine .inr (h.congr rfl (fun _ => by rw [hp]) (by rw [hp]) rfl fun e he => ?_)
    rw [hevs] at he
    obtain ⟨fd, -, hfd⟩ := List.mem_filterMap.mp he
    exact hi.isSome_of_report hfd
  | batchEnd hr => exact .inr (h.congr rfl (fun _ => Iff.rfl) rfl rfl trivial)
  | skip hr =>
    rw [hr] at hpt
    exact .inr (h.congr rfl (fun _ => Iff.rfl) rfl rfl fun e he =>
      hpt e (List.mem_cons_of_mem _ he))
  | @connection rev evs r hr hh hc =>
    rw [hr] at hpt
    refine .inr (h.congr rfl (fun _ => Iff.rfl) rfl rfl ⟨?_, fun e he =>
      hpt e (List.mem_cons_of_mem _ he)⟩)
    cases rev with
    | listen =>
      rw [hi.listen] at hh
      cases hh
      rfl
    | data c =>
      rw [(hi.bound hh).1] at hc
      cases hc
  | enqueue hr hh hc =>
    rw [hr] at hpt
    exact .inr (h.congr rfl (fun _ => Iff.rfl) rfl rfl fun e he =>
      hpt e (List.mem_cons_of_mem _ he))
  | accept hr hk => exact .inr (h.accept hr hk)
  | acceptAgain hr hb =>
    rw [hr] at hpt
    exact .inr (h.congr rfl (fun _ => Iff.rfl) rfl rfl hpt.2)
  | ctlAdd hr hk => exact .inr (h.ctlAdd hr hk)
  | pop hw hq hh => exact .inr (h.congr List.length_set (fun _ => Iff.rfl) rfl rfl hpt)
  | recvData hw hk =>
    obtain ⟨-, -, -, rfl⟩ := Kernel.recv_eq_data hk
    exact .inr (h.congr List.length_set (fun _ => Iff.rfl) rfl rfl hpt)
  | recvAgain hw hf hb => exact .inr (h.congr List.length_set (fun _ => Iff.rfl) rfl rfl hpt)
  | recvStop hw => exact .inr (h.congr List.length_set (fun _ => Iff.rfl) rfl rfl hpt)
  | send hw => exact .inr (h.congr List.length_set (fun _ => Iff.rfl) rfl rfl hpt)
  | ctlDel hw hk =>
    have hne := h.ne_sfd (hi.workers (List.mem_of_getElem? hw))
    rcases hk with hk | rfl
    · obtain ⟨-, rfl⟩ := Kernel.ctlDel_eq_some hk
      exact .inr (h.drop hne List.length_set (.inl rfl) rfl rfl rfl)
    · exact .inr (h.congr List.length_set (fun _ => Iff.rfl) rfl rfl hpt)
  | close hw =>
    have hne := h.ne_sfd (hi.workers (List.mem_of_getElem? hw))
    exact .inr (h.drop hne List.length_set (.inr rfl) rfl rfl rfl)

end Alive

/-! ## Open connections are handled -/

section Handled

variable {s s' : State} {a : Act}

theorem init_handled (n : ℕ) {fd : Fd} {c : Conn} :
    (init n).kernel.files fd ≠ some (.sock c) := by
  simp only [init, Kernel.boot]
  grind

/-- Nobody lets go. -/
theorem Handled.mono {fd : Fd} (h : Handled s fd)
    (hreg : (s.kernel.reg fd).isSome → Handled s' fd)
    (hr : ∀ lfd c evs, s.reactor = .add lfd c fd evs → Handled s' fd)
    (hw : ∀ rev, .run rev fd .close ∈ s.workers → .run rev fd .close ∈ s'.workers) :
    Handled s' fd := by
  rcases h with h | ⟨lfd, c, evs, h⟩ | ⟨rev, h⟩
  · exact hreg h
  · exact hr lfd c evs h
  · exact .inr (.inr ⟨rev, hw rev h⟩)

theorem Handled.same {fd : Fd} (h : Handled s fd) (hreg : s'.kernel.reg = s.kernel.reg)
    (hr : ∀ lfd c evs, s.reactor = .add lfd c fd evs → s'.reactor = s.reactor)
    (hw : ∀ rev, .run rev fd .close ∈ s.workers → .run rev fd .close ∈ s'.workers) :
    Handled s' fd :=
  h.mono (fun hs => .inl (by rwa [hreg])) (fun lfd c evs e =>
    .inr (.inl ⟨lfd, c, evs, (hr lfd c evs e).trans e⟩)) hw

/-- A worker that is not about to close goes on. -/
theorem Handled.work {fd : Fd} {w : ℕ} {x y : Worker} (h : Handled s fd)
    (hw : s.workers[w]? = some x) (hx : ∀ rev, x ≠ .run rev fd .close)
    (hreg : s'.kernel.reg = s.kernel.reg) (hr : s'.reactor = s.reactor)
    (hy : s'.workers = s.workers.set w y) : Handled s' fd :=
  h.same hreg (fun _ _ _ _ => hr) fun rev hm => by
    rw [hy]
    exact mem_set_of_ne hw hm (hx rev).symm

/-- **An open connection stays in somebody's hands.** -/
theorem handled_step (h : ∀ {fd c}, s.kernel.files fd = some (.sock c) → Handled s fd)
    (hs : step s a = some s') {fd : Fd} {c : Conn} (hf : s'.kernel.files fd = some (.sock c)) :
    Handled s' fd := by
  cases outcome_of_step hs with
  | exit => cases hf
  | connect => exact (h hf).same rfl (fun _ _ _ _ => rfl) fun _ hm => hm
  | clientSend hk =>
    obtain ⟨-, -, rfl⟩ := Kernel.clientSend_eq_some hk
    exact (h hf).same rfl (fun _ _ _ _ => rfl) fun _ hm => hm
  | clientClose hk =>
    obtain ⟨-, -, rfl⟩ := Kernel.clientClose_eq_some hk
    exact (h hf).same rfl (fun _ _ _ _ => rfl) fun _ hm => hm
  | epollWait hr hk =>
    obtain ⟨-, -, -, hp⟩ := Kernel.epollWait_eq_some hk
    simp only [hp] at hf
    refine (h hf).same (by rw [hp]) (fun _ _ _ e => ?_) fun _ hm => hm
    rw [hr] at e
    cases e
  | batchEnd hr | skip hr | connection hr _ _ | enqueue hr _ _ | acceptAgain hr _ =>
    refine (h hf).same rfl (fun _ _ _ e => ?_) fun _ hm => hm
    rw [hr] at e
    cases e
  | @accept fd' lfd evs p hr hk =>
    obtain ⟨rest, -, -, hp⟩ := Kernel.accept_eq_some hk
    by_cases e : fd = fd'
    · subst e
      exact .inr (.inl ⟨lfd, p.1, evs, rfl⟩)
    · simp only [hp, Function.update_of_ne e] at hf
      refine (h hf).same (by rw [hp]) (fun _ _ _ e => ?_) fun _ hm => hm
      rw [hr] at e
      cases e
  | @ctlAdd lfd c' cfd evs k hr hk =>
    obtain ⟨-, -, rfl⟩ := Kernel.ctlAdd_eq_some hk
    by_cases e : fd = cfd
    · exact .inl (by simp [e])
    · refine (h hf).mono (fun hs => .inl ?_) (fun lfd c evs e' => ?_) fun _ hm => hm
      · simpa only [Function.update_of_ne e] using hs
      · rw [hr] at e'
        cases e'
        exact absurd rfl e
  | pop hw _ _ => exact (h hf).work hw (fun _ => nofun) rfl rfl rfl
  | recvData hw hk =>
    obtain ⟨-, -, -, rfl⟩ := Kernel.recv_eq_data hk
    exact (h hf).work hw (fun _ => nofun) rfl rfl rfl
  | recvAgain hw _ _ | recvStop hw | send hw =>
    exact (h hf).work hw (fun _ => nofun) rfl rfl rfl
  | @ctlDel w rev cfd k hw hk =>
    rcases hk with hk | rfl
    · obtain ⟨-, rfl⟩ := Kernel.ctlDel_eq_some hk
      by_cases e : fd = cfd
      · subst e
        exact .inr (.inr ⟨rev, mem_set_slot hw⟩)
      · refine (h hf).mono (fun hs => .inl ?_) (fun lfd c evs e' => .inr (.inl ⟨lfd, c, evs, e'⟩))
          fun _ hm => mem_set_of_ne hw hm nofun
        exact (congrArg Option.isSome (Function.update_of_ne e none s.kernel.reg)).trans hs
    · exact (h hf).work hw (fun _ => nofun) rfl rfl rfl
  | @close w rev cfd hw =>
    have hne : fd ≠ cfd := by
      rintro rfl
      simp [State.record, State.setWorker, Kernel.close] at hf
    have hf : s.kernel.files fd = some (.sock c) := by
      simpa [State.record, State.setWorker, Kernel.close, hne] using hf
    refine (h hf).mono (fun hs => .inl ?_) (fun lfd c evs e' => .inr (.inl ⟨lfd, c, evs, e'⟩))
      fun rev' hm => mem_set_of_ne hw hm ?_
    · exact (congrArg Option.isSome (Function.update_of_ne hne none s.kernel.reg)).trans hs
    · rintro ⟨⟩
      exact hne rfl

end Handled

/-! ## Readable connections are covered -/

section Covered

variable {n : ℕ} {s s' : State} {a : Act}

theorem init_covered (n : ℕ) : Covered (init n) :=
  ⟨fun hf _ _ => absurd hf (init_handled n)⟩

/-- Steps that raise and consume no edge, and lose no call on its way. -/
theorem Covered.congr (h : Covered s) (hf : s'.kernel.files = s.kernel.files)
    (hr : s'.kernel.reg = s.kernel.reg) (he : s'.kernel.edge = s.kernel.edge)
    (hy : ∀ c, s'.kernel.ready (.sock c) = true → s.kernel.ready (.sock c) = true)
    (hs : ∀ {fd rev c}, s.kernel.files fd = some (.sock c) → s.kernel.reg fd = some rev →
      s'.kernel.ready (.sock c) = true → Served s rev fd → Served s' rev fd) : Covered s' := by
  constructor
  intro fd rev c hfd hreg hready
  rw [hf] at hfd
  rw [hr] at hreg
  rw [he]
  exact (h.sock hfd hreg (hy c hready)).imp_right (hs hfd hreg hready)

/-- An arrival on a connection raises its edge. -/
theorem Covered.arrival {k : Kernel RevPtr} {f : File} (h : Covered s)
    (hf : k.files = s.kernel.files) (hr : k.reg = s.kernel.reg) (he : k.edge = s.kernel.edge)
    (hy : ∀ c, f ≠ .sock c → k.ready (.sock c) = s.kernel.ready (.sock c)) :
    Covered { s with kernel := k.raise f } := by
  constructor
  intro fd rev c hfd hreg hready
  by_cases e : f = .sock c
  · subst e
    exact .inl (Kernel.raise_edge_self hfd (Option.isSome_iff_exists.mpr ⟨rev, hreg⟩))
  · have hfd : s.kernel.files fd = some (.sock c) := by rw [← hf]; exact hfd
    have hreg : s.kernel.reg fd = some rev := by rw [← hr]; exact hreg
    have hready : s.kernel.ready (.sock c) = true := by rw [← hy c e]; exact hready
    exact (h.sock hfd hreg hready).imp_left fun hedge =>
      Kernel.raise_edge_of_edge (by rw [he]; exact hedge)

/-- `epoll_wait` turns the edge of a readable connection into an event with `EPOLLIN`. -/
theorem Covered.epollWait {fds : List Fd} {p : List Event × Kernel RevPtr} (h : Covered s)
    (hw : s.reactor = .wait) (hk : s.kernel.epollWait 10 fds = some p) :
    Covered { s with kernel := p.2, reactor := .loop p.1 } := by
  obtain ⟨-, -, hevs, hp⟩ := Kernel.epollWait_eq_some hk
  constructor
  intro fd rev c hfd hreg hready
  simp only [hp] at hfd hreg
  replace hready : s.kernel.ready (.sock c) = true := by
    rw [hp] at hready
    exact hready
  rcases h.sock hfd hreg hready with hedge | hv
  · by_cases hm : fd ∈ fds
    · refine .inr (.inl ?_)
      simp only [Reactor.batch, hevs]
      refine List.mem_filterMap.mpr ⟨fd, hm, ?_⟩
      simp [Kernel.report, hreg, Kernel.readyFd, hfd, hready]
    · exact .inl (by simp [hp, hedge, hm])
  · refine .inr (hv.mono (fun hm => ?_) .inl fun pt hm => ⟨pt, hm⟩)
    rw [hw] at hm
    cases hm

/-- The reactor takes the first event of the batch. -/
theorem Covered.dispatch {rev : RevPtr} {b : Bool} {evs : List Event} (h : Covered s)
    (hr : s.reactor = .loop ((rev, b) :: evs)) (hk : s'.kernel = s.kernel)
    (hw : s'.workers = s.workers) (hevs : s'.reactor.batch = evs)
    (hq : ∀ {rev'}, rev' ∈ s.task_queue → rev' ∈ s'.task_queue)
    (hsock : ∀ {fd c}, b = true → s.kernel.files fd = some (.sock c) →
      s.kernel.reg fd = some rev → rev ∈ s'.task_queue) : Covered s' := by
  constructor
  intro fd rev' c hfd hreg hready
  rw [hk] at hfd hreg hready
  rw [hk]
  refine (h.sock hfd hreg hready).imp_right fun hv =>
    hv.mono (fun hm => ?_) (.inl ∘ hq) fun pt hm => ⟨pt, by rw [hw]; exact hm⟩
  rw [hr] at hm
  rcases List.mem_cons.mp hm with e | hm
  · cases e
    exact .inr (hsock rfl hfd hreg)
  · exact .inl (by rw [hevs]; exact hm)

/-- A number is unregistered, and no other changes. -/
theorem Covered.unregister (h : Covered s) (cfd : Fd)
    (hf : ∀ fd, fd ≠ cfd → s'.kernel.files fd = s.kernel.files fd)
    (hr : s'.kernel.reg = Function.update s.kernel.reg cfd none)
    (he : s'.kernel.edge = Function.update s.kernel.edge cfd false)
    (hy : ∀ c, s'.kernel.ready (.sock c) = s.kernel.ready (.sock c))
    (hl : ∀ {rev fd}, fd ≠ cfd → Served s rev fd → Served s' rev fd) : Covered s' := by
  constructor
  intro fd rev c hfd hreg hready
  have hne : fd ≠ cfd := by
    rintro rfl
    rw [hr, Function.update_self] at hreg
    cases hreg
  rw [hf fd hne] at hfd
  rw [hr, Function.update_of_ne hne] at hreg
  rw [hy] at hready
  rw [he, Function.update_of_ne hne]
  exact (h.sock hfd hreg hready).imp_right (hl hne)

theorem Covered.accept (hi : Inv s) (h : Covered s) {fd lfd : Fd} {evs : List Event}
    {p : Conn × Kernel RevPtr} (hr : s.reactor = .accept lfd evs)
    (hk : s.kernel.accept lfd fd = some p) :
    Covered { s with kernel := p.2, reactor := .add lfd p.1 fd evs } := by
  obtain ⟨rest, -, hfree, hp⟩ := Kernel.accept_eq_some hk
  have hbatch : s.reactor.batch = evs := by rw [hr]; rfl
  constructor
  intro fd' rev c hfd hreg hready
  replace hreg : s.kernel.reg fd' = some rev := by simpa only [hp] using hreg
  have hnew : fd' ≠ fd := by
    rintro rfl
    rw [hi.kernel.reg_open hfree] at hreg
    cases hreg
  replace hfd : s.kernel.files fd' = some (.sock c) := by
    simpa only [hp, Function.update_of_ne hnew] using hfd
  replace hready : s.kernel.ready (.sock c) = true := by
    rw [hp] at hready
    exact hready
  have hedge : p.2.edge = s.kernel.edge := by rw [hp]
  rw [hedge]
  exact (h.sock hfd hreg hready).imp_right fun hv => hv.same hbatch.symm rfl rfl

/-- `EPOLL_CTL_ADD` of a readable connection raises its edge. -/
theorem Covered.ctlAdd (h : Covered s) {lfd cfd : Fd} {c : Conn} {evs : List Event}
    {k : Kernel RevPtr} (hr : s.reactor = .add lfd c cfd evs)
    (hk : s.kernel.ctlAdd cfd (.data c) = some k) :
    Covered { s with
      kernel := k
      heap := Function.update s.heap (.data c) (some ⟨efd, cfd, .data_handler_by_worker⟩)
      reactor := .accept lfd evs } := by
  obtain ⟨-, -, rfl⟩ := Kernel.ctlAdd_eq_some hk
  have hbatch : s.reactor.batch = evs := by rw [hr]; rfl
  constructor
  intro fd rev c' hfd hreg hready
  replace hfd : s.kernel.files fd = some (.sock c') := hfd
  replace hready : s.kernel.ready (.sock c') = true := hready
  simp only [Function.update_apply] at hreg ⊢
  split at hreg
  · rename_i e
    subst e
    exact .inl (by simp [Kernel.readyFd, hfd, hready])
  · rename_i e
    rw [if_neg e]
    exact (h.sock hfd hreg hready).imp_right fun hv => hv.same hbatch.symm rfl rfl

/-- A worker leaves `data_handler` only on a connection with nothing to read. -/
theorem not_ready_of_recvAgain {w m : ℕ} {rev : RevPtr} {cfd : Fd} {c : Conn} {o : Op}
    (hw : s.workers[w]? = some (.run rev cfd .recv)) (hf : s.kernel.files cfd = some (.sock c))
    (hb : s.kernel.inbox c = [])
    (hs : step s (.recv w m) = some ((s.setWorker w .idle).record o)) :
    s.kernel.ready (.sock c) = false := by
  have hslot : ∀ x, (s.workers.set w x)[w]? = some x := by
    intro x
    obtain ⟨hlt, -⟩ := List.getElem?_eq_some_iff.mp hw
    exact List.getElem?_set_self hlt
  cases he : s.kernel.eof c with
  | false => simp [Kernel.ready, hb, he]
  | true =>
    simp only [step, workerStep, hw, Kernel.recv, hf, hb, he] at hs
    split at hs
    · have hset := congrArg State.workers (Option.some.inj hs)
      simp only [State.record, State.setWorker] at hset
      have := congrArg (fun l : List Worker => l[w]?) hset
      simp only [hslot] at this
      cases this
    · cases hs

/-- **Every step keeps every readable connection covered.** -/
theorem covered_step (hi : Inv s) (h : Covered s) (hs : step s a = some s') : Covered s' := by
  cases outcome_of_step hs with
  | exit => exact ⟨fun hfd => by cases hfd⟩
  | connect => exact h.arrival rfl rfl rfl fun _ _ => rfl
  | @clientSend c bytes k hk =>
    obtain ⟨-, -, rfl⟩ := Kernel.clientSend_eq_some hk
    refine h.arrival rfl rfl rfl fun c' hc' => ?_
    have hne : c' ≠ c := fun e => hc' (by rw [e])
    simp [Kernel.ready, Function.update_of_ne hne]
  | @clientClose c k hk =>
    obtain ⟨-, -, rfl⟩ := Kernel.clientClose_eq_some hk
    refine h.arrival rfl rfl rfl fun c' hc' => ?_
    have hne : c' ≠ c := fun e => hc' (by rw [e])
    simp [Kernel.ready, Function.update_of_ne hne]
  | epollWait hr hk => exact h.epollWait hr hk
  | batchEnd hr =>
    refine h.congr rfl rfl rfl (fun _ hc => hc) fun _ _ _ hv => ?_
    exact hv.same (by rw [hr]; rfl) rfl rfl
  | skip hr => exact h.dispatch hr rfl rfl rfl id (by simp)
  | @connection rev evs r hr hh hc =>
    refine h.dispatch hr rfl rfl rfl id fun {fd c} _ hfd hreg => ?_
    rcases hi.reg hreg with ⟨-, hl⟩ | ⟨c', rfl, -, -⟩
    · rw [hfd] at hl
      cases hl
    · rw [(hi.bound hh).1] at hc
      cases hc
  | enqueue hr hh hc =>
    exact h.dispatch hr rfl rfl rfl (List.mem_append_left _) fun _ _ _ => by simp
  | accept hr hk => exact h.accept hi hr hk
  | @acceptAgain lfd evs hr hb =>
    refine h.congr rfl rfl rfl (fun _ hc => hc) fun _ _ _ hv => ?_
    exact hv.same (by rw [hr]; rfl) rfl rfl
  | ctlAdd hr hk => exact h.ctlAdd hr hk
  | @pop w rev rest r hw hq hh =>
    refine h.congr rfl rfl rfl (fun _ hc => hc) fun {fd rev' c} hfd hreg _ hv => ?_
    refine hv.mono .inl (fun hm => ?_) fun pt hm => ⟨pt, mem_set_of_ne hw hm (by simp)⟩
    rw [hq] at hm
    rcases List.mem_cons.mp hm with rfl | hm
    · right
      rcases hi.reg hreg with ⟨-, hl⟩ | ⟨c', -, ⟨_, r', -, hr', rfl⟩, -⟩
      · rw [hfd] at hl
        cases hl
      · rw [hh] at hr'
        cases hr'
        exact ⟨.recv, mem_set_slot hw⟩
    · exact .inl hm
  | @recvData w m rev cfd c chunk k hw hk =>
    obtain ⟨-, hne, -, rfl⟩ := Kernel.recv_eq_data hk
    refine h.congr rfl rfl rfl (fun c' hc' => ?_) fun _ _ _ hv => hv.setRun hw
    by_cases e : c' = c
    · simp [Kernel.ready, e, hne]
    · simpa [State.record, State.setWorker, Kernel.ready, Function.update_of_ne e] using hc'
  | @recvAgain w m rev cfd c hw hf hb =>
    have hquiet := not_ready_of_recvAgain hw hf hb hs
    refine h.congr rfl rfl rfl (fun _ hc => hc) fun {fd rev' c'} hfd _ hready hv =>
      hv.setIdle hw ?_
    -- the worker saw `EAGAIN` on its own number
    rintro rfl
    rw [hf] at hfd
    cases hfd
    exact Bool.false_ne_true (hquiet.symm.trans hready)
  | recvStop hw => exact h.congr rfl rfl rfl (fun _ hc => hc) fun _ _ _ hv => hv.setRun hw
  | send hw => exact h.congr rfl rfl rfl (fun _ hc => hc) fun _ _ _ hv => hv.setRun hw
  | @ctlDel w rev cfd k hw hk =>
    rcases hk with hk | rfl
    · obtain ⟨-, rfl⟩ := Kernel.ctlDel_eq_some hk
      exact h.unregister cfd (fun _ _ => rfl) rfl rfl (fun _ => rfl) fun _ hv => hv.setRun hw
    · exact h.congr rfl rfl rfl (fun _ hc => hc) fun _ _ _ hv => hv.setRun hw
  | @close w rev cfd hw =>
    exact h.unregister cfd (fun fd hne => Function.update_of_ne hne ..) rfl rfl (fun _ => rfl)
      fun hne hv => hv.setIdle hw hne

end Covered

end PracticeCode.Server3
