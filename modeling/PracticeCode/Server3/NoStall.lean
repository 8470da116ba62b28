import PracticeCode.Server3.Inv

/-!
# Server 3 does not stall a connection

With edge-triggered epoll a descriptor with unread bytes and no edge to come is never looked at
again.  `NoStall` says that this does not happen: the responsibility for unread bytes is with the
kernel (an undelivered edge), with the reactor (an event of the batch), with the pool (a task) or
with a worker inside `data_handler`, which leaves its loop on `EAGAIN` only.  The responsibility for
unaccepted connections is handled the same way, by `connection_handler`.

Numbers may be reused: what covers a number is the object registered for it, and that object is the
one of the connection the number refers to (`Inv.reg`).
-/

namespace PracticeCode.Server3

open Lib Linux

/-- A `data_handler` call on `rev`, bound to the number `fd`, is on its way or running. -/
def Served (s : State) (rev : RevPtr) (fd : Fd) : Prop :=
  (rev, true) ∈ s.reactor.batch ∨ rev ∈ s.task_queue ∨ ∃ pt, .run rev fd pt ∈ s.workers

/-- **No stalled descriptor.** -/
structure NoStall (s : State) : Prop where
  sock : ∀ {fd rev c}, s.kernel.files fd = some (.sock c) → s.kernel.reg fd = some rev →
    s.kernel.inbox c ≠ [] → s.kernel.edge fd = true ∨ Served s rev fd
  listening : ∀ {fd rev}, s.kernel.files fd = some .listening → s.kernel.reg fd = some rev →
    s.kernel.backlog ≠ [] →
    s.kernel.edge fd = true ∨ (rev, true) ∈ s.reactor.batch ∨ s.reactor.accepting = true

/-! ## How the calls on their way move -/

theorem Served.mono {s s' : State} {rev : RevPtr} {fd : Fd} (h : Served s rev fd)
    (hb : (rev, true) ∈ s.reactor.batch → (rev, true) ∈ s'.reactor.batch ∨ rev ∈ s'.task_queue)
    (hq : rev ∈ s.task_queue → rev ∈ s'.task_queue ∨ ∃ pt, .run rev fd pt ∈ s'.workers)
    (hw : ∀ pt, .run rev fd pt ∈ s.workers → ∃ pt, .run rev fd pt ∈ s'.workers) :
    Served s' rev fd := by
  rcases h with h | h | ⟨pt, h⟩
  · rcases hb h with h | h
    · exact .inl h
    · exact .inr (.inl h)
  · rcases hq h with h | h
    · exact .inr (.inl h)
    · exact .inr (.inr h)
  · exact .inr (.inr (hw pt h))

/-- Nothing that is on its way moves. -/
theorem Served.same {s s' : State} {rev : RevPtr} {fd : Fd} (h : Served s rev fd)
    (hb : s'.reactor.batch = s.reactor.batch) (hq : s'.task_queue = s.task_queue)
    (hw : s'.workers = s.workers) : Served s' rev fd := by
  unfold Served
  rw [hb, hq, hw]
  exact h

/-- A worker that goes on in `data_handler` keeps serving its descriptor. -/
theorem run_mem_set {l : List Worker} {w : ℕ} {rev rev' : RevPtr} {cfd fd : Fd}
    {pt pt' pt'' : Point} (hw : l[w]? = some (.run rev cfd pt)) (h : .run rev' fd pt'' ∈ l) :
    ∃ pt'', .run rev' fd pt'' ∈ l.set w (.run rev cfd pt') := by
  by_cases e : Worker.run rev' fd pt'' = .run rev cfd pt
  · cases e
    exact ⟨pt', mem_set_slot hw⟩
  · exact ⟨pt'', mem_set_of_ne hw h e⟩

theorem Served.setRun {s : State} {w : ℕ} {rev rev' : RevPtr} {cfd fd : Fd} {pt pt' : Point}
    (hw : s.workers[w]? = some (.run rev cfd pt)) (h : Served s rev' fd) :
    Served (s.setWorker w (.run rev cfd pt')) rev' fd :=
  h.mono .inl .inl fun _ hm => run_mem_set hw hm

/-- A worker that leaves `data_handler` gives up its own descriptor only. -/
theorem Served.setIdle {s : State} {w : ℕ} {rev rev' : RevPtr} {cfd fd : Fd} {pt : Point}
    (hw : s.workers[w]? = some (.run rev cfd pt)) (hne : fd ≠ cfd) (h : Served s rev' fd) :
    Served (s.setWorker w .idle) rev' fd := by
  refine h.mono .inl .inl fun pt' hm => ⟨pt', mem_set_of_ne hw hm ?_⟩
  rintro ⟨⟩
  exact hne rfl

/-! ## The steps -/

section Step

variable {s : State}

/-- Steps that leave the sockets alone, or only move bytes out, and lose no call on its way. -/
theorem NoStall.congr {s' : State} (h : NoStall s) (hf : s'.kernel.files = s.kernel.files)
    (hr : s'.kernel.reg = s.kernel.reg) (hb : s'.kernel.backlog = s.kernel.backlog)
    (hi : ∀ c, s'.kernel.inbox c ≠ [] → s.kernel.inbox c ≠ [])
    (he : s'.kernel.edge = s.kernel.edge) (hbatch : s'.reactor.batch = s.reactor.batch)
    (hacc : s'.reactor.accepting = s.reactor.accepting)
    (hs : ∀ {fd rev c}, s.kernel.files fd = some (.sock c) → s.kernel.reg fd = some rev →
      s'.kernel.inbox c ≠ [] → Served s rev fd → Served s' rev fd) : NoStall s' := by
  constructor
  · intro fd rev c hfd hreg hne
    rw [hf] at hfd
    rw [hr] at hreg
    rw [he]
    exact (h.sock hfd hreg (hi c hne)).imp_right (hs hfd hreg hne)
  · intro fd rev hfd hreg hne
    rw [hf] at hfd
    rw [hr] at hreg
    rw [hb] at hne
    rw [he, hbatch, hacc]
    exact h.listening hfd hreg hne

/-- An arrival: it raises the edge of what became readable, and nothing is lost. -/
theorem NoStall.arrival {k : Kernel RevPtr} {f : File} (h : NoStall s)
    (hf : k.files = s.kernel.files) (hr : k.reg = s.kernel.reg) (he : k.edge = s.kernel.edge)
    (hi : ∀ c, f ≠ .sock c → k.inbox c = s.kernel.inbox c)
    (hb : f ≠ .listening → k.backlog = s.kernel.backlog) :
    NoStall { s with kernel := k.raise f } := by
  have hedge : ∀ {fd}, s.kernel.edge fd = true → (k.raise f).edge fd = true := fun {fd} hfd =>
    Kernel.raise_edge_of_edge (by rw [he]; exact hfd)
  constructor
  · intro fd rev c hfd hreg hne
    by_cases e : f = .sock c
    · subst e
      exact .inl (Kernel.raise_edge_self hfd (Option.isSome_iff_exists.mpr ⟨rev, hreg⟩))
    · have hfd : s.kernel.files fd = some (.sock c) := by rw [← hf]; exact hfd
      have hreg : s.kernel.reg fd = some rev := by rw [← hr]; exact hreg
      have hne : s.kernel.inbox c ≠ [] := by rw [← hi c e]; exact hne
      exact (h.sock hfd hreg hne).imp_left hedge
  · intro fd rev hfd hreg hne
    by_cases e : f = .listening
    · subst e
      exact .inl (Kernel.raise_edge_self hfd (Option.isSome_iff_exists.mpr ⟨rev, hreg⟩))
    · have hfd : s.kernel.files fd = some .listening := by rw [← hf]; exact hfd
      have hreg : s.kernel.reg fd = some rev := by rw [← hr]; exact hreg
      have hne : s.kernel.backlog ≠ [] := by rw [← hb e]; exact hne
      exact (h.listening hfd hreg hne).imp_left hedge

/-- `epoll_wait` turns the edge of a readable descriptor into an event with `EPOLLIN`. -/
theorem NoStall.epollWait {fds : List Fd} {p : List Event × Kernel RevPtr} (h : NoStall s)
    (hw : s.reactor = .wait) (hk : s.kernel.epollWait 10 fds = some p) :
    NoStall { s with kernel := p.2, reactor := .loop p.1 } := by
  obtain ⟨-, -, hevs, hp⟩ := Kernel.epollWait_eq_some hk
  have hbatch : s.reactor.batch = [] := by rw [hw]; rfl
  -- an edge that is not returned stays; one that is returned for a readable file is an event
  have key : ∀ {fd rev}, s.kernel.reg fd = some rev → s.kernel.readyFd fd = true →
      s.kernel.edge fd = true → p.2.edge fd = true ∨ (rev, true) ∈ p.1 := by
    intro fd rev hreg hready hedge
    by_cases hm : fd ∈ fds
    · right
      rw [hevs]
      exact List.mem_filterMap.mpr ⟨fd, hm, by simp [Kernel.report, hreg, hready]⟩
    · left
      simp [hp, hedge, hm]
  constructor
  · intro fd rev c hfd hreg hne
    simp only [hp] at hfd hreg hne
    rcases h.sock hfd hreg hne with hedge | hs
    · exact (key hreg (by simp [Kernel.readyFd, hfd, Kernel.ready, hne]) hedge).imp_right .inl
    · right
      refine hs.mono (fun hm => ?_) .inl fun pt hm => ⟨pt, hm⟩
      rw [hbatch] at hm
      cases hm
  · intro fd rev hfd hreg hne
    simp only [hp] at hfd hreg hne
    rcases h.listening hfd hreg hne with hedge | hm | hacc
    · exact (key hreg (by simp [Kernel.readyFd, hfd, Kernel.ready, hne]) hedge).imp_right .inl
    · rw [hbatch] at hm
      cases hm
    · rw [hw] at hacc
      cases hacc

/-- The reactor calls back for the first event of the batch. -/
theorem NoStall.dispatch {s' : State} {rev : RevPtr} {b : Bool} {evs : List Event} (h : NoStall s)
    (hr : s.reactor = .loop ((rev, b) :: evs)) (hk : s'.kernel = s.kernel)
    (hw : s'.workers = s.workers) (hevs : s'.reactor.batch = evs)
    (hq : ∀ {rev'}, rev' ∈ s.task_queue → rev' ∈ s'.task_queue)
    (hsock : ∀ {fd c}, b = true → s.kernel.files fd = some (.sock c) →
      s.kernel.reg fd = some rev → rev ∈ s'.task_queue)
    (hlisten : ∀ {fd}, b = true → s.kernel.files fd = some .listening →
      s.kernel.reg fd = some rev → s'.reactor.accepting = true) : NoStall s' := by
  have hbatch : s.reactor.batch = (rev, b) :: evs := by rw [hr]; rfl
  constructor
  · intro fd rev' c hfd hreg hne
    rw [hk] at hfd hreg hne
    rw [hk]
    refine (h.sock hfd hreg hne).imp_right fun hs => hs.mono (fun hm => ?_) (.inl ∘ hq) fun pt hm =>
      ⟨pt, by rw [hw]; exact hm⟩
    rw [hbatch] at hm
    rcases List.mem_cons.mp hm with e | hm
    · cases e
      exact .inr (hsock rfl hfd hreg)
    · exact .inl (by rw [hevs]; exact hm)
  · intro fd rev' hfd hreg hne
    rw [hk] at hfd hreg hne
    rw [hk]
    refine (h.listening hfd hreg hne).imp_right fun hs => ?_
    rcases hs with hm | hacc
    · rw [hbatch] at hm
      rcases List.mem_cons.mp hm with e | hm
      · cases e
        exact .inr (hlisten rfl hfd hreg)
      · exact .inl (by rw [hevs]; exact hm)
    · rw [hr] at hacc
      cases hacc

/-- A step that unregisters the number `cfd` and changes no other number. -/
theorem NoStall.unregister {s' : State} (h : NoStall s) (cfd : Fd)
    (hf : ∀ fd, fd ≠ cfd → s'.kernel.files fd = s.kernel.files fd)
    (hr : s'.kernel.reg = Function.update s.kernel.reg cfd none)
    (he : s'.kernel.edge = Function.update s.kernel.edge cfd false)
    (hi : s'.kernel.inbox = s.kernel.inbox) (hb : s'.kernel.backlog = s.kernel.backlog)
    (hpc : s'.reactor = s.reactor)
    (hl : ∀ {rev fd}, fd ≠ cfd → Served s rev fd → Served s' rev fd) : NoStall s' := by
  have hne' : ∀ {fd rev}, s'.kernel.reg fd = some rev → fd ≠ cfd ∧ s.kernel.reg fd = some rev := by
    intro fd rev hreg
    rw [hr, Function.update_apply] at hreg
    split at hreg
    · cases hreg
    · exact ⟨‹_›, hreg⟩
  constructor
  · intro fd rev c hfd hreg hne
    obtain ⟨hfdne, hreg⟩ := hne' hreg
    rw [hf fd hfdne] at hfd
    rw [hi] at hne
    rw [he, Function.update_of_ne hfdne]
    exact (h.sock hfd hreg hne).imp_right (hl hfdne)
  · intro fd rev hfd hreg hne
    obtain ⟨hfdne, hreg⟩ := hne' hreg
    rw [hf fd hfdne] at hfd
    rw [hb] at hne
    rw [he, Function.update_of_ne hfdne, hpc]
    exact h.listening hfd hreg hne

/-- The new number is not registered yet, and `connection_handler` goes on. -/
theorem NoStall.accept (hi : Inv s) (h : NoStall s) {fd lfd : Fd} {evs : List Event}
    {p : Conn × Kernel RevPtr} (hr : s.reactor = .accept lfd evs)
    (hk : s.kernel.accept lfd fd = some p) :
    NoStall { s with kernel := p.2, reactor := .add lfd p.1 fd evs } := by
  obtain ⟨rest, hb, hfree, hp⟩ := Kernel.accept_eq_some hk
  have hbatch : s.reactor.batch = evs := by rw [hr]; rfl
  constructor
  · intro fd' rev c hfd hreg hne
    replace hreg : s.kernel.reg fd' = some rev := by simpa only [hp] using hreg
    have hnew : fd' ≠ fd := by
      rintro rfl
      have hnone := hi.kernel.reg_open hfree
      rw [hnone] at hreg
      cases hreg
    replace hfd : s.kernel.files fd' = some (.sock c) := by
      simpa only [hp, Function.update_of_ne hnew] using hfd
    replace hne : s.kernel.inbox c ≠ [] := by simpa only [hp] using hne
    have hedge : p.2.edge = s.kernel.edge := by rw [hp]
    rw [hedge]
    exact (h.sock hfd hreg hne).imp_right fun hv => hv.same hbatch.symm rfl rfl
  · intro fd' rev hfd hreg hne
    exact .inr (.inr rfl)

/-- `EPOLL_CTL_ADD` of a descriptor with unread bytes raises its edge. -/
theorem NoStall.ctlAdd (h : NoStall s) {lfd cfd : Fd} {c : Conn} {evs : List Event}
    {k : Kernel RevPtr} (hr : s.reactor = .add lfd c cfd evs)
    (hk : s.kernel.ctlAdd cfd (.data c) = some k) :
    NoStall { s with
      kernel := k
      heap := Function.update s.heap (.data c) (some ⟨efd, cfd, .data_handler_by_worker⟩)
      reactor := .accept lfd evs } := by
  obtain ⟨hopen, hnone, rfl⟩ := Kernel.ctlAdd_eq_some hk
  have hbatch : s.reactor.batch = evs := by rw [hr]; rfl
  constructor
  · intro fd rev c' hfd hreg hne
    simp only [Function.update_apply] at hreg ⊢
    split at hreg
    · rename_i e
      subst e
      left
      have hfd : s.kernel.files fd = some (.sock c') := hfd
      have hne : s.kernel.inbox c' ≠ [] := hne
      simp [Kernel.readyFd, hfd, Kernel.ready, hne]
    · rename_i e
      rw [if_neg e]
      exact (h.sock hfd hreg hne).imp_right fun hv => hv.same hbatch.symm rfl rfl
  · intro fd rev hfd hreg hne
    exact .inr (.inr rfl)

end Step

/-- **Every step keeps every unread byte covered.** -/
theorem noStall_step {s s' : State} {a : Act} (hi : Inv s) (h : NoStall s)
    (hs : step s a = some s') : NoStall s' := by
  cases outcome_of_step hs with
  | connect => exact h.arrival rfl rfl rfl (fun _ _ => rfl) fun e => absurd rfl e
  | @clientSend c bytes k hk =>
    obtain ⟨-, -, rfl⟩ := Kernel.clientSend_eq_some hk
    refine h.arrival rfl rfl rfl (fun c' hc' => ?_) fun _ => rfl
    exact Function.update_of_ne (fun e => hc' (by rw [e])) _ _
  | clientClose hk =>
    obtain ⟨-, -, rfl⟩ := Kernel.clientClose_eq_some hk
    exact h.arrival rfl rfl rfl (fun _ _ => rfl) fun _ => rfl
  | epollWait hr hk => exact h.epollWait hr hk
  | batchEnd hr =>
    exact h.congr rfl rfl rfl (fun _ hc => hc) rfl (by rw [hr]; rfl) (by rw [hr]; rfl)
      fun _ _ _ hv => hv.mono (fun hm => by rw [hr] at hm; cases hm) .inl fun pt hm => ⟨pt, hm⟩
  | skip hr => exact h.dispatch hr rfl rfl rfl id nofun nofun
  | @connection rev evs r hr hh hc =>
    refine h.dispatch hr rfl rfl rfl id ?_ fun _ _ _ => rfl
    intro fd c _ hfd hreg
    rcases hi.reg hreg with ⟨-, hl⟩ | ⟨c', rfl, -, -⟩
    · rw [hfd] at hl; cases hl
    · rw [(hi.bound hh).1] at hc; cases hc
  | @enqueue rev evs r hr hh hc =>
    refine h.dispatch hr rfl rfl rfl (List.mem_append_left _) (fun _ _ _ => by simp) ?_
    intro fd _ hfd hreg
    rcases hi.reg hreg with ⟨rfl, -⟩ | ⟨c', -, -, hl⟩
    · rw [hi.listen] at hh; cases hh; cases hc
    · rw [hfd] at hl; cases hl
  | accept hr hk => exact h.accept hi hr hk
  | @acceptAgain lfd evs hr hb =>
    have hbatch : s.reactor.batch = evs := by rw [hr]; rfl
    constructor
    · intro fd rev c hfd hreg hne
      exact (h.sock hfd hreg hne).imp_right fun hv => hv.same hbatch.symm rfl rfl
    · intro fd rev hfd hreg hne
      exact absurd hb hne
  | exit => exact ⟨nofun, nofun⟩
  | ctlAdd hr hk => exact h.ctlAdd hr hk
  | @pop w rev rest r hw hq hh =>
    refine h.congr rfl rfl rfl (fun _ hc => hc) rfl rfl rfl ?_
    intro fd rev' c hfd hreg hne hv
    refine hv.mono .inl (fun hm => ?_) fun pt hm => ⟨pt, mem_set_of_ne hw hm nofun⟩
    rw [hq] at hm
    rcases List.mem_cons.mp hm with rfl | hm
    · right
      rcases hi.reg hreg with ⟨-, hl⟩ | ⟨c', -, ⟨_, r', -, hr', rfl⟩, -⟩
      · rw [hfd] at hl; cases hl
      · rw [hh] at hr'
        cases hr'
        exact ⟨.recv, mem_set_slot hw⟩
    · exact .inl hm
  | @recvData w n rev cfd c chunk k hw hk =>
    obtain ⟨-, -, -, rfl⟩ := Kernel.recv_eq_data hk
    refine h.congr rfl rfl rfl (fun c' hc' => ?_) rfl rfl rfl fun _ _ _ hv => hv.setRun hw
    simp only [State.record, State.setWorker, Function.update_apply] at hc'
    split at hc'
    · rename_i e
      subst e
      rintro e
      simp [e] at hc'
    · exact hc'
  | @recvAgain w n rev cfd c hw hf hb =>
    refine h.congr rfl rfl rfl (fun _ hc => hc) rfl rfl rfl ?_
    intro fd rev' c' hfd hreg hne hv
    refine hv.setIdle hw ?_
    -- the worker saw `EAGAIN` on its own descriptor, which has nothing unread
    rintro rfl
    rw [hf] at hfd
    cases hfd
    exact hne hb
  | recvStop hw =>
    exact h.congr rfl rfl rfl (fun _ hc => hc) rfl rfl rfl fun _ _ _ hv => hv.setRun hw
  | send hw =>
    exact h.congr rfl rfl rfl (fun _ hc => hc) rfl rfl rfl fun _ _ _ hv => hv.setRun hw
  | @ctlDel w rev cfd k hw hk =>
    rcases hk with hk | rfl
    · obtain ⟨-, rfl⟩ := Kernel.ctlDel_eq_some hk
      exact h.unregister cfd (fun _ _ => rfl) rfl rfl rfl rfl rfl fun _ hv => hv.setRun hw
    · exact h.congr rfl rfl rfl (fun _ hc => hc) rfl rfl rfl fun _ _ _ hv => hv.setRun hw
  | @close w rev cfd hw =>
    exact h.unregister cfd (fun fd hne => Function.update_of_ne hne ..) rfl rfl rfl rfl rfl
      fun hne hv => hv.setIdle hw hne

theorem init_noStall (n : ℕ) : NoStall (init n) := by
  constructor
  · intro fd rev c _ _ hne; exact absurd rfl hne
  · intro fd rev _ _ hne; exact absurd rfl hne

/-- **Server 3 never stalls a descriptor**, for every number of workers and every interleaving. -/
theorem noStall {n : ℕ} {as : List Act} {s : State} (h : Run step free (init n) as s) :
    NoStall s := by
  have : Inv s ∧ NoStall s := h.invariant (I := fun s => Inv s ∧ NoStall s)
    ⟨init_inv n, init_noStall n⟩ fun _ _ _ hI _ hs => ⟨inv_step hI.1 hs, noStall_step hI.1 hI.2 hs⟩
  exact this.2

/-- A client that connects, is accepted and sends two bytes. -/
def unreadRun : List Act :=
  [.connect, .epollWait [4], .dispatch, .accept 5, .ctlAdd, .acceptAgain, .dispatch,
    .clientSend 0 [104, 105]]

theorem noStall_unread :
    ∃ s, Run step free (init 1) unreadRun s ∧ s.kernel.inbox 0 ≠ [] ∧ NoStall s := by
  obtain ⟨s, hr, hp⟩ : ∃ s, Run step free (init 1) unreadRun s ∧ s.kernel.inbox 0 ≠ [] :=
    Run.exists_of_exec _ _ (by decide)
  exact ⟨s, hr, hp, noStall hr⟩

end PracticeCode.Server3
