import PracticeCode.Server3.Outcome

/-!
# The bookkeeping invariant of server 3

* a registered number carries the `reactor_event` of the connection it refers to;
* a `reactor_event` is bound once, for an accepted connection, with the number `accept` gave it;
* the tasks of the pool are `data_handler` calls on bound objects, and a running worker has the
  `client_fd` of its object in `cfd`.
-/

namespace PracticeCode.Server3

open Lib Linux

/-- The object `rev` was bound for a connection, to the number `fd`. -/
def Bound (heap : RevPtr → Option ReactorEvent) (rev : RevPtr) (fd : Fd) : Prop :=
  ∃ c r, rev = .data c ∧ heap rev = some r ∧ r.client_fd = fd

structure Inv (s : State) : Prop where
  kernel : s.kernel.Wf
  listen : s.heap .listen = some ⟨efd, sfd, .connection_handler⟩
  bound : ∀ {c r}, s.heap (.data c) = some r → r.callback = .data_handler_by_worker ∧
    s.kernel.Accepted c ∧ ∀ fd, s.kernel.files fd = some (.sock c) → fd = r.client_fd
  reg : ∀ {fd rev}, s.kernel.reg fd = some rev →
    (rev = .listen ∧ s.kernel.files fd = some .listening) ∨
      ∃ c, rev = .data c ∧ Bound s.heap rev fd ∧ s.kernel.files fd = some (.sock c)
  adding : ∀ {lfd c cfd evs}, s.reactor = .add lfd c cfd evs → s.heap (.data c) = none ∧
    s.kernel.Accepted c ∧ (∀ fd, s.kernel.files fd = some (.sock c) → fd = cfd) ∧
    (s.kernel.files cfd = some (.sock c) ∨ s.kernel.files cfd = none)
  queue : ∀ {rev}, rev ∈ s.task_queue → ∃ fd, Bound s.heap rev fd
  workers : ∀ {rev cfd pt}, .run rev cfd pt ∈ s.workers → Bound s.heap rev cfd

theorem init_inv (n : ℕ) : Inv (init n) := by
  refine ⟨Kernel.boot_wf .., rfl, ?_, ?_, ?_, ?_, ?_⟩
  · intro c r h; simp [init] at h
  · intro fd rev h
    simp only [init, Kernel.boot] at h ⊢
    grind
  · intro lfd c cfd evs h; simp [init] at h
  · intro rev h; simp [init] at h
  · intro rev cfd pt h
    simp [init, List.mem_replicate] at h

section Frames

variable {s : State} {k : Kernel RevPtr}

/-- A kernel step that leaves the table and the interest list alone. -/
theorem Inv.withKernel (h : Inv s) (hk : k.Wf) (hf : k.files = s.kernel.files)
    (hr : k.reg = s.kernel.reg) (ha : ∀ c, s.kernel.Accepted c → k.Accepted c) :
    Inv { s with kernel := k } := by
  refine ⟨hk, h.listen, ?_, ?_, ?_, h.queue, h.workers⟩
  · intro c r hc
    obtain ⟨h1, h2, h3⟩ := h.bound hc
    exact ⟨h1, ha c h2, by simpa only [hf] using h3⟩
  · intro fd rev hreg
    simp only [hf]
    exact h.reg (by simpa only [hr] using hreg)
  · intro lfd c cfd evs hpc
    obtain ⟨h1, h2, h3, h4⟩ := h.adding hpc
    exact ⟨h1, ha c h2, by simpa only [hf] using h3, by simpa only [hf] using h4⟩

theorem Inv.setWorker (h : Inv s) {w : ℕ} {x : Worker}
    (hx : ∀ rev cfd pt, x = .run rev cfd pt → Bound s.heap rev cfd) : Inv (s.setWorker w x) := by
  refine ⟨h.kernel, h.listen, h.bound, h.reg, h.adding, h.queue, ?_⟩
  intro rev cfd pt hm
  rcases List.mem_or_eq_of_mem_set hm with hm | rfl
  · exact h.workers hm
  · exact hx _ _ _ rfl

theorem Inv.record (h : Inv s) (o : Op) : Inv (s.record o) :=
  ⟨h.kernel, h.listen, h.bound, h.reg, h.adding, h.queue, h.workers⟩

/-- The reactor moves on to a point outside `bind` and `EPOLL_CTL_ADD`. -/
theorem Inv.withReactor (h : Inv s) {r : Reactor} (hr : ∀ lfd c cfd evs, r ≠ .add lfd c cfd evs) :
    Inv { s with reactor := r } :=
  ⟨h.kernel, h.listen, h.bound, h.reg, fun hpc => absurd hpc (hr _ _ _ _), h.queue, h.workers⟩

theorem Inv.withQueue (h : Inv s) {q : List RevPtr} (hq : ∀ rev ∈ q, ∃ fd, Bound s.heap rev fd) :
    Inv { s with task_queue := q } :=
  ⟨h.kernel, h.listen, h.bound, h.reg, h.adding, fun hm => hq _ hm, h.workers⟩

theorem Inv.close (h : Inv s) (fd : Fd) : Inv { s with kernel := s.kernel.close fd } := by
  have hle : ∀ {a f}, (s.kernel.close fd).files a = some f → s.kernel.files a = some f := by
    intro a f ha
    simp only [Kernel.close, Function.update_apply] at ha
    grind
  refine ⟨h.kernel.close fd, h.listen, ?_, ?_, ?_, h.queue, h.workers⟩
  · intro c r hc
    obtain ⟨h1, h2, h3⟩ := h.bound hc
    exact ⟨h1, h2, fun a ha => h3 a (hle ha)⟩
  · intro a rev hreg
    simp only [Kernel.close, Function.update_apply] at hreg ⊢
    split at hreg
    · cases hreg
    · rename_i e
      simpa only [if_neg e] using h.reg hreg
  · intro lfd c cfd evs hpc
    obtain ⟨h1, h2, h3, h4⟩ := h.adding hpc
    refine ⟨h1, h2, fun a ha => h3 a (hle ha), ?_⟩
    simp only [Kernel.close, Function.update_apply]
    split
    · exact .inr rfl
    · exact h4

theorem Inv.ctlDel (h : Inv s) {fd : Fd} (hk : s.kernel.ctlDel fd = some k) :
    Inv { s with kernel := k } := by
  have hwf := h.kernel.ctlDel hk
  obtain ⟨-, rfl⟩ := Kernel.ctlDel_eq_some hk
  refine ⟨hwf, h.listen, h.bound, ?_, h.adding, h.queue, h.workers⟩
  intro a rev hreg
  simp only [Function.update_apply] at hreg
  split at hreg
  · cases hreg
  · exact h.reg hreg

theorem Inv.exit (h : Inv s) : Inv s.exit := by
  refine ⟨h.kernel.exit, h.listen, ?_, ?_, ?_, nofun, ?_⟩
  · intro c r hc
    obtain ⟨h1, h2, -⟩ := h.bound hc
    exact ⟨h1, h2, by simp [State.exit, Kernel.exit]⟩
  · intro fd rev hreg; simp [State.exit, Kernel.exit] at hreg
  · intro lfd c cfd evs hpc; simp [State.exit] at hpc
  · intro rev cfd pt hm; simp [State.exit] at hm

/-- `accept` took a connection that has no `reactor_event` yet. -/
theorem Inv.accept (h : Inv s) {lfd fd : Fd} {evs : List Event} {p : Conn × Kernel RevPtr}
    (hk : s.kernel.accept lfd fd = some p) :
    Inv { s with kernel := p.2, reactor := .add lfd p.1 fd evs } := by
  have hwf := h.kernel.accept hk
  have hold : ∀ {c}, s.kernel.Accepted c → c ≠ p.1 := fun hc e =>
    Kernel.not_accepted_of_accept hk (e ▸ hc)
  have hacc : ∀ {c}, s.kernel.Accepted c → p.2.Accepted c := fun hc => hc.accept hk
  obtain ⟨rest, hb, hfd, hp⟩ := Kernel.accept_eq_some hk
  have hfiles : p.2.files = Function.update s.kernel.files fd (some (.sock p.1)) := by rw [hp]
  have hself : p.2.files fd = some (.sock p.1) := by simp [hfiles]
  refine ⟨hwf, h.listen, ?_, ?_, ?_, h.queue, h.workers⟩
  · intro c r hc
    obtain ⟨h1, h2, h3⟩ := h.bound hc
    refine ⟨h1, hacc h2, fun a ha => h3 a ?_⟩
    simp only [hfiles, Function.update_apply] at ha
    split at ha
    · cases ha; exact absurd rfl (hold h2)
    · exact ha
  · intro a rev hreg
    replace hreg : s.kernel.reg a = some rev := by simpa only [hp] using hreg
    have hne : a ≠ fd := by
      rintro rfl
      have hnone := h.kernel.reg_open hfd
      rw [hnone] at hreg
      cases hreg
    simpa only [hfiles, Function.update_of_ne hne] using h.reg hreg
  · intro lfd' c cfd evs' hpc
    cases hpc
    refine ⟨?_, hwf.accepted_of_open hself, fun a ha => hwf.sock_inj ha hself, .inl hself⟩
    cases hh : s.heap (.data p.1) with
    | none => rfl
    | some r => exact absurd rfl (hold (h.bound hh).2.1)

/-- Binding a fresh connection and registering its number. -/
theorem Inv.ctlAdd (h : Inv s) {lfd c cfd : ℕ} {evs : List Event}
    (hpc : s.reactor = .add lfd c cfd evs) (hk : s.kernel.ctlAdd cfd (.data c) = some k) :
    Inv { s with
      kernel := k
      heap := Function.update s.heap (.data c) (some ⟨efd, cfd, .data_handler_by_worker⟩)
      reactor := .accept lfd evs } := by
  have hwf := h.kernel.ctlAdd hk
  obtain ⟨hopen, -, rfl⟩ := Kernel.ctlAdd_eq_some hk
  obtain ⟨hnone, hacc, honly, hfile⟩ := h.adding hpc
  have hfile : s.kernel.files cfd = some (.sock c) := hfile.resolve_right hopen
  have hkeep : ∀ {rev fd}, Bound s.heap rev fd → rev ≠ .data c := by
    rintro rev fd ⟨c', r, rfl, hr, -⟩ e
    rw [e, hnone] at hr
    cases hr
  have hbound : ∀ {rev fd}, Bound s.heap rev fd → ∃ c' r, rev = .data c' ∧
      Function.update s.heap (.data c) (some ⟨efd, cfd, .data_handler_by_worker⟩) rev = some r ∧
      r.client_fd = fd := by
    intro rev fd hb
    have hne := hkeep hb
    obtain ⟨c', r, e, hr, hfd⟩ := hb
    exact ⟨c', r, e, by rw [Function.update_of_ne hne]; exact hr, hfd⟩
  refine ⟨hwf, by simpa using h.listen, ?_, ?_, ?_, ?_, fun hm => hbound (h.workers hm)⟩
  · intro c' r hc
    simp only [Function.update_apply] at hc
    split at hc
    · rename_i e
      cases e
      cases hc
      exact ⟨rfl, hacc, honly⟩
    · exact h.bound hc
  · intro fd rev hreg
    simp only [Function.update_apply] at hreg
    split at hreg
    · rename_i e
      cases hreg
      subst e
      exact .inr ⟨c, rfl, ⟨c, _, rfl, Function.update_self .., rfl⟩, hfile⟩
    · rcases h.reg hreg with hl | ⟨c', e, hb, hf⟩
      · exact .inl hl
      · exact .inr ⟨c', e, hbound hb, hf⟩
  · intro lfd' c' cfd' evs' hpc'; cases hpc'
  · intro rev hm
    obtain ⟨fd, hb⟩ := h.queue hm
    exact ⟨fd, hbound hb⟩

end Frames

/-- A worker that stays in `data_handler` keeps its object. -/
theorem Inv.run_of_run {s : State} (h : Inv s) {w : ℕ} {rev : RevPtr} {cfd : Fd} {pt pt' : Point}
    (hw : s.workers[w]? = some (.run rev cfd pt)) :
    ∀ rev' cfd' pt'', Worker.run rev cfd pt' = .run rev' cfd' pt'' → Bound s.heap rev' cfd' := by
  rintro _ _ _ ⟨⟩
  exact h.workers (List.mem_of_getElem? hw)

theorem Inv.idle {s : State} :
    ∀ rev cfd pt, Worker.idle = .run rev cfd pt → Bound s.heap rev cfd := nofun

/-- **Every step keeps the bookkeeping.** -/
theorem inv_step {s s' : State} {a : Act} (h : Inv s) (hs : step s a = some s') : Inv s' := by
  cases outcome_of_step hs with
  | connect => exact h.withKernel h.kernel.connect rfl rfl fun _ hc => hc.connect
  | clientSend hk =>
    have hwf := h.kernel.clientSend hk
    obtain ⟨-, -, rfl⟩ := Kernel.clientSend_eq_some hk
    exact h.withKernel hwf rfl rfl fun _ hc => hc
  | clientClose hk =>
    have hwf := h.kernel.clientClose hk
    obtain ⟨-, -, rfl⟩ := Kernel.clientClose_eq_some hk
    exact h.withKernel hwf rfl rfl fun _ hc => hc
  | epollWait hr hk =>
    have hwf := h.kernel.epollWait hk
    obtain ⟨-, -, -, hp⟩ := Kernel.epollWait_eq_some hk
    have := h.withKernel hwf (by rw [hp]) (by rw [hp]) fun _ hc => by rw [hp]; exact hc
    exact this.withReactor nofun
  | batchEnd hr => exact h.withReactor nofun
  | skip hr => exact h.withReactor nofun
  | connection hr hh hc => exact h.withReactor nofun
  | @enqueue rev evs r hr hh hc =>
    have hq : Inv { s with task_queue := s.task_queue ++ [rev] } := by
      refine h.withQueue fun rev' hm => ?_
      rcases List.mem_append.mp hm with hm | hm
      · exact h.queue hm
      · cases List.mem_singleton.mp hm
        cases rev with
        | listen => rw [h.listen] at hh; cases hh; cases hc
        | data c => exact ⟨r.client_fd, c, r, rfl, hh, rfl⟩
    exact hq.withReactor nofun
  | accept hr hk => exact h.accept hk
  | acceptAgain hr hb => exact h.withReactor nofun
  | exit => exact h.exit
  | ctlAdd hr hk => exact h.ctlAdd hr hk
  | @pop w rev rest r hw hq hh =>
    have hq' : Inv { s with task_queue := rest } := h.withQueue fun rev' hm =>
      h.queue (by rw [hq]; exact List.mem_cons_of_mem _ hm)
    refine hq'.setWorker ?_
    rintro _ _ _ ⟨⟩
    have hmem : rev ∈ s.task_queue := by simp [hq]
    obtain ⟨fd, c, r', e, hr', hfd⟩ := h.queue hmem
    rw [hh] at hr'
    cases hr'
    exact ⟨c, r, e, hh, rfl⟩
  | @recvData w n rev cfd c chunk k hw hk =>
    obtain rfl : k = (s.kernel.recv cfd n).2 := by rw [hk]
    have hk : Inv { s with kernel := (s.kernel.recv cfd n).2 } :=
      h.withKernel (h.kernel.recv _ _) (by simp) (by simp) fun _ hc => by
        simpa [Kernel.Accepted] using hc
    exact (hk.setWorker (h.run_of_run hw)).record _
  | recvAgain hw _ _ => exact (h.setWorker Inv.idle).record _
  | recvStop hw => exact (h.setWorker (h.run_of_run hw)).record _
  | send hw => exact (h.setWorker (h.run_of_run hw)).record _
  | ctlDel hw hk =>
    rcases hk with hk | rfl
    · exact ((h.ctlDel hk).setWorker (h.run_of_run hw)).record _
    · exact (h.setWorker (h.run_of_run hw)).record _
  | close hw => exact ((h.close _).setWorker Inv.idle).record _

/-! ## What stays over a step -/

theorem Bound.unique {heap : RevPtr → Option ReactorEvent} {rev : RevPtr} {fd fd' : Fd}
    (h : Bound heap rev fd) (h' : Bound heap rev fd') : fd = fd' := by
  obtain ⟨c, r, -, hr, rfl⟩ := h
  obtain ⟨c', r', -, hr', rfl⟩ := h'
  rw [hr] at hr'
  cases hr'
  rfl

/-- An object is bound once. -/
theorem heap_of_step {s s' : State} {a : Act} {c : Conn} {r : ReactorEvent} (hi : Inv s)
    (hs : step s a = some s') (h : s.heap (.data c) = some r) : s'.heap (.data c) = some r := by
  cases outcome_of_step hs with
  | @ctlAdd lfd c' cfd evs k hr hk =>
    have hne : RevPtr.data c ≠ .data c' := by
      intro e
      rw [e, (hi.adding hr).1] at h
      cases h
    simpa only [Function.update_of_ne hne] using h
  | _ => exact h

theorem Bound.of_step {s s' : State} {a : Act} {rev : RevPtr} {fd : Fd} (hi : Inv s)
    (hs : step s a = some s') (h : Bound s.heap rev fd) : Bound s'.heap rev fd := by
  obtain ⟨c, r, rfl, hr, hfd⟩ := h
  exact ⟨c, r, rfl, heap_of_step hi hs hr, hfd⟩

/-- **How a step moves the descriptor table.** -/
inductive Files (s : State) : Act → State → Prop
  | same {a s'} : s'.kernel.files = s.kernel.files → Files s a s'
  | accept {fd c rest s'} : s.kernel.backlog = c :: rest → s.kernel.files fd = none →
      s'.kernel.files = Function.update s.kernel.files fd (some (.sock c)) → Files s (.accept fd) s'
  | close {w rev cfd s'} : s.workers[w]? = some (.run rev cfd .close) →
      s'.kernel.files = Function.update s.kernel.files cfd none →
      s'.workers = s.workers.set w .idle → s'.reactor = s.reactor → s'.task_queue = s.task_queue →
      Files s (.close w) s'
  | exit {a} : Files s a s.exit

theorem files_of_step {s s' : State} {a : Act} (hs : step s a = some s') : Files s a s' := by
  cases outcome_of_step hs with
  | clientSend hk =>
    obtain ⟨-, -, rfl⟩ := Kernel.clientSend_eq_some hk
    exact .same rfl
  | clientClose hk =>
    obtain ⟨-, -, rfl⟩ := Kernel.clientClose_eq_some hk
    exact .same rfl
  | epollWait hr hk =>
    obtain ⟨-, -, -, hp⟩ := Kernel.epollWait_eq_some hk
    exact .same (by rw [hp])
  | accept hr hk =>
    obtain ⟨rest, hb, hfree, hp⟩ := Kernel.accept_eq_some hk
    exact .accept hb hfree (by rw [hp])
  | exit => exact .exit
  | ctlAdd hr hk =>
    obtain ⟨-, -, rfl⟩ := Kernel.ctlAdd_eq_some hk
    exact .same rfl
  | recvData hw hk =>
    obtain ⟨-, -, -, rfl⟩ := Kernel.recv_eq_data hk
    exact .same rfl
  | ctlDel hw hk =>
    rcases hk with hk | rfl
    · obtain ⟨-, rfl⟩ := Kernel.ctlDel_eq_some hk
      exact .same rfl
    · exact .same rfl
  | close hw => exact .close hw rfl rfl rfl rfl
  | _ => exact .same rfl

/-- Only `close` and the end of the process take a connection off its number. -/
theorem open_of_step {s s' : State} {a : Act} {fd : Fd} {c : Conn} (hs : step s a = some s')
    (h : s.kernel.files fd = some (.sock c)) :
    s'.kernel.files fd = some (.sock c) ∨ s' = s.exit ∨
      ∃ w rev, a = .close w ∧ s.workers[w]? = some (.run rev fd .close) ∧
        s'.workers = s.workers.set w .idle ∧ s'.reactor = s.reactor ∧
        s'.task_queue = s.task_queue := by
  cases files_of_step hs with
  | same hf => exact .inl (by rw [hf]; exact h)
  | @accept fd' c' rest _ hb hfree hf =>
    have hne : fd ≠ fd' := by rintro rfl; rw [hfree] at h; cases h
    exact .inl (by rw [hf, Function.update_of_ne hne]; exact h)
  | @close w rev cfd _ hw hf hworkers hr hq =>
    by_cases e : fd = cfd
    · subst e
      exact .inr (.inr ⟨w, rev, rfl, hw, hworkers, hr, hq⟩)
    · exact .inl (by rw [hf, Function.update_of_ne e]; exact h)
  | exit => exact .inr (.inl rfl)

/-- Only `accept` puts a connection on a number. -/
theorem opened_of_step {s s' : State} {a : Act} {fd : Fd} {c : Conn} (hs : step s a = some s')
    (h : s'.kernel.files fd = some (.sock c)) :
    s.kernel.files fd = some (.sock c) ∨
      (a = .accept fd ∧ s.kernel.backlog.head? = some c ∧ s.kernel.files fd = none) := by
  cases files_of_step hs with
  | same hf => exact .inl (hf ▸ h)
  | accept hb hfree hf =>
    rw [hf, Function.update_apply] at h
    split at h
    · rename_i e
      cases h
      exact .inr ⟨by rw [e], by rw [hb]; rfl, by rw [e]; exact hfree⟩
    · exact .inl h
  | close hw hf =>
    rw [hf, Function.update_apply] at h
    split at h
    · cases h
    · exact .inl h
  | exit => cases h

/-- A connection that has an object and no number never gets one again. -/
theorem closed_of_step {s s' : State} {a : Act} {c : Conn} (hi : Inv s) (hs : step s a = some s')
    (hc : s.heap (.data c) ≠ none) (h : ∀ fd, s.kernel.files fd ≠ some (.sock c)) :
    ∀ fd, s'.kernel.files fd ≠ some (.sock c) := by
  intro fd hf
  rcases opened_of_step hs hf with hf | ⟨-, hb, -⟩
  · exact h fd hf
  · obtain ⟨r, hr⟩ := Option.ne_none_iff_exists'.mp hc
    exact (hi.bound hr).2.1.2 (List.mem_of_mem_head? hb)

/-- Connections stay accepted. -/
theorem accepted_of_step {s s' : State} {a : Act} {c : ℕ} (hs : step s a = some s')
    (h : s.kernel.Accepted c) : s'.kernel.Accepted c := by
  cases outcome_of_step hs with
  | connect => exact h.connect
  | clientSend hk =>
    obtain ⟨-, -, rfl⟩ := Kernel.clientSend_eq_some hk
    exact h
  | clientClose hk =>
    obtain ⟨-, -, rfl⟩ := Kernel.clientClose_eq_some hk
    exact h
  | epollWait hr hk =>
    obtain ⟨-, -, -, hp⟩ := Kernel.epollWait_eq_some hk
    simpa only [Kernel.Accepted, hp] using h
  | accept hr hk => exact h.accept hk
  | ctlAdd hr hk =>
    obtain ⟨-, -, rfl⟩ := Kernel.ctlAdd_eq_some hk
    exact h
  | recvData hw hk =>
    obtain ⟨-, -, -, rfl⟩ := Kernel.recv_eq_data hk
    exact h
  | ctlDel hw hk =>
    rcases hk with hk | rfl
    · obtain ⟨-, rfl⟩ := Kernel.ctlDel_eq_some hk
      exact h
    · exact h
  | _ => exact h

/-- What a worker holds it held before, or it received it just now. -/
theorem send_mem_of_step {s s' : State} {a : Act} {rev : RevPtr} {cfd : Fd} {src : Conn}
    {buf : List UInt8} (hs : step s a = some s')
    (hm : .run rev cfd (.send src buf) ∈ s'.workers) :
    .run rev cfd (.send src buf) ∈ s.workers ∨
      ∃ w : ℕ, s.workers[w]? = some (.run rev cfd .recv) ∧
        s.kernel.files cfd = some (.sock src) := by
  cases outcome_of_step hs with
  | exit => cases hm
  | pop hw => exact .inl ((List.mem_or_eq_of_mem_set hm).resolve_right nofun)
  | recvData hw hk =>
    rcases List.mem_or_eq_of_mem_set hm with hm | e
    · exact .inl hm
    · cases e
      exact .inr ⟨_, hw, (Kernel.recv_eq_data hk).1⟩
  | recvAgain hw => exact .inl ((List.mem_or_eq_of_mem_set hm).resolve_right nofun)
  | recvStop hw => exact .inl ((List.mem_or_eq_of_mem_set hm).resolve_right nofun)
  | send hw => exact .inl ((List.mem_or_eq_of_mem_set hm).resolve_right nofun)
  | ctlDel hw => exact .inl ((List.mem_or_eq_of_mem_set hm).resolve_right nofun)
  | close hw => exact .inl ((List.mem_or_eq_of_mem_set hm).resolve_right nofun)
  | _ => exact .inl hm

end PracticeCode.Server3
