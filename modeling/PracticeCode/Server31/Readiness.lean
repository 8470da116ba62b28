import PracticeCode.Linux.KernelWork
import PracticeCode.Server31.Availability
import PracticeCode.Server31.Tokens

/-!
# Who is in charge of a connection of server 3.1

* `Alive`: as long as the process is there, the listening socket is open and registered;
* `InHand`: an open connection is bound, or `connection_handler` is about to bind it;
* `Covered`: for a connection in service with unread bytes or the end of the stream an edge is
  there, or an event in the batch, or its handler runs; and likewise for the listening socket.
-/

namespace PracticeCode.Server31

open Lib Linux

/-! ## The listening socket -/

structure Alive (n : ℕ) (s : State) : Prop where
  pool : s.workers.length = n
  listening : s.kernel.files sfd = some .listening
  registered : s.kernel.reg sfd = some .listen
  accepting : ∀ {lfd pt evs}, s.reactor = .conn lfd pt evs → lfd = sfd
  running : s.reactor ≠ .exited

section Alive

variable {n : ℕ} {s s' : State} {a : Act}

theorem init_alive (n : ℕ) : Alive n (init n) where
  pool := List.length_replicate ..
  listening := rfl
  registered := rfl
  accepting h := by cases h
  running h := by cases h

theorem pool_step (hs : step s a = some s') (hexit : s'.reactor ≠ .exited) :
    s'.workers.length = s.workers.length := by
  cases outcome_of_step hs with
  | pop | shiftReq | reqEmpty | pushRsp | write => exact List.length_set
  | exit => exact absurd rfl hexit
  | _ => rfl

/-- The reactor closes and unregisters the numbers of connections only. -/
theorem Inv.sfd_ne (hi : Inv s) (hl : s.kernel.files sfd = some .listening) {rev : RevPtr}
    {cfd rspfd : Fd} {pt : DataPoint} {evs : List Event}
    (hr : s.reactor = .data rev cfd rspfd pt evs) :
    (pt = .delClient ∨ pt = .closeClient → sfd ≠ cfd) ∧
      (pt = .delRsp ∨ pt = .closeRsp → sfd ≠ rspfd) := by
  obtain ⟨c, r, rfl, -, rfl, rfl, hat⟩ := hi.atData hr
  have hne : ∀ {fd f}, s.kernel.files fd = some f → f ≠ .listening → sfd ≠ fd := by
    rintro fd f hf hne rfl
    exact hne (Option.some.inj (hf.symm.trans hl))
  constructor
  · rintro (rfl | rfl)
    · exact hne (Serving.sock hat) nofun
    · exact hne hat.1.sock nofun
  · rintro (rfl | rfl)
    · exact hne hat.1.event nofun
    · exact hne hat.2.1 nofun

theorem listening_step (hi : Inv s) (h : s.kernel.files sfd = some .listening)
    (hs : step s a = some s') (hexit : s'.reactor ≠ .exited) :
    s'.kernel.files sfd = some .listening := by
  cases files_of_step hs with
  | same hf => rw [hf, h]
  | @accept fd _ _ _ _ _ hr hb hfree hf =>
    have hne : sfd ≠ fd := by
      rintro rfl
      rw [h] at hfree
      cases hfree
    rw [hf, Function.update_of_ne hne, h]
  | @eventfd fd _ _ _ _ _ hr hfree hc hf =>
    have hne : sfd ≠ fd := by
      rintro rfl
      rw [h] at hfree
      cases hfree
    rw [hf, Function.update_of_ne hne, h]
  | @close rev cfd rspfd fd pt evs _ hr hpt hf =>
    have hne : sfd ≠ fd := by
      rcases hpt with ⟨hpt, rfl⟩ | ⟨hpt, rfl⟩
      · exact (hi.sfd_ne h hr).1 (.inr hpt)
      · exact (hi.sfd_ne h hr).2 (.inr hpt)
    rw [hf, Function.update_of_ne hne, h]
  | exit => exact absurd rfl hexit

theorem accepting_step (hi : Inv s)
    (h : ∀ {lfd pt evs}, s.reactor = .conn lfd pt evs → lfd = sfd) (hs : step s a = some s')
    {lfd : Fd} {pt : ConnPoint} {evs : List Event} (hr' : s'.reactor = .conn lfd pt evs) :
    lfd = sfd := by
  cases outcome_of_step hs with
  | @connection rev _ r hr hh hc =>
    cases hr'
    cases rev with
    | listen =>
      rw [hi.listen] at hh
      cases hh
      rfl
    | data c =>
      rw [(hi.data hh).1] at hc
      cases hc
    | rsp c =>
      obtain ⟨r', -, rfl⟩ := hi.rsp hh
      cases hc
  | accept hr | eventfd hr | addClient hr | addRsp hr =>
    cases hr'
    exact h hr
  | connect | clientSend | clientClose | pop | shiftReq | reqEmpty | pushRsp | write => exact h hr'
  | epollWait | batchEnd | skip | dataEvent | rspEvent | acceptAgain | exit => cases hr'
  | recvData | recvEof | recvAgain | pushReq | addQueue | delClient | delRsp => cases hr'
  | closeClient | closeRsp | unbind | readOk | readStop | shiftRsp | rspEmpty | send => cases hr'

theorem alive_step (hi : Inv s) (h : Alive n s) (hs : step s a = some s')
    (hexit : s'.reactor ≠ .exited) : Alive n s' where
  pool := (pool_step hs hexit).trans h.pool
  listening := listening_step hi h.listening hs hexit
  registered := by
    rcases reg_of_step hs hexit h.registered with hreg | ⟨rev, cfd, rspfd, pt, evs, hr, hpt⟩
    · exact hreg
    · have hne := hi.sfd_ne h.listening hr
      rcases hpt with ⟨hpt, hfd, -⟩ | ⟨hpt, hfd, -⟩ | ⟨hpt, hfd, -⟩ | ⟨hpt, hfd⟩
      · exact absurd hfd (hne.1 (.inl hpt))
      · exact absurd hfd (hne.1 (.inr hpt))
      · exact absurd hfd (hne.2 (.inl hpt))
      · exact absurd hfd (hne.2 (.inr hpt))
  accepting := accepting_step hi h.accepting hs
  running := hexit

end Alive

/-! ## Open connections are bound -/

/-- Bound, or on the way in `connection_handler`. -/
def InHand (s : State) (c : Conn) (fd : Fd) : Prop :=
  s.heap (.data c) ≠ none ∨ (∃ lfd evs, s.reactor = .conn lfd (.eventfd c fd) evs) ∨
    ∃ lfd evfd evs, s.reactor = .conn lfd (.addClient c fd evfd) evs

section InHand

variable {s s' : State} {a : Act} {c : Conn} {fd : Fd}

theorem init_files (n : ℕ) : (init n).kernel.files fd ≠ some (.sock c) := by
  simp only [init, Kernel.boot]
  grind

theorem inHand_step (hi : Inv s)
    (h : ∀ {fd c}, s.kernel.files fd = some (.sock c) → InHand s c fd) (hs : step s a = some s')
    (hf' : s'.kernel.files fd = some (.sock c)) : InHand s' c fd := by
  rcases opened_of_step hs hf' with hf | ⟨rfl, c', lfd, evs, hc, hr, hb⟩ | ⟨-, _, _, _, _, hc, -⟩
  · rcases h hf with hb | ⟨lfd, evs, hr⟩ | ⟨lfd, evfd, evs, hr⟩
    · obtain ⟨r, hb⟩ := Option.ne_none_iff_exists'.mp hb
      exact .inl (by rw [heap_of_step hi hs hb]; nofun)
    · cases outcome_of_step hs with
      | connect | clientSend | clientClose => exact .inr (.inl ⟨lfd, evs, hr⟩)
      | pop | shiftReq | reqEmpty | pushRsp | write => exact .inr (.inl ⟨lfd, evs, hr⟩)
      | eventfd hr' =>
        rw [hr] at hr'
        cases hr'
        exact .inr (.inr ⟨_, _, _, rfl⟩)
      | exit => cases hf'
      | _ => simp_all
    · cases outcome_of_step hs with
      | connect | clientSend | clientClose => exact .inr (.inr ⟨lfd, evfd, evs, hr⟩)
      | pop | shiftReq | reqEmpty | pushRsp | write => exact .inr (.inr ⟨lfd, evfd, evs, hr⟩)
      | addClient hr' =>
        rw [hr] at hr'
        cases hr'
        exact .inl (by simp [State.bind])
      | exit => cases hf'
      | _ => simp_all
  · cases hc
    cases outcome_of_step hs with
    | accept hr' hk =>
      obtain ⟨rest, hb', -, -⟩ := Kernel.accept_eq_some hk
      rw [hb'] at hb
      cases hb
      exact .inr (.inl ⟨_, _, rfl⟩)
    | exit => cases hf'
  · cases hc

end InHand

/-! ## Readable connections are covered -/

/-- An event or the handler of `c` is going to read its socket. -/
def Reactor.Attends (c : Conn) (re : Reactor) : Prop :=
  (.data c, true) ∈ re.batch ∨ re.reading = some (.data c)

/-- `connection_handler` runs. -/
def Reactor.accepting : Reactor → Bool
  | .conn .. => true
  | _ => false

structure Covered (s : State) : Prop where
  sock : ∀ {c r}, Serving s c r → s.kernel.ready (.sock c) = true →
    s.kernel.edge r.client_fd = true ∨ s.reactor.Attends c
  listening : s.kernel.backlog ≠ [] →
    s.kernel.edge sfd = true ∨ (.listen, true) ∈ s.reactor.batch ∨ s.reactor.accepting = true

section Covered

variable {n : ℕ} {s s' : State} {a : Act} {c : Conn} {r : ReactorEvent}

theorem init_covered (n : ℕ) : Covered (init n) where
  sock h := by
    have := h.bound
    simp [init] at this
  listening h := absurd rfl h

theorem Reactor.Attends.goto {re re' : Reactor} (h : re.Attends c) (hb : re'.batch = re.batch)
    (hr : re'.reading = re.reading) : re'.Attends c := by
  unfold Reactor.Attends
  rw [hb, hr]
  exact h

/-- An event that is no event of `c` leaves those of `c` in the batch. -/
theorem Reactor.Attends.next {e : Event} {evs : List Event} {re : Reactor}
    (h : (Reactor.loop (e :: evs)).Attends c) (hb : re.batch = evs) (he : e ≠ (.data c, true)) :
    re.Attends c := by
  rcases h with h | h
  · refine .inl ?_
    rw [hb]
    exact (List.mem_cons.mp h).resolve_left fun e' => he e'.symm
  · cases h

/-- The handler of another connection is left. -/
theorem Reactor.Attends.leave {re re' : Reactor} (h : re.Attends c) (hb : re'.batch = re.batch)
    (hr : re.reading ≠ some (.data c)) : re'.Attends c :=
  .inl (hb ▸ h.resolve_right hr)

/-- The socket of a connection that is registered by now has its edge. -/
theorem edge_of_bound (hs : step s a = some s') (hnone : s.heap (.data c) = none)
    (h : Serving s' c r) (hready : s'.kernel.ready (.sock c) = true) :
    s'.kernel.edge r.client_fd = true := by
  have hne : s'.heap (.data c) ≠ none := by
    rw [h.bound]
    exact Option.some_ne_none r
  cases outcome_of_step hs with
  | @addClient lfd c₀ cfd evfd evs k hr hk =>
    obtain ⟨-, -, rfl⟩ := Kernel.ctlAdd_eq_some hk
    by_cases e : c = c₀
    · subst e
      obtain rfl : r = ⟨efd, cfd, evfd, some c, some c, .data_handler_by_worker⟩ :=
        h.unique (Function.update_self ..)
      have hf : s.kernel.files cfd = some (.sock c) := h.sock
      have hready : s.kernel.ready (.sock c) = true := hready
      simp [Kernel.readyFd, hf, hready]
    · exact absurd ((bind_heap_of_ne fun h => e (RevPtr.data.inj h)).trans hnone) hne
  | @addRsp _ c₀ cfd evfd =>
    have hh : (s.bind (.rsp c₀) c₀ cfd evfd .rsp_handler).heap (.data c) = s.heap (.data c) :=
      bind_heap_of_ne (by simp)
    exact absurd (hh.trans hnone) hne
  | _ => exact absurd hnone hne

/-- `data_handler_by_worker` leaves its loop only when there is nothing to read. -/
theorem not_ready_of_recvAgain {m : ℕ} {beyond : List UInt8} {rev : RevPtr} {cfd rspfd : Fd}
    {evs : List Event} (hr : s.reactor = .data rev cfd rspfd .recv evs)
    (hf : s.kernel.files cfd = some (.sock c))
    (hs : step s (.recv m beyond) = some { s with reactor := .loop evs }) :
    s.kernel.ready (.sock c) = false := by
  simp only [step, reactorStep, hr, data_handler_by_worker, Kernel.recv, hf] at hs
  split at hs
  · by_cases hin : s.kernel.inbox c = []
    · cases he : s.kernel.eof c with
      | false => simp [Kernel.ready, hin, he]
      | true => simp [hin, he] at hs
    · simp [hin, State.record] at hs
  · cases hs

theorem ready_of_readU64 {fd : Fd}
    (h : (s.kernel.readU64 fd).2.ready (.sock c) = true) : s.kernel.ready (.sock c) = true := by
  unfold Kernel.readU64 at h
  split at h
  · split at h <;> exact h
  · split at h
    · rename_i c' hf hne
      by_cases e : c = c'
      · simp [Kernel.ready, e, hne]
      · simpa [Kernel.ready, Function.update_of_ne e] using h
    · split at h <;> exact h
  · exact h

theorem ready_of_writeU64 {fd : Fd}
    (h : (s.kernel.writeU64 fd).ready (.sock c) = true) : s.kernel.ready (.sock c) = true := by
  unfold Kernel.writeU64 at h
  split at h
  · split at h <;> exact h
  · exact h

/-- An arrival: it raises the edge of the connection it is for. -/
theorem Covered.arrival (h : Covered s) (hR : Ready s) (hserv : Serving s c r) {k : Kernel RevPtr}
    {f : File} (hf : k.files = s.kernel.files) (hr : k.reg = s.kernel.reg)
    (he : k.edge = s.kernel.edge)
    (hy : f ≠ .sock c → k.ready (.sock c) = s.kernel.ready (.sock c))
    (hready : (k.raise f).ready (.sock c) = true) :
    (k.raise f).edge r.client_fd = true ∨ s.reactor.Attends c := by
  by_cases e : f = .sock c
  · rcases hR.client hserv with hd | hreg
    · exact .inr (.inr (reading_of_deleted hd))
    · refine .inl (Kernel.raise_edge_self (by rw [hf, e]; exact hserv.sock) ?_)
      rw [hr, hreg]
      rfl
  · have hready : s.kernel.ready (.sock c) = true := by
      rw [← hy e]
      exact hready
    exact (h.sock hserv hready).imp_left fun hedge =>
      Kernel.raise_edge_of_edge (by rw [he]; exact hedge)

/-- `epoll_wait` turns the edge of a readable socket into an event with `EPOLLIN`. -/
theorem Covered.epollWait (h : Covered s) (hR : Ready s) (hserv : Serving s c r)
    {fds : List Fd} {p : List Event × Kernel RevPtr} (hr : s.reactor = .wait)
    (hk : s.kernel.epollWait 10 fds = some p) (hready : s.kernel.ready (.sock c) = true) :
    p.2.edge r.client_fd = true ∨ (Reactor.loop p.1).Attends c := by
  obtain ⟨-, -, hevs, hp⟩ := Kernel.epollWait_eq_some hk
  have hedge : s.kernel.edge r.client_fd = true := by
    rcases h.sock hserv hready with he | he | he
    · exact he
    · rw [hr] at he
      cases he
    · rw [hr] at he
      cases he
  have hreg := (hR.client hserv).resolve_left (by rw [hr]; nofun)
  by_cases hm : r.client_fd ∈ fds
  · refine .inr (.inl ?_)
    simp only [Reactor.batch, hevs]
    refine List.mem_filterMap.mpr ⟨r.client_fd, hm, ?_⟩
    simp [Kernel.report, hreg, Kernel.readyFd, hserv.sock, hready]
  · exact .inl (by simp [hp, hedge, hm])

theorem sock_step (hi : Inv s) (hR : Ready s) (h : Covered s) (hs : step s a = some s')
    (hserv' : Serving s' c r) (hready : s'.kernel.ready (.sock c) = true) :
    s'.kernel.edge r.client_fd = true ∨ s'.reactor.Attends c := by
  cases hb : s.heap (.data c) with
  | none => exact .inl (edge_of_bound hs hb hserv' hready)
  | some r₀ =>
  have hserv := serving_before hi hs hb hserv'
  have hcov := h.sock hserv
  have hsock := hserv.sock
  cases outcome_of_step hs with
  | connect => exact h.arrival hR hserv rfl rfl rfl (fun _ => rfl) hready
  | @clientSend c' bytes k hk =>
    obtain ⟨-, -, rfl⟩ := Kernel.clientSend_eq_some hk
    refine h.arrival hR hserv rfl rfl rfl (fun hne => ?_) hready
    have hne : c ≠ c' := fun e => hne (by rw [e])
    simp [Kernel.ready, Function.update_of_ne hne]
  | @clientClose c' k hk =>
    obtain ⟨-, -, rfl⟩ := Kernel.clientClose_eq_some hk
    refine h.arrival hR hserv rfl rfl rfl (fun hne => ?_) hready
    have hne : c ≠ c' := fun e => hne (by rw [e])
    simp [Kernel.ready, Function.update_of_ne hne]
  | pop | shiftReq | reqEmpty | pushRsp => exact hcov hready
  | write => exact (hcov (ready_of_writeU64 hready)).imp_left Kernel.writeU64_edge_of_edge
  | epollWait hr hk =>
    refine h.epollWait hR hserv hr hk ?_
    obtain ⟨-, -, -, hp⟩ := Kernel.epollWait_eq_some hk
    rw [hp] at hready
    exact hready
  | batchEnd hr =>
    refine (hcov hready).imp_right fun hw => ?_
    rw [hr] at hw
    rcases hw with hw | hw <;> cases hw
  | skip hr => exact (hcov hready).imp_right fun hw => (hr ▸ hw).next rfl (by simp)
  | connection hr hh hc | rspEvent hr hh hc =>
    refine (hcov hready).imp_right fun hw => (hr ▸ hw).next rfl fun e => ?_
    cases e
    rw [(hi.data hh).1] at hc
    cases hc
  | @dataEvent rev evs r' hr hh hc =>
    refine (hcov hready).imp_right fun hw => ?_
    by_cases e : rev = .data c
    · exact .inr (by rw [e]; rfl)
    · exact (hr ▸ hw).next rfl (by simp [e])
  | accept hr hk =>
    obtain ⟨rest, -, -, hp⟩ := Kernel.accept_eq_some hk
    rw [hp] at hready ⊢
    exact (hcov hready).imp_right fun hw => (hr ▸ hw).goto rfl rfl
  | acceptAgain hr => exact (hcov hready).imp_right fun hw => (hr ▸ hw).goto rfl rfl
  | eventfd hr hk =>
    obtain ⟨-, rfl⟩ := Kernel.eventfd_eq_some hk
    exact (hcov hready).imp_right fun hw => (hr ▸ hw).goto rfl rfl
  | @addClient lfd c₀ cfd evfd evs k hr hk =>
    have hpt := hi.point
    rw [hr] at hpt
    obtain ⟨-, -, rfl⟩ := Kernel.ctlAdd_eq_some hk
    have hne := ne_of_files hsock hpt.2.2.1 fun e => by
      obtain rfl := File.sock.inj e
      rw [hpt.1] at hb
      cases hb
    exact (hcov hready).imp (edge_update hne) fun hw => (hr ▸ hw).goto rfl rfl
  | addRsp hr hk =>
    have hpt := hi.point
    rw [hr] at hpt
    obtain ⟨-, r₁, hserv₁, rfl⟩ := hpt
    obtain ⟨-, -, rfl⟩ := Kernel.ctlAdd_eq_some hk
    have hne := ne_of_files hsock hserv₁.event (by simp)
    exact (hcov hready).imp (edge_update hne) fun hw => (hr ▸ hw).goto rfl rfl
  | @recvData m beyond rev cfd rspfd evs c' chunk k hr hk =>
    obtain ⟨hf, hne, -, rfl⟩ := Kernel.recv_eq_data hk
    have hready : s.kernel.ready (.sock c) = true := by
      by_cases e : c = c'
      · simp [Kernel.ready, e, hne]
      · simpa [State.record, Kernel.ready, Function.update_of_ne e] using hready
    exact (hcov hready).imp_right fun hw => (hr ▸ hw).goto rfl rfl
  | recvEof hr | pushReq hr | addQueue hr =>
    exact (hcov hready).imp_right fun hw => (hr ▸ hw).goto rfl rfl
  | @recvAgain m beyond rev cfd rspfd evs hr =>
    refine (hcov hready).imp_right fun hw => (hr ▸ hw).leave rfl fun e => ?_
    obtain ⟨q, r₁, rfl, hb₁, rfl, rfl, -⟩ := hi.atData hr
    obtain rfl := RevPtr.data.inj (Option.some.inj e)
    rw [hserv.unique hb₁] at hsock
    exact Bool.false_ne_true ((not_ready_of_recvAgain hr hsock hs).symm.trans hready)
  | delClient hr hk =>
    obtain ⟨q, r₁, rfl, hb₁, rfl, rfl, hserv₁⟩ := hi.atData hr
    obtain ⟨-, rfl⟩ := Kernel.ctlDel_eq_some hk
    by_cases e : q = c
    · exact .inr (.inr (by rw [e]; rfl))
    · have hne := ne_of_files hsock (Serving.sock hserv₁) fun h' => e (File.sock.inj h').symm
      exact (hcov hready).imp (edge_update hne) fun hw => (hr ▸ hw).goto rfl rfl
  | delRsp hr hk =>
    obtain ⟨q, r₁, rfl, hb₁, rfl, rfl, hserv₁, -⟩ := hi.atData hr
    obtain ⟨-, rfl⟩ := Kernel.ctlDel_eq_some hk
    have hne := ne_of_files hsock hserv₁.event (by simp)
    exact (hcov hready).imp (edge_update hne) fun hw => (hr ▸ hw).goto rfl rfl
  | closeClient hr =>
    obtain ⟨q, r₁, rfl, hb₁, rfl, rfl, hserv₁, -⟩ := hi.atData hr
    by_cases e : q = c
    · subst e
      obtain rfl := hserv.unique hb₁
      exact (not_serving_of_close hserv').elim
    · have hne := ne_of_files hsock hserv₁.sock fun h' => e (File.sock.inj h').symm
      exact (hcov hready).imp (edge_update hne) fun hw => (hr ▸ hw).goto rfl rfl
  | closeRsp hr =>
    obtain ⟨q, r₁, rfl, hb₁, rfl, rfl, -, hev, -⟩ := hi.atData hr
    have hne := ne_of_files hsock hev (by simp)
    exact (hcov hready).imp (edge_update hne) fun hw => (hr ▸ hw).goto rfl rfl
  | unbind hr =>
    obtain ⟨q, r₁, rfl, -, -, -, hno, -⟩ := hi.atData hr
    refine (hcov hready).imp_right fun hw => (hr ▸ hw).leave rfl fun e => ?_
    obtain rfl := RevPtr.data.inj (Option.some.inj e)
    exact hno _ hsock
  | @readOk rev cfd evfd evs k hr hk =>
    obtain rfl : k = (s.kernel.readU64 evfd).2 := by rw [hk]
    simp only [Kernel.readU64_edge]
    exact (hcov (ready_of_readU64 hready)).imp_right fun hw => (hr ▸ hw).goto rfl rfl
  | @readStop rev cfd evfd evs u k hr hk =>
    obtain rfl : k = (s.kernel.readU64 evfd).2 := by rw [hk]
    simp only [Kernel.readU64_edge]
    exact (hcov (ready_of_readU64 hready)).imp_right fun hw => (hr ▸ hw).goto rfl rfl
  | shiftRsp hr | rspEmpty hr | send hr =>
    exact (hcov hready).imp_right fun hw => (hr ▸ hw).goto rfl rfl
  | exit => cases hserv'.sock

/-- The edge of the listening socket, and its event. -/
theorem backlog_step (hi : Inv s) (h : Covered s) (hA : Alive n s) (hs : step s a = some s')
    (hexit : s'.reactor ≠ .exited) (hne : s'.kernel.backlog ≠ []) :
    s'.kernel.edge sfd = true ∨ (.listen, true) ∈ s'.reactor.batch ∨
      s'.reactor.accepting = true := by
  have hcov := h.listening
  have hl := hA.listening
  cases outcome_of_step hs with
  | connect =>
    refine .inl (Kernel.raise_edge_self hl ?_)
    change (s.kernel.reg sfd).isSome
    rw [hA.registered]
    rfl
  | clientSend hk =>
    obtain ⟨-, -, rfl⟩ := Kernel.clientSend_eq_some hk
    exact (hcov hne).imp_left Kernel.raise_edge_of_edge
  | clientClose hk =>
    obtain ⟨-, -, rfl⟩ := Kernel.clientClose_eq_some hk
    exact (hcov hne).imp_left Kernel.raise_edge_of_edge
  | pop | shiftReq | reqEmpty | pushRsp => exact hcov hne
  | write =>
    simp only [State.record, State.setWorker, Kernel.writeU64_backlog] at hne
    exact (hcov hne).imp_left Kernel.writeU64_edge_of_edge
  | @epollWait fds p hr hk =>
    obtain ⟨-, -, hevs, hp⟩ := Kernel.epollWait_eq_some hk
    simp only [hp] at hne ⊢
    rw [hr] at hcov
    rcases hcov hne with he | he | he
    · by_cases hm : sfd ∈ fds
      · refine .inr (.inl ?_)
        simp only [Reactor.batch, hevs]
        refine List.mem_filterMap.mpr ⟨sfd, hm, ?_⟩
        simp [Kernel.report, hA.registered, Kernel.readyFd, hl, Kernel.ready, hne]
      · exact .inl (by simp [he, hm])
    · cases he
    · cases he
  | batchEnd hr =>
    rw [hr] at hcov
    rcases hcov hne with he | he | he
    · exact .inl he
    · cases he
    · cases he
  | skip hr =>
    rw [hr] at hcov
    refine (hcov hne).imp_right (Or.imp_left fun he => ?_)
    exact (List.mem_cons.mp he).resolve_left (by simp)
  | connection => exact .inr (.inr rfl)
  | dataEvent hr hh hc | rspEvent hr hh hc =>
    rw [hr] at hcov
    rcases hcov hne with he | he | he
    · exact .inl he
    · refine .inr (.inl ((List.mem_cons.mp he).resolve_left fun e => ?_))
      cases e
      rw [hi.listen] at hh
      cases hh
      cases hc
    · cases he
  | accept | eventfd | addClient | addRsp => exact .inr (.inr rfl)
  | acceptAgain hr hb => exact absurd hb hne
  | recvData hr hk =>
    obtain ⟨-, -, -, rfl⟩ := Kernel.recv_eq_data hk
    rw [hr] at hcov
    exact hcov hne
  | recvEof hr | recvAgain hr | pushReq hr | addQueue hr | unbind hr =>
    rw [hr] at hcov
    exact hcov hne
  | delClient hr hk =>
    have hsfd := (hi.sfd_ne hl hr).1 (.inl rfl)
    obtain ⟨-, rfl⟩ := Kernel.ctlDel_eq_some hk
    rw [hr] at hcov
    exact (hcov hne).imp_left (edge_update hsfd)
  | delRsp hr hk =>
    have hsfd := (hi.sfd_ne hl hr).2 (.inl rfl)
    obtain ⟨-, rfl⟩ := Kernel.ctlDel_eq_some hk
    rw [hr] at hcov
    exact (hcov hne).imp_left (edge_update hsfd)
  | closeClient hr =>
    have hsfd := (hi.sfd_ne hl hr).1 (.inr rfl)
    rw [hr] at hcov
    exact (hcov hne).imp_left (edge_update hsfd)
  | closeRsp hr =>
    have hsfd := (hi.sfd_ne hl hr).2 (.inr rfl)
    rw [hr] at hcov
    exact (hcov hne).imp_left (edge_update hsfd)
  | @readOk rev cfd evfd evs k hr hk =>
    obtain rfl : k = (s.kernel.readU64 evfd).2 := by rw [hk]
    simp only [Kernel.readU64_backlog] at hne
    simp only [Kernel.readU64_edge]
    rw [hr] at hcov
    exact hcov hne
  | @readStop rev cfd evfd evs u k hr hk =>
    obtain rfl : k = (s.kernel.readU64 evfd).2 := by rw [hk]
    simp only [Kernel.readU64_backlog] at hne
    simp only [Kernel.readU64_edge]
    rw [hr] at hcov
    exact hcov hne
  | shiftRsp hr | rspEmpty hr | send hr =>
    rw [hr] at hcov
    exact hcov hne
  | exit => exact absurd rfl hexit

/-- **Every step keeps whatever is readable covered.** -/
theorem covered_step (hi : Inv s) (hR : Ready s) (hA : Alive n s) (h : Covered s)
    (hs : step s a = some s') (hexit : s'.reactor ≠ .exited) : Covered s' where
  sock hserv hready := sock_step hi hR h hs hserv hready
  listening hne := backlog_step hi h hA hs hexit hne

end Covered

end PracticeCode.Server31
