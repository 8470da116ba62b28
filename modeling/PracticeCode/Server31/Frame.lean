import PracticeCode.Server31.Lifetime

/-!
# What a step of server 3.1 leaves alone

Each lemma names the steps that can change one part of the state: the heap, the descriptor table,
the batch, a connection in service, a counter, an edge.
-/

namespace PracticeCode.Server31

open Lib Linux

/-- **How a step moves the descriptor table.** -/
inductive Files (s : State) : Act → State → Prop
  | same {a s'} : s'.kernel.files = s.kernel.files → Files s a s'
  | accept {fd lfd c rest evs s'} : s.reactor = .conn lfd .accept evs →
      s.kernel.backlog = c :: rest → s.kernel.files fd = none →
      s'.kernel.files = Function.update s.kernel.files fd (some (.sock c)) → Files s (.accept fd) s'
  | eventfd {fd lfd c cfd evs s'} : s.reactor = .conn lfd (.eventfd c cfd) evs →
      s.kernel.files fd = none → s'.kernel.counter = Function.update s.kernel.counter c 0 →
      s'.kernel.files = Function.update s.kernel.files fd (some (.event c)) →
      Files s (.eventfd fd) s'
  | close {rev cfd rspfd fd pt evs s'} : s.reactor = .data rev cfd rspfd pt evs →
      (pt = .closeClient ∧ fd = cfd) ∨ (pt = .closeRsp ∧ fd = rspfd) →
      s'.kernel.files = Function.update s.kernel.files fd none → Files s .close s'
  | exit {a} : Files s a s.exit

/-- **How a step moves the connections**: which there are, which wait, and which are closed by the
client. -/
inductive Clients (k : Kernel RevPtr) : Kernel RevPtr → Prop
  | same {k'} : k'.conns = k.conns → k'.backlog = k.backlog → k'.eof = k.eof → Clients k k'
  | connect : Clients k k.connect
  | close {c k'} : k.clientClose c = some k' → Clients k k'
  | accept {lfd fd p} : k.accept lfd fd = some p → Clients k p.2

section

variable {s s' : State} {a : Act}

/-- The queues of an object are those of its connection. -/
theorem Inv.queues (hi : Inv s) {c : Conn} {r : ReactorEvent}
    (h : s.heap (.data c) = some r ∨ s.heap (.rsp c) = some r) :
    r.req_queue = some c ∧ r.rsp_queue = some c := by
  rcases h with h | h
  · exact ⟨(hi.data h).2.1, (hi.data h).2.2.1⟩
  · obtain ⟨r', hr', rfl⟩ := hi.rsp h
    exact ⟨(hi.data hr').2.1, (hi.data hr').2.2.1⟩

/-! The queue that a handler finds in its object names the connection the object is bound to. -/

section Queues

variable {w : ℕ} {rev : RevPtr} {pt : WorkPoint} {r : ReactorEvent} {q : Conn} {fd fd' : Fd}
  {evs : List Event}

theorem Inv.req_handler (hi : Inv s) {pt : DataPoint} (hr : s.reactor = .data rev fd fd' pt evs)
    (hh : s.heap rev = some r) (hq : r.req_queue = some q) : rev = .data q := by
  obtain ⟨c, _, rfl, -⟩ := hi.atData hr
  rw [(hi.queues (.inl hh)).1] at hq
  rw [Option.some.inj hq]

theorem Inv.req_worker (hi : Inv s) (hw : s.workers[w]? = some (.run rev pt))
    (hh : s.heap rev = some r) (hq : r.req_queue = some q) : rev = .data q := by
  obtain ⟨c, _, rfl, -⟩ := hi.workers (List.mem_of_getElem? hw)
  rw [(hi.queues (.inl hh)).1] at hq
  rw [Option.some.inj hq]

theorem Inv.rsp_worker (hi : Inv s) (hw : s.workers[w]? = some (.run rev pt))
    (hh : s.heap rev = some r) (hq : r.rsp_queue = some q) : rev = .data q := by
  obtain ⟨c, _, rfl, -⟩ := hi.workers (List.mem_of_getElem? hw)
  rw [(hi.queues (.inl hh)).2] at hq
  rw [Option.some.inj hq]

theorem Inv.rsp_handler (hi : Inv s) {pt : RspPoint} (hr : s.reactor = .rsp rev fd fd' pt evs)
    (hh : s.heap rev = some r) (hq : r.rsp_queue = some q) : rev = .rsp q := by
  obtain ⟨c, _, rfl, -⟩ := hi.atRsp hr
  rw [(hi.queues (.inr hh)).2] at hq
  rw [Option.some.inj hq]

end Queues

theorem Pending.isTask (hi : Inv s) {rev : RevPtr} (h : Pending s rev) : IsTask s.heap rev := by
  rcases h with h | ⟨x, hx, hr⟩
  · exact hi.queue h
  · cases x with
    | idle => cases hr
    | run rev' pt =>
      cases hr
      exact hi.workers hx

/-- An object is bound once. -/
theorem heap_of_step {p : RevPtr} {r : ReactorEvent} (hi : Inv s) (hs : step s a = some s')
    (h : s.heap p = some r) : s'.heap p = some r := by
  have hpt := hi.point
  cases outcome_of_step hs with
  | addClient hr =>
    rw [hr] at hpt
    exact heap_bind hpt.1 h
  | addRsp hr =>
    rw [hr] at hpt
    exact heap_bind hpt.1 h
  | _ => exact h

theorem files_of_step (hs : step s a = some s') : Files s a s' := by
  cases outcome_of_step hs with
  | clientSend hk =>
    obtain ⟨-, -, rfl⟩ := Kernel.clientSend_eq_some hk
    exact .same rfl
  | clientClose hk =>
    obtain ⟨-, -, rfl⟩ := Kernel.clientClose_eq_some hk
    exact .same rfl
  | epollWait hr hk =>
    obtain ⟨-, -, -, hp⟩ := Kernel.epollWait_eq_some hk
    exact .same (by rw [hp])
  | accept hr hk =>
    obtain ⟨rest, hb, hfree, hp⟩ := Kernel.accept_eq_some hk
    exact .accept hr hb hfree (by rw [hp])
  | eventfd hr hk =>
    obtain ⟨hfree, rfl⟩ := Kernel.eventfd_eq_some hk
    exact .eventfd hr hfree rfl rfl
  | addClient hr hk =>
    obtain ⟨-, -, rfl⟩ := Kernel.ctlAdd_eq_some hk
    exact .same rfl
  | addRsp hr hk =>
    obtain ⟨-, -, rfl⟩ := Kernel.ctlAdd_eq_some hk
    exact .same rfl
  | recvData hr hk =>
    obtain ⟨-, -, -, rfl⟩ := Kernel.recv_eq_data hk
    exact .same rfl
  | delClient hr hk =>
    obtain ⟨-, rfl⟩ := Kernel.ctlDel_eq_some hk
    exact .same rfl
  | delRsp hr hk =>
    obtain ⟨-, rfl⟩ := Kernel.ctlDel_eq_some hk
    exact .same rfl
  | closeClient hr => exact .close hr (.inl ⟨rfl, rfl⟩) rfl
  | closeRsp hr => exact .close hr (.inr ⟨rfl, rfl⟩) rfl
  | @readOk rev cfd evfd evs k hr hk =>
    obtain rfl : k = (s.kernel.readU64 evfd).2 := by rw [hk]
    exact .same (by simp)
  | @readStop rev cfd evfd evs u k hr hk =>
    obtain rfl : k = (s.kernel.readU64 evfd).2 := by rw [hk]
    exact .same (by simp)
  | write => exact .same (by simp [State.record, State.setWorker])
  | exit => exact .exit
  | _ => exact .same rfl

/-- The process does not come back. -/
theorem exited_of_step (hs : step s a = some s') (h : s.reactor = .exited) :
    s'.reactor = .exited := by
  cases outcome_of_step hs with
  | connect | clientSend | clientClose | pop | shiftReq | reqEmpty | pushRsp | write => exact h
  | exit => rfl
  | epollWait hr | batchEnd hr | skip hr | connection hr | dataEvent hr | rspEvent hr =>
    rw [h] at hr
    cases hr
  | accept hr | acceptAgain hr | eventfd hr | addClient hr | addRsp hr =>
    rw [h] at hr
    cases hr
  | recvData hr | recvEof hr | recvAgain hr | pushReq hr | addQueue hr | delClient hr =>
    rw [h] at hr
    cases hr
  | delRsp hr | closeClient hr | closeRsp hr | unbind hr =>
    rw [h] at hr
    cases hr
  | readOk hr | readStop hr | shiftRsp hr | rspEmpty hr | send hr =>
    rw [h] at hr
    cases hr

theorem clients_of_step (hs : step s a = some s') : Clients s.kernel s'.kernel := by
  cases outcome_of_step hs with
  | connect => exact .connect
  | clientSend hk =>
    obtain ⟨-, -, rfl⟩ := Kernel.clientSend_eq_some hk
    exact .same rfl rfl rfl
  | clientClose hk => exact .close hk
  | accept _ hk => exact .accept hk
  | epollWait _ hk =>
    obtain ⟨-, -, -, hp⟩ := Kernel.epollWait_eq_some hk
    exact .same (by rw [hp]) (by rw [hp]) (by rw [hp])
  | eventfd _ hk =>
    obtain ⟨-, rfl⟩ := Kernel.eventfd_eq_some hk
    exact .same rfl rfl rfl
  | addClient _ hk | addRsp _ hk =>
    obtain ⟨-, -, rfl⟩ := Kernel.ctlAdd_eq_some hk
    exact .same rfl rfl rfl
  | recvData _ hk =>
    obtain ⟨-, -, -, rfl⟩ := Kernel.recv_eq_data hk
    exact .same rfl rfl rfl
  | delClient _ hk | delRsp _ hk =>
    obtain ⟨-, rfl⟩ := Kernel.ctlDel_eq_some hk
    exact .same rfl rfl rfl
  | @readOk rev cfd evfd evs k _ hk =>
    obtain rfl : k = (s.kernel.readU64 evfd).2 := by rw [hk]
    exact .same (by simp) (by simp) (by simp)
  | @readStop rev cfd evfd evs u k _ hk =>
    obtain rfl : k = (s.kernel.readU64 evfd).2 := by rw [hk]
    exact .same (by simp) (by simp) (by simp)
  | write =>
    exact .same (Kernel.writeU64_conns ..) (Kernel.writeU64_backlog ..) (Kernel.writeU64_eof ..)
  | _ => exact .same rfl rfl rfl

/-- Connections stay accepted. -/
theorem accepted_of_step {c : ℕ} (hs : step s a = some s') (h : s.kernel.Accepted c) :
    s'.kernel.Accepted c := by
  have hk := clients_of_step hs
  generalize s'.kernel = k' at hk ⊢
  cases hk with
  | same hc hb _ =>
    unfold Kernel.Accepted
    rw [hc, hb]
    exact h
  | connect => exact h.connect
  | close hk =>
    obtain ⟨-, -, hk⟩ := Kernel.clientClose_eq_some hk
    rw [hk]
    exact h
  | accept hk => exact h.accept hk

/-- A client that closed does not come back. -/
theorem eof_of_step {c : Conn} (hs : step s a = some s') (h : s.kernel.eof c = true) :
    s'.kernel.eof c = true := by
  have hk := clients_of_step hs
  generalize s'.kernel = k' at hk ⊢
  cases hk with
  | same _ _ he =>
    rw [he]
    exact h
  | connect => exact h
  | close hk =>
    obtain ⟨-, -, hk⟩ := Kernel.clientClose_eq_some hk
    simp only [hk, Kernel.raise, Function.update_apply, h, ite_self]
  | accept hk =>
    obtain ⟨rest, -, -, hp⟩ := Kernel.accept_eq_some hk
    rw [hp]
    exact h

/-- Only `accept` and `eventfd` put a file on a number. -/
theorem opened_of_step {fd : Fd} {f : File} (hs : step s a = some s')
    (h : s'.kernel.files fd = some f) :
    s.kernel.files fd = some f ∨
      (a = .accept fd ∧ ∃ c lfd evs, f = .sock c ∧ s.reactor = .conn lfd .accept evs ∧
        s.kernel.backlog.head? = some c) ∨
      (a = .eventfd fd ∧ ∃ c lfd cfd evs, f = .event c ∧
        s.reactor = .conn lfd (.eventfd c cfd) evs ∧ s'.kernel.counter c = 0) := by
  cases files_of_step hs with
  | same hf => exact .inl (hf ▸ h)
  | @accept fd' lfd c rest evs _ hr hb hfree hf =>
    rw [hf, Function.update_apply] at h
    split at h
    · rename_i e
      cases h
      exact .inr (.inl ⟨by rw [e], c, lfd, evs, rfl, hr, by rw [hb]; rfl⟩)
    · exact .inl h
  | @eventfd fd' lfd c cfd evs _ hr hfree hc hf =>
    rw [hf, Function.update_apply] at h
    split at h
    · rename_i e
      cases h
      exact .inr (.inr ⟨by rw [e], c, lfd, cfd, evs, rfl, hr, by rw [hc, Function.update_self]⟩)
    · exact .inl h
  | close hr hpt hf =>
    rw [hf, Function.update_apply] at h
    split at h
    · cases h
    · exact .inl h
  | exit => cases h

/-- **A connection is taken out of service only by its own handler.** -/
theorem serving_of_step {c : Conn} {r : ReactorEvent} (hi : Inv s) (hs : step s a = some s')
    (h : Serving s c r) : Serving s' c r ∨ s' = s.exit ∨ ∃ cfd rspfd pt evs,
      s.reactor = .data (.data c) cfd rspfd pt evs ∧
        (pt = .closeClient ∨ pt = .closeRsp ∨ pt = .unbind) := by
  have hheap := heap_of_step hi hs h.bound
  by_cases hcl : ∃ cfd rspfd pt evs, s.reactor = .data (.data c) cfd rspfd pt evs ∧
      (pt = .closeClient ∨ pt = .closeRsp ∨ pt = .unbind)
  · exact .inr (.inr hcl)
  have hlive : s'.live (.data c) = true := by
    rcases live_of_step hs h.live with hl | ⟨-, cfd, rspfd, evs, hr⟩
    · exact hl
    · exact absurd ⟨cfd, rspfd, _, evs, hr, .inr (.inr rfl)⟩ hcl
  cases files_of_step hs with
  | same hf => exact .inl ⟨hheap, hlive, by rw [hf]; exact h.sock, by rw [hf]; exact h.event⟩
  | accept hr hb hfree hf =>
    obtain ⟨-, -, h1, h2⟩ : Serving { s with kernel := s'.kernel, reactor := s.reactor } c r :=
      h.open_free hfree hf
    exact .inl ⟨hheap, hlive, h1, h2⟩
  | eventfd hr hfree hc hf =>
    obtain ⟨-, -, h1, h2⟩ : Serving { s with kernel := s'.kernel, reactor := s.reactor } c r :=
      h.open_free hfree hf
    exact .inl ⟨hheap, hlive, h1, h2⟩
  | @close rev cfd rspfd fd pt evs _ hr hpt hf =>
    obtain ⟨c', r', rfl, hc', rfl, rfl, hat⟩ := hi.atData hr
    have hne : c' ≠ c := by
      rintro rfl
      rcases hpt with ⟨rfl, -⟩ | ⟨rfl, -⟩
      · exact hcl ⟨_, _, _, _, hr, .inl rfl⟩
      · exact hcl ⟨_, _, _, _, hr, .inr (.inl rfl)⟩
    have hfd : s.kernel.files fd = some (.sock c') ∨ s.kernel.files fd = some (.event c') := by
      rcases hpt with ⟨rfl, rfl⟩ | ⟨rfl, rfl⟩
      · exact .inl hat.1.sock
      · exact .inr hat.2.1
    have hkeep : ∀ {x f}, s.kernel.files x = some f → f ≠ .sock c' → f ≠ .event c' →
        s'.kernel.files x = some f := by
      intro x f hx h1 h2
      have e : x ≠ fd := by
        rintro rfl
        rw [hx] at hfd
        rcases hfd with e | e
        · exact h1 (Option.some.inj e)
        · exact h2 (Option.some.inj e)
      rw [hf, Function.update_of_ne e]
      exact hx
    refine .inl ⟨hheap, hlive, hkeep h.sock ?_ nofun, hkeep h.event nofun ?_⟩
    · exact fun e => hne (File.sock.inj e).symm
    · exact fun e => hne (File.event.inj e).symm
  | exit => exact .inr (.inl rfl)

/-- A connection in service while the reactor does not run its handler stays in service. -/
theorem Serving.step (hi : Inv s) {c : Conn} {r : ReactorEvent} (h : Serving s c r)
    (hs : step s a = some s') (hexit : s'.reactor ≠ .exited)
    (hr : s.reactor.reading ≠ some (.data c)) : Serving s' c r := by
  rcases serving_of_step hi hs h with h | rfl | ⟨cfd, rspfd, pt, evs, hr', -⟩
  · exact h
  · exact absurd rfl hexit
  · exact absurd (by rw [hr']; rfl) hr

/-- Two objects of one connection have the same numbers. -/
theorem Serving.rsp_fd (hi : Inv s) {c : Conn} {r r' : ReactorEvent} (h : Serving s c r)
    (hr : s.heap (.rsp c) = some r') :
    r'.client_fd = r.client_fd ∧ r'.rsp_event_fd = r.rsp_event_fd := by
  obtain ⟨r₀, hr₀, rfl⟩ := hi.rsp hr
  rw [h.unique hr₀]
  exact ⟨rfl, rfl⟩

/-- Only `epoll_wait` brings an event into the batch. -/
theorem batch_of_step {e : Event} (hs : step s a = some s') (h : e ∈ s'.reactor.batch) :
    e ∈ s.reactor.batch ∨ ∃ fds, a = .epollWait fds ∧ s.reactor = .wait ∧ ∃ fd ∈ fds,
      s.kernel.reg fd = some e.1 ∧ e.2 = s.kernel.readyFd fd := by
  cases outcome_of_step hs with
  | @epollWait fds p hr hk =>
    obtain ⟨-, -, hp, -⟩ := Kernel.epollWait_eq_some hk
    replace h : e ∈ fds.filterMap s.kernel.report := by rw [← hp]; exact h
    exact .inr ⟨fds, rfl, hr, mem_report h⟩
  | batchEnd => cases h
  | skip hr => exact .inl (by rw [hr]; exact List.mem_cons_of_mem _ h)
  | connection hr => exact .inl (by rw [hr]; exact List.mem_cons_of_mem _ h)
  | dataEvent hr => exact .inl (by rw [hr]; exact List.mem_cons_of_mem _ h)
  | rspEvent hr => exact .inl (by rw [hr]; exact List.mem_cons_of_mem _ h)
  | accept hr | acceptAgain hr | eventfd hr | addClient hr | addRsp hr =>
    exact .inl (by rw [hr]; exact h)
  | recvData hr | recvEof hr | recvAgain hr | pushReq hr | addQueue hr =>
    exact .inl (by rw [hr]; exact h)
  | delClient hr | delRsp hr | closeClient hr | closeRsp hr | unbind hr =>
    exact .inl (by rw [hr]; exact h)
  | readOk hr | readStop hr | shiftRsp hr | rspEmpty hr | send hr =>
    exact .inl (by rw [hr]; exact h)
  | exit => cases h
  | _ => exact .inl h

/-- The reactor runs `data_handler_by_worker` for an event of the batch. -/
theorem reading_of_step {rev : RevPtr} (hs : step s a = some s')
    (h : s'.reactor.reading = some rev) :
    s.reactor.reading = some rev ∨ ∃ b, (rev, b) ∈ s.reactor.batch := by
  cases outcome_of_step hs with
  | dataEvent hr =>
    cases h
    exact .inr ⟨true, by rw [hr]; exact List.mem_cons_self ..⟩
  | recvData hr | recvEof hr | pushReq hr | addQueue hr => exact .inl (by rw [hr]; exact h)
  | delClient hr | delRsp hr | closeClient hr | closeRsp hr => exact .inl (by rw [hr]; exact h)
  | epollWait | batchEnd | skip | connection | rspEvent | accept | acceptAgain | eventfd => cases h
  | addClient | addRsp | recvAgain | unbind | readOk | readStop | shiftRsp | rspEmpty => cases h
  | send | exit => cases h
  | _ => exact .inl h

/-- Only a `write` to an eventfd raises its counter. -/
theorem counter_of_step {c : Conn} (hs : step s a = some s')
    (h : s.kernel.counter c < s'.kernel.counter c) :
    ∃ (w : ℕ) (rev : RevPtr) (r : ReactorEvent), s.workers[w]? = some (.run rev .notify) ∧
      s.heap rev = some r ∧ s.kernel.files r.rsp_event_fd = some (.event c) := by
  cases outcome_of_step hs with
  | clientSend hk =>
    obtain ⟨-, -, rfl⟩ := Kernel.clientSend_eq_some hk
    exact absurd h (Nat.lt_irrefl _)
  | clientClose hk =>
    obtain ⟨-, -, rfl⟩ := Kernel.clientClose_eq_some hk
    exact absurd h (Nat.lt_irrefl _)
  | epollWait hr hk =>
    obtain ⟨-, -, -, hp⟩ := Kernel.epollWait_eq_some hk
    simp only [hp] at h
    exact absurd h (Nat.lt_irrefl _)
  | accept hr hk =>
    obtain ⟨rest, -, -, hp⟩ := Kernel.accept_eq_some hk
    simp only [hp] at h
    exact absurd h (Nat.lt_irrefl _)
  | eventfd hr hk =>
    obtain ⟨-, rfl⟩ := Kernel.eventfd_eq_some hk
    simp only [Function.update_apply] at h
    split at h
    · exact absurd h (Nat.not_lt_zero _)
    · exact absurd h (Nat.lt_irrefl _)
  | addClient hr hk =>
    obtain ⟨-, -, rfl⟩ := Kernel.ctlAdd_eq_some hk
    exact absurd h (Nat.lt_irrefl _)
  | addRsp hr hk =>
    obtain ⟨-, -, rfl⟩ := Kernel.ctlAdd_eq_some hk
    exact absurd h (Nat.lt_irrefl _)
  | recvData hr hk =>
    obtain ⟨-, -, -, rfl⟩ := Kernel.recv_eq_data hk
    exact absurd h (Nat.lt_irrefl _)
  | delClient hr hk =>
    obtain ⟨-, rfl⟩ := Kernel.ctlDel_eq_some hk
    exact absurd h (Nat.lt_irrefl _)
  | delRsp hr hk =>
    obtain ⟨-, rfl⟩ := Kernel.ctlDel_eq_some hk
    exact absurd h (Nat.lt_irrefl _)
  | @readOk rev cfd evfd evs k hr hk =>
    obtain rfl : k = (s.kernel.readU64 evfd).2 := by rw [hk]
    exact absurd h (Nat.not_lt.mpr (Kernel.readU64_counter_le _))
  | @readStop rev cfd evfd evs u k hr hk =>
    obtain rfl : k = (s.kernel.readU64 evfd).2 := by rw [hk]
    exact absurd h (Nat.not_lt.mpr (Kernel.readU64_counter_le _))
  | write hw hh => exact ⟨_, _, _, hw, hh, Kernel.writeU64_counter_lt h⟩
  | _ => exact absurd h (Nat.lt_irrefl _)

end

end PracticeCode.Server31
