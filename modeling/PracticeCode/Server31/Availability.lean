import PracticeCode.Server31.Interest

/-!
# Availability of server 3.1

`Available`: the reactor has not ended, and every connection that was set up is in service on its
two registered descriptors, or its client closed and the process has nothing left of it.

`data_handler_by_worker` ends the process on every `recv` error but `EAGAIN`, where server 3 drops
the connection, and nothing protects `send` from `SIGPIPE`.  `available_of_noFault`: these are the
only ways in which the peers can end it.  The two `EPOLL_CTL_DEL` calls do not fail, because a
connection in service keeps both registrations until its own handler deletes them (`Ready`).
-/

namespace PracticeCode.Server31

open Lib Linux

/-- The steps of the server, and a `send` that fails with `EPIPE`. -/
inductive SysAct where
  | act (a : Act)
  | sigpipe
  deriving DecidableEq

/-- The default action of `SIGPIPE` ends the process. -/
def sysStep (s : State) : SysAct → Option State
  | .act a => step s a
  | .sigpipe =>
    match s.reactor with
    | .rsp _ cfd _ (.send _) _ =>
      if (s.kernel.files cfd).any fun f => f matches .sock _ then some s.exit else none
    | _ => none

/-- The kernel has a descriptor for `accept` and `eventfd`, and memory for `EPOLL_CTL_ADD`. -/
def resources (_ : State) : SysAct → Prop
  | .act .acceptFail | .act .eventfdFail | .act .ctlAddFail => False
  | _ => True

/-- `recv` has no error but `EAGAIN`, and no `send` fails with `EPIPE`. -/
def noFault (_ : State) : SysAct → Prop
  | .act .recvFail | .sigpipe => False
  | _ => True

instance (s : State) (a : SysAct) : Decidable (resources s a) := by
  induction a using SysAct.casesOn with
  | act a => induction a using Act.casesOn <;> unfold resources <;> infer_instance
  | sigpipe => exact isTrue trivial

instance (s : State) (a : SysAct) : Decidable (noFault s a) := by
  induction a using SysAct.casesOn with
  | act a => induction a using Act.casesOn <;> unfold noFault <;> infer_instance
  | sigpipe => exact isFalse id

/-- Both descriptors of the connection are open and registered with their objects. -/
def InService (s : State) (c : Conn) : Prop :=
  ∃ r, Serving s c r ∧ s.kernel.reg r.client_fd = some (.data c) ∧
    s.kernel.reg r.rsp_event_fd = some (.rsp c)

/-- The client closed, and both descriptors are closed. -/
def Dropped (s : State) (c : Conn) : Prop :=
  s.kernel.eof c = true ∧ ∀ fd, s.kernel.files fd ≠ some (.sock c) ∧
    s.kernel.files fd ≠ some (.event c)

/-- **The server is available**: it runs, and a connection whose handler does not run is in service
or dropped. -/
structure Available (s : State) : Prop where
  running : s.reactor ≠ .exited
  served : ∀ c, s.heap (.rsp c) ≠ none → s.reactor.reading ≠ some (.data c) →
    InService s c ∨ Dropped s c

/-! ## The ways out -/

section Exit

variable {s s' : State} {a : Act} {cfd rspfd : Fd} {evs : List Event}

/-- A call of `connection_handler` that ends the process. -/
inductive ConnExit (s : State) : ConnPoint → Act → Prop
  | accept : ConnExit s .accept .acceptFail
  | eventfd {c cfd} : ConnExit s (.eventfd c cfd) .eventfdFail
  | resource {pt} : ConnExit s pt .ctlAddFail
  | addClient {c cfd evfd} : s.kernel.ctlAdd cfd (.data c) = none →
      ConnExit s (.addClient c cfd evfd) .ctlAdd
  | addRsp {c cfd evfd} : s.kernel.ctlAdd evfd (.rsp c) = none →
      ConnExit s (.addRsp c cfd evfd) .ctlAdd

/-- A call of `data_handler_by_worker` that ends the process. -/
inductive DataExit (s : State) (cfd rspfd : Fd) : DataPoint → Act → Prop
  | fault : DataExit s cfd rspfd .recv .recvFail
  | notSock {n beyond k} : s.kernel.recv cfd n = (.fail, k) →
      DataExit s cfd rspfd .recv (.recv n beyond)
  | delClient : s.kernel.ctlDel cfd = none → DataExit s cfd rspfd .delClient .ctlDel
  | delRsp : s.kernel.ctlDel rspfd = none → DataExit s cfd rspfd .delRsp .ctlDel

theorem connExit {lfd : Fd} {pt : ConnPoint} (h : connection_handler s lfd evs pt a = some s')
    (he : s'.reactor = .exited) : ConnExit s pt a := by
  unfold connection_handler at h
  split at h
  · obtain ⟨p, -, rfl⟩ := Option.map_eq_some_iff.mp h
    cases he
  · split at h
    · cases h
      cases he
    · cases h
  · exact .accept
  · obtain ⟨k, -, rfl⟩ := Option.map_eq_some_iff.mp h
    cases he
  · exact .eventfd
  · split at h
    · cases h
      cases he
    · rename_i hk
      exact .addClient hk
  · exact .resource
  · split at h
    · cases h
      cases he
    · rename_i hk
      exact .addRsp hk
  · exact .resource
  · cases h

theorem dataExit {rev : RevPtr} {pt : DataPoint}
    (h : data_handler_by_worker s rev cfd rspfd evs pt a = some s') (he : s'.reactor = .exited) :
    DataExit s cfd rspfd pt a := by
  unfold data_handler_by_worker at h
  split at h
  · split at h
    · split at h
      · cases h
        cases he
      · cases h
        cases he
      · cases h
        cases he
      · rename_i hk
        exact .notSock hk
    · cases h
  · exact .fault
  · obtain ⟨r, -, h⟩ := Option.bind_eq_some_iff.mp h
    obtain ⟨q, -, rfl⟩ := Option.map_eq_some_iff.mp h
    cases he
  · cases h
    cases he
  · split at h
    · cases h
      cases he
    · rename_i hk
      exact .delClient hk
  · split at h
    · cases h
      cases he
    · rename_i hk
      exact .delRsp hk
  · cases h
    cases he
  · cases h
    cases he
  · cases h
    cases he
  · cases h

/-- `rsp_handler` does not end the process. -/
theorem rsp_handler_running {rev : RevPtr} {evfd : Fd} {pt : RspPoint}
    (h : rsp_handler s rev cfd evfd evs pt a = some s') : s'.reactor ≠ .exited := by
  intro he
  unfold rsp_handler at h
  split at h
  · split at h <;>
      · cases h
        cases he
  · obtain ⟨r, -, h⟩ := Option.bind_eq_some_iff.mp h
    obtain ⟨q, -, rfl⟩ := Option.map_eq_some_iff.mp h
    split at he <;> cases he
  · split at h
    · cases h
      cases he
    · cases h
  · cases h

theorem reactor_of_workerStep (h : workerStep s a = some s') : s'.reactor = s.reactor := by
  unfold workerStep at h
  split at h
  · split at h
    · cases h
      rfl
    · cases h
  · split at h
    · obtain ⟨r, -, h⟩ := Option.bind_eq_some_iff.mp h
      obtain ⟨q, -, rfl⟩ := Option.map_eq_some_iff.mp h
      split <;> rfl
    · cases h
  · split at h
    · obtain ⟨r, -, h⟩ := Option.bind_eq_some_iff.mp h
      obtain ⟨q, -, rfl⟩ := Option.map_eq_some_iff.mp h
      rfl
    · cases h
  · split at h
    · obtain ⟨r, -, rfl⟩ := Option.map_eq_some_iff.mp h
      rfl
    · cases h
  · cases h

/-- **The ways in which the process ends.** -/
theorem exit_of_step (hs : step s a = some s') (hne : s.reactor ≠ .exited)
    (he : s'.reactor = .exited) :
    (∃ lfd pt evs, s.reactor = .conn lfd pt evs ∧ ConnExit s pt a) ∨
      ∃ rev cfd rspfd pt evs, s.reactor = .data rev cfd rspfd pt evs ∧
        DataExit s cfd rspfd pt a := by
  unfold step at hs
  split at hs
  · cases hs
    exact absurd he hne
  · obtain ⟨k, -, rfl⟩ := Option.map_eq_some_iff.mp hs
    exact absurd he hne
  · obtain ⟨k, -, rfl⟩ := Option.map_eq_some_iff.mp hs
    exact absurd he hne
  · exact absurd ((reactor_of_workerStep hs).symm.trans he) hne
  · exact absurd ((reactor_of_workerStep hs).symm.trans he) hne
  · exact absurd ((reactor_of_workerStep hs).symm.trans he) hne
  · exact absurd ((reactor_of_workerStep hs).symm.trans he) hne
  · unfold reactorStep at hs
    split at hs
    · split at hs
      · obtain ⟨p, -, rfl⟩ := Option.map_eq_some_iff.mp hs
        cases he
      · cases hs
    · split at hs
      · split at hs
        · cases hs
          cases he
        · obtain ⟨r, -, rfl⟩ := Option.map_eq_some_iff.mp hs
          split at he <;> cases he
        · cases hs
          cases he
      · cases hs
    · rename_i lfd pt evs hr
      exact .inl ⟨lfd, pt, evs, hr, connExit hs he⟩
    · rename_i rev cfd rspfd pt evs hr
      exact .inr ⟨rev, cfd, rspfd, pt, evs, hr, dataExit hs he⟩
    · exact absurd he (rsp_handler_running hs)
    · cases hs

end Exit

/-! ## Registrations -/

/-- The object of the connection that is being closed. -/
def Reactor.dropping : Reactor → Option RevPtr
  | .data rev _ _ .delClient _ | .data rev _ _ .delRsp _ | .data rev _ _ .closeClient _
  | .data rev _ _ .closeRsp _ | .data rev _ _ .unbind _ => some rev
  | _ => none

/-- A connection in service is registered twice, unless `connection_handler` or its own handler is
on the way, and a connection is closed because its client closed. -/
structure Ready (s : State) : Prop where
  client : ∀ {c r}, Serving s c r →
    s.reactor.deleted = some (.data c) ∨ s.kernel.reg r.client_fd = some (.data c)
  rsp : ∀ {c r}, Serving s c r → s.kernel.reg r.rsp_event_fd = some (.rsp c) ∨
    s.reactor.registering c = true ∨ s.reactor.unregistered c = true
  dropping : ∀ {c}, s.reactor.dropping = some (.data c) → s.kernel.eof c = true
  dropped : ∀ {c}, s.heap (.data c) ≠ none → (∀ fd, s.kernel.files fd ≠ some (.sock c)) →
    s.kernel.eof c = true

theorem init_ready (n : ℕ) : Ready (init n) where
  client h := by
    have := h.bound
    simp [init] at this
  rsp h := by
    have := h.bound
    simp [init] at this
  dropping h := by cases h
  dropped h := by simp [init] at h

section Step

variable {s s' : State} {a : Act} {c : Conn} {r : ReactorEvent}

/-- `EPOLL_CTL_ADD` of an open number only fails when it is registered. -/
theorem reg_of_ctlAdd {fd : Fd} {f : File} {p : RevPtr} (hf : s.kernel.files fd = some f)
    (hk : s.kernel.ctlAdd fd p = none) : ∃ q, s.kernel.reg fd = some q := by
  cases hreg : s.kernel.reg fd with
  | none => simp [Kernel.ctlAdd, hf, hreg] at hk
  | some q => exact ⟨q, rfl⟩

/-- The number of a socket that is not bound is not registered. -/
theorem Inv.unregistered_sock {fd : Fd} (hi : Inv s) (hf : s.kernel.files fd = some (.sock c))
    (hnone : s.heap (.data c) = none) (q : RevPtr) : s.kernel.reg fd ≠ some q := by
  intro hq
  cases q with
  | listen =>
    rw [(hi.regListen hq).1] at hf
    cases hf
  | data c' =>
    obtain ⟨r, h1, rfl⟩ := hi.regData hq
    obtain rfl := File.sock.inj (Option.some.inj (h1.sock.symm.trans hf))
    rw [h1.bound] at hnone
    cases hnone
  | rsp c' =>
    obtain ⟨-, r, h1, rfl⟩ := hi.regRsp hq
    exact absurd (h1.event.symm.trans hf) nofun

theorem Inv.unregistered_event {fd : Fd} (hi : Inv s) (hf : s.kernel.files fd = some (.event c))
    (hnone : s.heap (.rsp c) = none) (q : RevPtr) : s.kernel.reg fd ≠ some q := by
  intro hq
  cases q with
  | listen =>
    rw [(hi.regListen hq).1] at hf
    cases hf
  | data c' =>
    obtain ⟨r, h1, rfl⟩ := hi.regData hq
    exact absurd (h1.sock.symm.trans hf) nofun
  | rsp c' =>
    obtain ⟨h0, r, h1, rfl⟩ := hi.regRsp hq
    obtain rfl := File.event.inj (Option.some.inj (h1.event.symm.trans hf))
    exact h0 hnone

/-- **A process that meets `Ready` does not get to a failing call** except by a fault. -/
theorem running_step (hi : Inv s) (h : Ready s) (hne : s.reactor ≠ .exited)
    (hg : resources s (.act a) ∧ noFault s (.act a)) (hs : step s a = some s') :
    s'.reactor ≠ .exited := by
  intro he
  rcases exit_of_step hs hne he with ⟨lfd, pt, evs, hr, hx⟩ | ⟨rev, cfd, rspfd, pt, evs, hr, hx⟩
  · have hpt := hi.point
    rw [hr] at hpt
    cases hx with
    | accept | eventfd | resource => exact hg.1
    | addClient hk =>
      obtain ⟨q, hq⟩ := reg_of_ctlAdd hpt.2.2.1 hk
      exact hi.unregistered_sock hpt.2.2.1 hpt.1 q hq
    | addRsp hk =>
      obtain ⟨hnone, r, hserv, rfl⟩ := hpt
      obtain ⟨q, hq⟩ := reg_of_ctlAdd hserv.event hk
      exact hi.unregistered_event hserv.event hnone q hq
  · obtain ⟨c, r, rfl, hc, rfl, rfl, hat⟩ := hi.atData hr
    cases hx with
    | fault => exact hg.2
    | notSock hk =>
      simp only [Kernel.recv, hat.sock] at hk
      split at hk
      · cases hk
      · split at hk <;> cases hk
    | delClient hk =>
      have hreg := (h.client hat).resolve_left (by rw [hr]; nofun)
      simp [Kernel.ctlDel, hat.sock, hreg] at hk
    | delRsp hk =>
      have hreg := (h.rsp hat.1).resolve_right (by rw [hr]; rintro (h | h) <;> cases h)
      simp [Kernel.ctlDel, hat.1.event, hreg] at hk

/-- A connection that is being closed after a step was so before, or its `recv` returned 0. -/
theorem recvEof_of_dropping (hs : step s a = some s')
    (h : s'.reactor.dropping = some (.data c)) : s.reactor.dropping = some (.data c) ∨
      ∃ n beyond cfd rspfd evs, a = .recv n beyond ∧
        s.reactor = .data (.data c) cfd rspfd .recv evs ∧ (s.kernel.recv cfd n).1 = .eof := by
  cases outcome_of_step hs with
  | connect | clientSend | clientClose | pop | shiftReq | reqEmpty | pushRsp | write => exact .inl h
  | recvEof hr heof =>
    cases h
    exact .inr ⟨_, _, _, _, _, rfl, hr, heof⟩
  | delClient hr | delRsp hr | closeClient hr | closeRsp hr =>
    rw [hr]
    exact .inl h
  | epollWait | batchEnd | skip | connection | dataEvent | rspEvent | accept | acceptAgain | eventfd
  | addClient | addRsp | recvData | recvAgain | pushReq | addQueue | unbind | readOk | readStop
  | shiftRsp | rspEmpty | send | exit => cases h

/-- The close path begins at the end of the stream. -/
theorem dropping_of_step (hi : Inv s) (hs : step s a = some s')
    (h : s'.reactor.dropping = some (.data c)) :
    s.reactor.dropping = some (.data c) ∨ s.kernel.eof c = true := by
  rcases recvEof_of_dropping hs h with hd | ⟨n, beyond, cfd, rspfd, evs, -, hr, heof⟩
  · exact .inl hd
  · obtain ⟨_, r, e, -, rfl, rfl, hserv⟩ := hi.atData hr
    cases e
    refine .inr ?_
    simp only [Kernel.recv, hserv.sock] at heof
    split at heof
    · cases heof
    · split at heof
      · assumption
      · cases heof

/-! ### Every step keeps what is ready -/

theorem dropped_step (hi : Inv s) (hi' : Inv s') (h : Ready s) (hs : step s a = some s')
    (hexit : s'.reactor ≠ .exited) (hb' : s'.heap (.data c) ≠ none)
    (hno : ∀ fd, s'.kernel.files fd ≠ some (.sock c)) : s'.kernel.eof c = true := by
  cases hb : s.heap (.data c) with
  | none =>
    obtain ⟨lfd, cfd, evfd, evs, hr, -⟩ := bound_of_step hs hb hb'
    have hpt := hi'.point
    rw [hr] at hpt
    obtain ⟨-, r', hserv, -⟩ := hpt
    exact absurd hserv.sock (hno _)
  | some r₀ =>
    obtain ⟨-, -, -, -, hph⟩ := hi.data hb
    refine eof_of_step hs ?_
    cases hph with
    | serving hserv =>
      rcases serving_of_step hi hs hserv with hserv' | rfl | ⟨cfd, rspfd, pt, evs, hr, hpt⟩
      · exact absurd hserv'.sock (hno _)
      · exact absurd rfl hexit
      · refine h.dropping ?_
        rw [hr]
        rcases hpt with rfl | rfl | rfl <;> rfl
    | closing _ hno => exact h.dropped (by rw [hb]; nofun) hno
    | closed hno => exact h.dropped (by rw [hb]; nofun) hno

theorem ready_step (hi : Inv s) (h : Ready s) (hs : step s a = some s')
    (hexit : s'.reactor ≠ .exited) : Ready s' where
  client := registered_client_step hi hs h.client
  rsp := registered_rsp_step hi hs h.rsp
  dropping hd := by
    rcases dropping_of_step hi hs hd with hd | he
    · exact eof_of_step hs (h.dropping hd)
    · exact eof_of_step hs he
  dropped := dropped_step hi (inv_step hi hs) h hs hexit

theorem reading_of_deleted {re : Reactor} {p : RevPtr} (h : re.deleted = some p) :
    re.reading = some p := by
  unfold Reactor.deleted at h
  split at h
  · exact h
  · exact h
  · cases h

theorem reading_of_closing {re : Reactor} {p : RevPtr} (h : re.closing = some p) :
    re.reading = some p := by
  unfold Reactor.closing at h
  split at h
  · exact h
  · cases h

/-- What is kept says that the server is available. -/
theorem Ready.available (hi : Inv s) (h : Ready s) (hne : s.reactor ≠ .exited) : Available s := by
  refine ⟨hne, fun c hrsp hrd => ?_⟩
  obtain ⟨r, hr⟩ := Option.ne_none_iff_exists'.mp hrsp
  obtain ⟨r', hr', -⟩ := hi.rsp hr
  have hdel : s.reactor.deleted ≠ some (.data c) := fun hd => hrd (reading_of_deleted hd)
  have hreg : ¬ (s.reactor.registering c = true ∨ s.reactor.unregistered c = true) := by
    rintro (hu | hu)
    · have hpt := hi.point
      unfold Reactor.registering at hu
      split at hu
      · rename_i hc
        obtain rfl := eq_of_beq hu
        rw [hc] at hpt
        exact hrsp hpt.1
      · cases hu
    · unfold Reactor.unregistered at hu
      split at hu
      · rename_i hc
        obtain rfl := eq_of_beq hu
        exact hrd (by rw [hc]; rfl)
      · cases hu
  obtain ⟨-, -, -, -, hph⟩ := hi.data hr'
  cases hph with
  | serving hserv =>
    exact .inl ⟨r', hserv, (h.client hserv).resolve_left hdel, (h.rsp hserv).resolve_right hreg⟩
  | closing hc => exact absurd (reading_of_closing hc) hrd
  | closed h1 h2 =>
    exact .inr ⟨h.dropped (by rw [hr']; nofun) h1, fun fd => ⟨h1 fd, h2 fd⟩⟩

/-- One step of a run without faults. -/
theorem available_step {a : SysAct} (hg : resources s a ∧ noFault s a)
    (h : Inv s ∧ Ready s ∧ s.reactor ≠ .exited) (hs : sysStep s a = some s') :
    Inv s' ∧ Ready s' ∧ s'.reactor ≠ .exited := by
  obtain ⟨hi, hr, hne⟩ := h
  cases a with
  | act a =>
    have hne' := running_step hi hr hne hg hs
    exact ⟨inv_step hi hs, ready_step hi hr hs hne', hne'⟩
  | sigpipe => exact absurd hg.2 id

end Step

/-- **The server is available** in every run in which no `recv` has an error but `EAGAIN` and no
`send` fails with `EPIPE`. -/
theorem available_of_noFault {n : ℕ} {as : List SysAct} {s : State}
    (h : Run sysStep (fun s a => resources s a ∧ noFault s a) (init n) as s) : Available s := by
  obtain ⟨hi, hr, hne⟩ : Inv s ∧ Ready s ∧ s.reactor ≠ .exited :=
    h.invariant (I := fun s => Inv s ∧ Ready s ∧ s.reactor ≠ .exited)
      ⟨init_inv n, init_ready n, nofun⟩ fun _ _ _ hI hg hs => available_step hg hI hs
  exact hr.available hi hne

/-- Two clients are accepted, and the first one closes. -/
def dropRun : List SysAct := List.flatten [[.connect, .connect, .epollWait [4], .dispatch,
    .accept 5, .eventfd 6, .ctlAdd, .ctlAdd, .accept 7, .eventfd 8, .ctlAdd, .ctlAdd, .acceptAgain,
    .dispatch, .clientClose 0, .epollWait [5], .dispatch].map .act, closeActs.map .act]

theorem available_of_noFault_drop : ∃ s,
    Run sysStep (fun s a => resources s a ∧ noFault s a) (init 1) dropRun s ∧
    (s.kernel.eof 0 = true ∧ s.kernel.files 5 = none ∧ s.kernel.files 7 = some (.sock 1)) ∧
    Available s := by
  obtain ⟨s, hr, hp⟩ : ∃ s,
      Run sysStep (fun s a => resources s a ∧ noFault s a) (init 1) dropRun s ∧
      s.kernel.eof 0 = true ∧ s.kernel.files 5 = none ∧ s.kernel.files 7 = some (.sock 1) :=
    Run.exists_of_exec _ _ (by decide)
  exact ⟨s, hr, hp, available_of_noFault hr⟩

/-! ## With faults -/

/-- Two clients are accepted, and the first one resets its connection. -/
def resetRun : List SysAct := [.connect, .connect, .epollWait [4], .dispatch, .accept 5, .eventfd 6,
  .ctlAdd, .ctlAdd, .accept 7, .eventfd 8, .ctlAdd, .ctlAdd, .acceptAgain, .dispatch,
  .clientClose 0, .epollWait [5], .dispatch, .recvFail].map .act

def sysLowestFree (s : State) : SysAct → Prop
  | .act a => lowestFree s a
  | .sigpipe => True

instance (s : State) (a : SysAct) : Decidable (sysLowestFree s a) := by
  induction a using SysAct.casesOn <;> unfold sysLowestFree <;> infer_instance

/-- **A reset of one client ends the process for all.** -/
theorem not_available : ¬ ∀ n as s,
    Run sysStep (fun s a => resources s a ∧ sysLowestFree s a) (init n) as s → Available s := by
  intro h
  obtain ⟨s, hr, he⟩ : ∃ s, Run sysStep (fun s a => resources s a ∧ sysLowestFree s a) (init 1)
      resetRun s ∧ s.reactor = .exited :=
    Run.exists_of_exec _ _ (by decide)
  exact (h _ _ _ hr).running he

end PracticeCode.Server31
