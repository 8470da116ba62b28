import PracticeCode.Server31.Lifetime

/-!
# What server 3.1 releases of a connection

`connection_handler` makes six things for a connection: the socket, the eventfd, two `reactor_event`
objects and two queues.  Each object holds a `shared_ptr` of each queue, made from the raw pointer,
so that a queue has two control blocks that would delete it.

`releases` records what the program gives back.  The close path of `data_handler_by_worker` closes
both descriptors and frees the object of the socket with `free`, which runs no destructor; the
object of the eventfd is left to a TODO.  So no connection gets everything released once, whatever
it does: `releases_of_closed`.
-/

namespace PracticeCode.Server31

open Lib Linux

/-- What is released: a descriptor of a connection, an object, or a queue by the control block of
the object `owner`. -/
inductive Release where
  | client (c : Conn)
  | eventfd (c : Conn)
  | object (p : RevPtr)
  | req_queue (owner : RevPtr)
  | rsp_queue (owner : RevPtr)
  deriving DecidableEq

/-- `close` of a number. -/
def closeOf : Option File → List Release
  | some (.sock c) => [.client c]
  | some (.event c) => [.eventfd c]
  | _ => []

/-- `free(ev->data.ptr)`.  The members are not destroyed, and their control blocks keep the
queues. -/
def freed (p : RevPtr) : List Release := [.object p]

/-- What a step of the reactor releases. -/
def releases (s : State) : Act → List Release
  | .close =>
    match s.reactor with
    | .data _ cfd _ .closeClient _ => closeOf (s.kernel.files cfd)
    | .data _ _ rspfd .closeRsp _ => closeOf (s.kernel.files rspfd)
    | _ => []
  | .unbind =>
    match s.reactor with
    | .data rev _ _ .unbind _ => freed rev
    | _ => []
  | _ => []

/-- The close path of the connection is through. -/
def Closed (s : State) (c : Conn) : Prop :=
  s.heap (.data c) ≠ none ∧ s.live (.data c) = false

instance (s : State) (c : Conn) : Decidable (Closed s c) := by unfold Closed; infer_instance

/-- **Everything that was made for `c` was released once.** -/
structure Released (log : List Release) (c : Conn) : Prop where
  client : log.count (.client c) = 1
  eventfd : log.count (.eventfd c) = 1
  data : log.count (.object (.data c)) = 1
  rsp : log.count (.object (.rsp c)) = 1
  req_queue : log.count (.req_queue (.data c)) + log.count (.req_queue (.rsp c)) = 1
  rsp_queue : log.count (.rsp_queue (.data c)) + log.count (.rsp_queue (.rsp c)) = 1

/-- What is released of a connection that was closed. -/
structure Leaked (log : List Release) (c : Conn) : Prop where
  client : log.count (.client c) = 1
  eventfd : log.count (.eventfd c) = 1
  data : log.count (.object (.data c)) = 1
  rsp : log.count (.object (.rsp c)) = 0
  queues : ∀ owner, log.count (.req_queue owner) = 0 ∧ log.count (.rsp_queue owner) = 0

/-! ## The ledger -/

/-- The object whose descriptors are being closed, and whether both are. -/
def Reactor.releasing : Reactor → Option (RevPtr × Bool)
  | .data rev _ _ .closeRsp _ => some (rev, false)
  | .data rev _ _ .unbind _ => some (rev, true)
  | _ => none

structure Ledger (s : State) (log : List Release) : Prop where
  live : ∀ {p b}, s.reactor.releasing = some (p, b) → s.live p = true
  open_client : ∀ {c}, s.reactor ≠ .exited → ¬ Closed s c → log.count (.client c) =
    if s.reactor.releasing.map Prod.fst = some (.data c) then 1 else 0
  open_eventfd : ∀ {c}, s.reactor ≠ .exited → ¬ Closed s c → log.count (.eventfd c) =
    if s.reactor.releasing = some (.data c, true) then 1 else 0
  open_data : ∀ {c}, s.reactor ≠ .exited → ¬ Closed s c → log.count (.object (.data c)) = 0
  done : ∀ {c}, Closed s c → log.count (.client c) = 1 ∧ log.count (.eventfd c) = 1 ∧
    log.count (.object (.data c)) = 1
  rsp : ∀ c, log.count (.object (.rsp c)) = 0
  queues : ∀ owner, log.count (.req_queue owner) = 0 ∧ log.count (.rsp_queue owner) = 0

theorem init_ledger (n : ℕ) : Ledger (init n) [] where
  live h := by cases h
  open_client _ _ := rfl
  open_eventfd _ _ := rfl
  open_data _ _ := rfl
  done {c} h := by
    have := h.1
    simp [init] at this
  rsp _ := rfl
  queues _ := ⟨rfl, rfl⟩

section Step

variable {s s' : State} {log : List Release} {a : Act}

/-- A step that releases nothing and is not on the close path. -/
theorem Ledger.keep (h : Ledger s log) (hD : ∀ c, Closed s' c ↔ Closed s c)
    (hr : s'.reactor ≠ .exited → s.reactor ≠ .exited ∧ s'.reactor.releasing = s.reactor.releasing)
    (hl : ∀ {p b}, s'.reactor.releasing = some (p, b) → s'.live p = true) : Ledger s' log where
  live := hl
  open_client he hc := by
    obtain ⟨he, e⟩ := hr he
    rw [e]
    exact h.open_client he ((hD _).not.mp hc)
  open_eventfd he hc := by
    obtain ⟨he, e⟩ := hr he
    rw [e]
    exact h.open_eventfd he ((hD _).not.mp hc)
  open_data he hc := h.open_data (hr he).1 ((hD _).not.mp hc)
  done hc := h.done ((hD _).mp hc)
  rsp := h.rsp
  queues := h.queues

theorem closed_congr (hh : s'.heap = s.heap) (hl : s'.live = s.live) (c : Conn) :
    Closed s' c ↔ Closed s c := by
  unfold Closed
  rw [hh, hl]

/-- A step of a client or a worker. -/
theorem Ledger.stay (h : Ledger s log) (hh : s'.heap = s.heap) (hl : s'.live = s.live)
    (hr : s'.reactor = s.reactor) : Ledger s' log :=
  h.keep (closed_congr hh hl) (fun he => ⟨hr ▸ he, by rw [hr]⟩) fun hp => by
    rw [hr] at hp
    rw [hl]
    exact h.live hp

/-- A step of the reactor outside the close path. -/
theorem Ledger.move {re re' : Reactor} (h : Ledger s log) (hD : ∀ c, Closed s' c ↔ Closed s c)
    (hr : s.reactor = re) (hr' : s'.reactor = re') (hne : re ≠ .exited) (h0 : re.releasing = none)
    (h1 : re'.releasing = none) : Ledger s' log := by
  subst hr hr'
  exact h.keep hD (fun _ => ⟨hne, h1.trans h0.symm⟩) fun hp => by
    rw [h1] at hp
    cases hp

theorem Ledger.exit (h : Ledger s log) : Ledger s.exit log :=
  h.keep (closed_congr rfl rfl) (fun he => absurd rfl he) fun hp => by cases hp

/-- `bind_reacotr_event` makes an object that is not closed. -/
theorem closed_bind {p : RevPtr} {c₀ : Conn} {cfd evfd : Fd} {cb : Callback} {k : Kernel RevPtr}
    {re : Reactor} (hnone : s.heap p = none) (c : Conn) :
    Closed { s.bind p c₀ cfd evfd cb with kernel := k, reactor := re } c ↔ Closed s c := by
  unfold Closed
  by_cases e : RevPtr.data c = p
  · subst e
    simp [State.bind, hnone]
  · have hh : (s.bind p c₀ cfd evfd cb).heap (.data c) = s.heap (.data c) := bind_heap_of_ne e
    have hl : (s.bind p c₀ cfd evfd cb).live (.data c) = s.live (.data c) := bind_live_of_ne e
    simp only [hh, hl]

/-! ### The close path -/

theorem step_close (hs : step s .close = some s') : ∃ rev cfd rspfd evs,
    s.reactor = .data rev cfd rspfd .closeClient evs ∧ s' = { s with
      kernel := s.kernel.close cfd, reactor := .data rev cfd rspfd .closeRsp evs } ∨
    s.reactor = .data rev cfd rspfd .closeRsp evs ∧ s' = { s with
      kernel := s.kernel.close rspfd, reactor := .data rev cfd rspfd .unbind evs } := by
  simp only [step, reactorStep] at hs
  split at hs
  · cases hs
  · cases hs
  · rename_i pt evs _
    cases pt <;> cases hs
  · rename_i rev cfd rspfd pt evs hr
    cases pt with
    | closeClient => exact ⟨rev, cfd, rspfd, evs, .inl ⟨hr, (Option.some.inj hs).symm⟩⟩
    | closeRsp => exact ⟨rev, cfd, rspfd, evs, .inr ⟨hr, (Option.some.inj hs).symm⟩⟩
    | _ => cases hs
  · rename_i pt evs _
    cases pt <;> cases hs
  · cases hs

theorem step_unbind (hs : step s .unbind = some s') : ∃ rev cfd rspfd evs,
    s.reactor = .data rev cfd rspfd .unbind evs ∧ s' = { s with
      live := Function.update s.live rev false, reactor := .loop evs } := by
  simp only [step, reactorStep] at hs
  split at hs
  · cases hs
  · cases hs
  · rename_i pt evs _
    cases pt <;> cases hs
  · rename_i rev cfd rspfd pt evs hr
    cases pt with
    | unbind => exact ⟨rev, cfd, rspfd, evs, hr, (Option.some.inj hs).symm⟩
    | _ => cases hs
  · rename_i pt evs _
    cases pt <;> cases hs
  · cases hs

theorem releases_eq_nil (h1 : a ≠ .close) (h2 : a ≠ .unbind) : releases s a = [] := by
  cases a with
  | close => exact absurd rfl h1
  | unbind => exact absurd rfl h2
  | _ => rfl

theorem not_closed_of_live {c : Conn} (h : s.live (.data c) = true) : ¬ Closed s c := fun hc =>
  absurd (h.symm.trans hc.2) nofun

/-- Outside the close path nothing of a connection that is not closed was released. -/
theorem Ledger.untouched {c : Conn} (h : Ledger s log) (hne : s.reactor ≠ .exited)
    (h0 : s.reactor.releasing = none) (hc : ¬ Closed s c) :
    log.count (.client c) = 0 ∧ log.count (.eventfd c) = 0 := by
  have h1 := h.open_client hne hc
  have h2 := h.open_eventfd hne hc
  rw [h0] at h1 h2
  exact ⟨h1, h2⟩

theorem Ledger.closeClient {c : Conn} {cfd rspfd : Fd} {evs : List Event} {k : Kernel RevPtr}
    (h : Ledger s log) (hr : s.reactor = .data (.data c) cfd rspfd .closeClient evs)
    (hlive : s.live (.data c) = true) :
    Ledger { s with kernel := k, reactor := .data (.data c) cfd rspfd .closeRsp evs }
      (log ++ [.client c]) := by
  have hne : s.reactor ≠ .exited := by rw [hr]; nofun
  have h0 : s.reactor.releasing = none := by rw [hr]; rfl
  refine ⟨?_, fun {c'} _ hc => ?_, fun {c'} _ hc => ?_, fun {c'} _ hc => ?_, fun {c'} hc => ?_,
    fun c' => ?_, fun p => ?_⟩
  · rintro p b ⟨⟩
    exact hlive
  · rw [List.count_append, (h.untouched hne h0 hc).1]
    simp [Reactor.releasing, List.count_singleton]
  · rw [List.count_append, (h.untouched hne h0 hc).2]
    simp [Reactor.releasing]
  · rw [List.count_append, h.open_data hne hc]
    simp
  · have hcc : c ≠ c' := by
      rintro rfl
      exact not_closed_of_live hlive hc
    simpa [List.count_append, List.count_singleton, hcc] using h.done hc
  · simpa [List.count_append] using h.rsp c'
  · simpa [List.count_append] using h.queues p

theorem Ledger.closeRsp {c : Conn} {cfd rspfd : Fd} {evs : List Event} {k : Kernel RevPtr}
    (h : Ledger s log) (hr : s.reactor = .data (.data c) cfd rspfd .closeRsp evs) :
    Ledger { s with kernel := k, reactor := .data (.data c) cfd rspfd .unbind evs }
      (log ++ [.eventfd c]) := by
  have hne : s.reactor ≠ .exited := by rw [hr]; nofun
  have h0 : s.reactor.releasing = some (.data c, false) := by rw [hr]; rfl
  have hlive := h.live h0
  refine ⟨?_, fun {c'} _ hc => ?_, fun {c'} _ hc => ?_, fun {c'} _ hc => ?_, fun {c'} hc => ?_,
    fun c' => ?_, fun p => ?_⟩
  · rintro p b ⟨⟩
    exact hlive
  · have := h.open_client hne hc
    rw [h0] at this
    rw [List.count_append, this]
    simp [Reactor.releasing]
  · have := h.open_eventfd hne hc
    rw [h0] at this
    rw [List.count_append, this]
    simp [Reactor.releasing, List.count_singleton]
  · rw [List.count_append, h.open_data hne hc]
    simp
  · have hcc : c ≠ c' := by
      rintro rfl
      exact not_closed_of_live hlive hc
    simpa [List.count_append, List.count_singleton, hcc] using h.done hc
  · simpa [List.count_append] using h.rsp c'
  · simpa [List.count_append] using h.queues p

theorem Ledger.unbind {c : Conn} {cfd rspfd : Fd} {evs : List Event} (h : Ledger s log)
    (hi : s.heap (.data c) ≠ none) (hr : s.reactor = .data (.data c) cfd rspfd .unbind evs) :
    Ledger { s with live := Function.update s.live (.data c) false, reactor := .loop evs }
      (log ++ [.object (.data c)]) := by
  have hne : s.reactor ≠ .exited := by rw [hr]; nofun
  have h0 : s.reactor.releasing = some (.data c, true) := by rw [hr]; rfl
  have hopen := not_closed_of_live (h.live h0)
  have hiff : ∀ c', Closed { s with
      live := Function.update s.live (.data c) false, reactor := .loop evs } c' ↔
        c' = c ∨ Closed s c' := by
    intro c'
    unfold Closed
    by_cases e : c' = c
    · subst e
      simp [hi]
    · simp [e]
  refine ⟨nofun, fun {c'} _ hc => ?_, fun {c'} _ hc => ?_, fun {c'} _ hc => ?_, fun {c'} hc => ?_,
    fun c' => ?_, fun p => ?_⟩
  · obtain ⟨hcc, hc⟩ := not_or.mp ((hiff c').not.mp hc)
    have := h.open_client hne hc
    rw [h0] at this
    rw [List.count_append, this]
    simp [Reactor.releasing, Ne.symm hcc]
  · obtain ⟨hcc, hc⟩ := not_or.mp ((hiff c').not.mp hc)
    have := h.open_eventfd hne hc
    rw [h0] at this
    rw [List.count_append, this]
    simp [Reactor.releasing, Ne.symm hcc]
  · obtain ⟨hcc, hc⟩ := not_or.mp ((hiff c').not.mp hc)
    rw [List.count_append, h.open_data hne hc]
    simp [Ne.symm hcc]
  · by_cases e : c' = c
    · subst e
      have hcl := h.open_client hne hopen
      have hev := h.open_eventfd hne hopen
      have hda := h.open_data hne hopen
      rw [h0] at hcl hev
      simp only [List.count_append, hcl, hev, hda]
      simp
    · have hcc := Ne.symm e
      simpa [List.count_append, List.count_singleton, hcc] using
        h.done (((hiff c').mp hc).resolve_left e)
  · simpa [List.count_append, List.count_singleton] using h.rsp c'
  · simpa [List.count_append] using h.queues p

/-- **The ledger of the releases.** -/
theorem ledger_step (hi : Inv s) (h : Ledger s log) (hs : step s a = some s') :
    Ledger s' (log ++ releases s a) := by
  by_cases h1 : a = .close
  · subst h1
    obtain ⟨rev, cfd, rspfd, evs, ⟨hr, rfl⟩ | ⟨hr, rfl⟩⟩ := step_close hs
    · obtain ⟨c, r, rfl, -, rfl, rfl, hserv, -⟩ := hi.atData hr
      have he : releases s .close = [.client c] := by
        simp only [releases, hr, hserv.sock, closeOf]
      rw [he]
      exact h.closeClient hr hserv.live
    · obtain ⟨c, r, rfl, -, rfl, rfl, -, hevent, -⟩ := hi.atData hr
      have he : releases s .close = [.eventfd c] := by
        simp only [releases, hr, hevent, closeOf]
      rw [he]
      exact h.closeRsp hr
  by_cases h2 : a = .unbind
  · subst h2
    obtain ⟨rev, cfd, rspfd, evs, hr, rfl⟩ := step_unbind hs
    obtain ⟨c, r, rfl, hc, rfl, rfl, -⟩ := hi.atData hr
    have he : releases s .unbind = [.object (.data c)] := by simp only [releases, hr, freed]
    rw [he]
    exact h.unbind (by rw [hc]; nofun) hr
  rw [releases_eq_nil h1 h2, List.append_nil]
  have hpt := hi.point
  cases outcome_of_step hs with
  | closeClient | closeRsp => exact absurd rfl h1
  | unbind => exact absurd rfl h2
  | connect | clientSend | clientClose | pop | shiftReq | reqEmpty | pushRsp | write =>
    exact h.stay rfl rfl rfl
  | exit => exact h.exit
  | addClient hr =>
    rw [hr] at hpt
    exact h.move (closed_bind hpt.1) hr rfl nofun rfl rfl
  | addRsp hr =>
    rw [hr] at hpt
    exact h.move (closed_bind hpt.1) hr rfl nofun rfl rfl
  | epollWait hr | batchEnd hr | skip hr | connection hr | dataEvent hr | rspEvent hr | accept hr
  | acceptAgain hr | eventfd hr | recvData hr | recvEof hr | recvAgain hr | pushReq hr | addQueue hr
  | delClient hr | delRsp hr | readOk hr | readStop hr | shiftRsp hr | rspEmpty hr | send hr =>
    exact h.move (closed_congr rfl rfl) hr rfl nofun rfl rfl

end Step

/-- **No connection gets everything released once.**  Of a connection that was closed, the two
descriptors and the object of the socket are released once, the rest never. -/
theorem releases_of_closed {n : ℕ} {as : List Act} {s : State} {log : List Release}
    (h : Run (watch step releases) free (init n, []) as (s, log)) (c : Conn) :
    ¬ Released log c ∧ (Closed s c → Leaked log c) := by
  have hI : Inv s ∧ Ledger s log := h.invariant (I := fun p => Inv p.1 ∧ Ledger p.1 p.2)
    ⟨init_inv n, init_ledger n⟩ fun p a p' hI _ hs => by
      obtain ⟨hst, hlog⟩ := watch_eq_some.mp hs
      rw [hlog]
      exact ⟨inv_step hI.1 hst, ledger_step hI.1 hI.2 hst⟩
  have hL := hI.2
  refine ⟨fun hr => absurd ((hL.rsp c).symm.trans hr.rsp) nofun, fun hc => ?_⟩
  obtain ⟨h1, h2, h3⟩ := hL.done hc
  exact ⟨h1, h2, h3, hL.rsp c, hL.queues⟩

/-- The connection `0` of `settledRun` was served, and its tasks were finished at the close. -/
theorem releases_of_closed_settled : ∃ p : State × List Release,
    Run (watch step releases) free (init 1, []) settledRun p ∧
    (Closed p.1 0 ∧ ¬ Pending p.1 (.data 0)) ∧ ¬ Released p.2 0 ∧ Leaked p.2 0 := by
  obtain ⟨⟨s, log⟩, hr, hc, hp⟩ : ∃ p : State × List Release,
      Run (watch step releases) free (init 1, []) settledRun p ∧
        Closed p.1 0 ∧ ¬ Pending p.1 (.data 0) :=
    Run.exists_of_exec _ _ (by decide)
  obtain ⟨h1, h2⟩ := releases_of_closed hr 0
  exact ⟨(s, log), hr, ⟨hc, hp⟩, h1, h2 hc⟩

/-- **The object of the eventfd and both queues are leaked**, also when the kernel gives the lowest
free numbers. -/
theorem not_released : ¬ ∀ n as s log,
    Run (watch step releases) (fun p a => lowestFree p.1 a) (init n, []) as (s, log) →
    ∀ c, Closed s c → ¬ Pending s (.data c) → Released log c := by
  intro h
  obtain ⟨⟨s, log⟩, hr, ⟨hc, hp⟩, h0⟩ : ∃ p : State × List Release,
      Run (watch step releases) (fun p a => lowestFree p.1 a) (init 1, []) settledRun p ∧
        (Closed p.1 0 ∧ ¬ Pending p.1 (.data 0)) ∧ p.2.count (.object (.rsp 0)) = 0 :=
    Run.exists_of_exec _ _ (by decide)
  exact absurd (h0.symm.trans (h _ _ _ _ hr 0 hc hp).rsp) nofun

end PracticeCode.Server31
