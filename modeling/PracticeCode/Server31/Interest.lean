import PracticeCode.Server31.Frame

/-!
# The registrations of a connection in service

A connection in service has both of its descriptors on the interest list, each with its object,
except on the way: `connection_handler` binds the socket before it registers the eventfd, and the
handler of the connection deletes both registrations before it closes anything.

* `reg_of_step`: no other step takes a number off the list;
* `registered_client_step`, `registered_rsp_step`: what is registered stays registered, over a step.
-/

namespace PracticeCode.Server31

open Lib Linux

/-- The socket of `c` is bound and its eventfd is not registered yet. -/
def Reactor.registering (c : Conn) : Reactor → Bool
  | .conn _ (.addRsp c' _ _) _ => c' == c
  | _ => false

/-- The eventfd of `c` is not registered any more. -/
def Reactor.unregistered (c : Conn) : Reactor → Bool
  | .data rev _ _ .closeClient _ => rev == .data c
  | _ => false

/-- The object whose socket is off the interest list but still open. -/
def Reactor.deleted : Reactor → Option RevPtr
  | .data rev _ _ .delRsp _ | .data rev _ _ .closeClient _ => some rev
  | _ => none

section Step

variable {s s' : State} {a : Act} {c : Conn} {r : ReactorEvent}

/-- The number of a socket is not the one of another connection, and not one of an eventfd. -/
theorem Serving.client_inj {c' : Conn} {r' : ReactorEvent} (h : Serving s c r)
    (h' : Serving s c' r') (e : r.client_fd = r'.client_fd) : c = c' := by
  have h1 := h.sock
  rw [e, h'.sock] at h1
  exact (File.sock.inj (Option.some.inj h1)).symm

theorem Serving.rsp_inj {c' : Conn} {r' : ReactorEvent} (h : Serving s c r)
    (h' : Serving s c' r') (e : r.rsp_event_fd = r'.rsp_event_fd) : c = c' := by
  have h1 := h.event
  rw [e, h'.event] at h1
  exact (File.event.inj (Option.some.inj h1)).symm

theorem Serving.client_ne_rsp {c' : Conn} {r' : ReactorEvent} (h : Serving s c r)
    (h' : s.kernel.files r'.rsp_event_fd = some (.event c')) : r.client_fd ≠ r'.rsp_event_fd := by
  intro e
  have h1 := h.sock
  rw [e, h'] at h1
  cases h1

/-! ## What a step does to the list, and to the connections in service -/

/-- **A registration is only deleted by the handler of its connection.** -/
theorem reg_of_step {fd : Fd} {p : RevPtr} (hs : step s a = some s') (hexit : s'.reactor ≠ .exited)
    (h : s.kernel.reg fd = some p) : s'.kernel.reg fd = some p ∨
      ∃ rev cfd rspfd pt evs, s.reactor = .data rev cfd rspfd pt evs ∧
        ((pt = .delClient ∧ fd = cfd ∧ s'.reactor = .data rev cfd rspfd .delRsp evs) ∨
          (pt = .closeClient ∧ fd = cfd ∧ s'.reactor = .data rev cfd rspfd .closeRsp evs) ∨
          (pt = .delRsp ∧ fd = rspfd ∧ s'.reactor = .data rev cfd rspfd .closeClient evs) ∨
          (pt = .closeRsp ∧ fd = rspfd)) := by
  have hupd : ∀ {x : Fd} {q : Option RevPtr}, fd ≠ x →
      Function.update s.kernel.reg x q fd = some p := fun hne => by
    rw [Function.update_of_ne hne]
    exact h
  cases outcome_of_step hs with
  | clientSend hk =>
    obtain ⟨-, -, rfl⟩ := Kernel.clientSend_eq_some hk
    exact .inl h
  | clientClose hk =>
    obtain ⟨-, -, rfl⟩ := Kernel.clientClose_eq_some hk
    exact .inl h
  | epollWait _ hk =>
    obtain ⟨-, -, -, hp⟩ := Kernel.epollWait_eq_some hk
    exact .inl (by rw [hp]; exact h)
  | accept _ hk =>
    obtain ⟨rest, -, -, hp⟩ := Kernel.accept_eq_some hk
    exact .inl (by rw [hp]; exact h)
  | eventfd _ hk =>
    obtain ⟨-, rfl⟩ := Kernel.eventfd_eq_some hk
    exact .inl h
  | addClient _ hk | addRsp _ hk =>
    obtain ⟨-, hfree, rfl⟩ := Kernel.ctlAdd_eq_some hk
    refine .inl (hupd ?_)
    rintro rfl
    rw [h] at hfree
    cases hfree
  | recvData _ hk =>
    obtain ⟨-, -, -, rfl⟩ := Kernel.recv_eq_data hk
    exact .inl h
  | @delClient rev cfd rspfd evs k hr hk =>
    obtain ⟨-, rfl⟩ := Kernel.ctlDel_eq_some hk
    by_cases e : fd = cfd
    · exact .inr ⟨rev, cfd, rspfd, _, evs, hr, .inl ⟨rfl, e, rfl⟩⟩
    · exact .inl (hupd e)
  | @delRsp rev cfd rspfd evs k hr hk =>
    obtain ⟨-, rfl⟩ := Kernel.ctlDel_eq_some hk
    by_cases e : fd = rspfd
    · exact .inr ⟨rev, cfd, rspfd, _, evs, hr, .inr (.inr (.inl ⟨rfl, e, rfl⟩))⟩
    · exact .inl (hupd e)
  | @closeClient rev cfd rspfd evs hr =>
    by_cases e : fd = cfd
    · exact .inr ⟨rev, cfd, rspfd, _, evs, hr, .inr (.inl ⟨rfl, e, rfl⟩)⟩
    · exact .inl (hupd e)
  | @closeRsp rev cfd rspfd evs hr =>
    by_cases e : fd = rspfd
    · exact .inr ⟨rev, cfd, rspfd, _, evs, hr, .inr (.inr (.inr ⟨rfl, e⟩))⟩
    · exact .inl (hupd e)
  | @readOk rev cfd evfd evs k _ hk =>
    obtain rfl : k = (s.kernel.readU64 evfd).2 := by rw [hk]
    exact .inl (by rw [Kernel.readU64_reg]; exact h)
  | @readStop rev cfd evfd evs u k _ hk =>
    obtain rfl : k = (s.kernel.readU64 evfd).2 := by rw [hk]
    exact .inl (by rw [Kernel.readU64_reg]; exact h)
  | write =>
    refine .inl ?_
    simp only [State.record, State.setWorker, Kernel.writeU64_reg]
    exact h
  | exit => exact absurd rfl hexit
  | _ => exact .inl h

/-- `connection_handler` binds and registers the object of a socket in one step. -/
theorem bound_of_step (hs : step s a = some s') (hnone : s.heap (.data c) = none)
    (hb : s'.heap (.data c) ≠ none) : ∃ lfd cfd evfd evs,
      s'.reactor = .conn lfd (.addRsp c cfd evfd) evs ∧ s'.kernel.reg cfd = some (.data c) := by
  cases outcome_of_step hs with
  | @addClient lfd c₀ cfd evfd evs k _ hk =>
    obtain ⟨-, -, rfl⟩ := Kernel.ctlAdd_eq_some hk
    by_cases e : c = c₀
    · subst e
      exact ⟨lfd, cfd, evfd, evs, rfl, Function.update_self ..⟩
    · refine absurd ?_ hb
      exact (bind_heap_of_ne fun h => e (RevPtr.data.inj h)).trans hnone
  | @addRsp _ c₀ cfd evfd =>
    have hh : (s.bind (.rsp c₀) c₀ cfd evfd .rsp_handler).heap (.data c) = s.heap (.data c) :=
      bind_heap_of_ne nofun
    exact absurd (hh.trans hnone) hb
  | _ => exact absurd hnone hb

/-- No step puts a bound connection back into service. -/
theorem serving_before {r₀ : ReactorEvent} (hi : Inv s) (hs : step s a = some s')
    (hb : s.heap (.data c) = some r₀) (h : Serving s' c r) : Serving s c r := by
  obtain rfl : r = r₀ := h.unique (heap_of_step hi hs hb)
  obtain ⟨-, -, -, hacc, hph⟩ := hi.data hb
  have hopen : (∀ fd, s.kernel.files fd ≠ some (.sock c)) → False := by
    intro hno
    rcases opened_of_step hs h.sock with hf | ⟨-, c', _, _, hf, -, hhd⟩ | ⟨-, c', _, _, _, hf, -⟩
    · exact hno _ hf
    · cases hf
      exact hacc.2 (List.mem_of_mem_head? hhd)
    · cases hf
  cases hph with
  | serving h => exact h
  | closing _ hno => exact (hopen hno).elim
  | closed hno => exact (hopen hno).elim

theorem not_serving_of_closing (hi : Inv s) (hc : s.reactor.closing = some (.data c)) :
    ¬ Serving s c r := by
  intro h
  cases hr : s.reactor with
  | data rev cfd rspfd pt evs =>
    rw [hr] at hc
    cases pt with
    | closeRsp =>
      cases hc
      obtain ⟨c', r', hrev, -, -, -, hno, -⟩ := hi.atData hr
      obtain rfl := RevPtr.data.inj hrev
      exact hno _ h.sock
    | _ => cases hc
  | _ =>
    rw [hr] at hc
    cases hc

theorem deleted_of_step {p : RevPtr} (hs : step s a = some s') (hexit : s'.reactor ≠ .exited)
    (h : s.reactor.deleted = some p) :
    s'.reactor.deleted = some p ∨ s'.reactor.closing = some p := by
  cases outcome_of_step hs with
  | connect | clientSend | clientClose | pop | shiftReq | reqEmpty | pushRsp | write => exact .inl h
  | exit => exact absurd rfl hexit
  | delRsp hr =>
    rw [hr] at h
    exact .inl h
  | closeClient hr =>
    rw [hr] at h
    exact .inr h
  | epollWait hr | batchEnd hr | skip hr | connection hr | dataEvent hr | rspEvent hr | accept hr
  | acceptAgain hr | eventfd hr | addClient hr | addRsp hr | recvData hr | recvEof hr | recvAgain hr
  | pushReq hr | addQueue hr | delClient hr | closeRsp hr | unbind hr | readOk hr | readStop hr
  | shiftRsp hr | rspEmpty hr | send hr =>
    rw [hr] at h
    cases h

/-- A connection in service was in service before, or it is bound now. -/
theorem serving_back (hi : Inv s) (hs : step s a = some s') (h : Serving s' c r) :
    Serving s c r ∨ s'.reactor.registering c = true := by
  cases hb : s.heap (.data c) with
  | none =>
    obtain ⟨lfd, cfd, evfd, evs, hr, -⟩ := bound_of_step hs hb (by rw [h.bound]; nofun)
    exact .inr (by simp [hr, Reactor.registering])
  | some r₀ => exact .inl (serving_before hi hs hb h)

theorem registering_next (hi : Inv s) (hs : step s a = some s') (hexit : s'.reactor ≠ .exited)
    (h : s.reactor.registering c = true) : s'.reactor.registering c = true ∨
      ∃ r, Serving s c r ∧ s'.kernel.reg r.rsp_event_fd = some (.rsp c) := by
  cases outcome_of_step hs with
  | connect | clientSend | clientClose | pop | shiftReq | reqEmpty | pushRsp | write => exact .inl h
  | exit => exact absurd rfl hexit
  | addRsp hr hk =>
    have hpt := hi.point
    rw [hr] at h hpt
    obtain rfl := eq_of_beq h
    obtain ⟨-, r, hserv, rfl⟩ := hpt
    obtain ⟨-, -, rfl⟩ := Kernel.ctlAdd_eq_some hk
    exact .inr ⟨_, hserv, Function.update_self ..⟩
  | epollWait hr | batchEnd hr | skip hr | connection hr | dataEvent hr | rspEvent hr | accept hr
  | acceptAgain hr | eventfd hr | addClient hr | recvData hr | recvEof hr | recvAgain hr
  | pushReq hr | addQueue hr | delClient hr | delRsp hr | closeClient hr | closeRsp hr | unbind hr
  | readOk hr | readStop hr | shiftRsp hr | rspEmpty hr | send hr =>
    rw [hr] at h
    cases h

theorem unregistered_next (hs : step s a = some s') (hexit : s'.reactor ≠ .exited)
    (h : s.reactor.unregistered c = true) :
    s'.reactor.unregistered c = true ∨ s'.reactor.closing = some (.data c) := by
  cases outcome_of_step hs with
  | connect | clientSend | clientClose | pop | shiftReq | reqEmpty | pushRsp | write => exact .inl h
  | exit => exact absurd rfl hexit
  | closeClient hr =>
    rw [hr] at h
    obtain rfl := eq_of_beq h
    exact .inr rfl
  | epollWait hr | batchEnd hr | skip hr | connection hr | dataEvent hr | rspEvent hr | accept hr
  | acceptAgain hr | eventfd hr | addClient hr | addRsp hr | recvData hr | recvEof hr | recvAgain hr
  | pushReq hr | addQueue hr | delClient hr | delRsp hr | closeRsp hr | unbind hr | readOk hr
  | readStop hr | shiftRsp hr | rspEmpty hr | send hr =>
    rw [hr] at h
    cases h

/-! ## Both registrations over a step -/

theorem registered_client_step (hi : Inv s) (hs : step s a = some s')
    (h : ∀ {r}, Serving s c r →
      s.reactor.deleted = some (.data c) ∨ s.kernel.reg r.client_fd = some (.data c))
    (h' : Serving s' c r) :
    s'.reactor.deleted = some (.data c) ∨ s'.kernel.reg r.client_fd = some (.data c) := by
  have hi' := inv_step hi hs
  have hexit := hi'.not_exited h'.sock
  cases hb : s.heap (.data c) with
  | none =>
    obtain ⟨lfd, cfd, evfd, evs, hr, hreg⟩ := bound_of_step hs hb (by rw [h'.bound]; nofun)
    have hpt := hi'.point
    rw [hr] at hpt
    obtain ⟨-, r', hserv, rfl⟩ := hpt
    rw [h'.unique hserv.bound]
    exact .inr hreg
  | some r₀ =>
    have hserv := serving_before hi hs hb h'
    rcases h hserv with hd | hreg
    · exact (deleted_of_step hs hexit hd).imp_right fun hc =>
        absurd h' (not_serving_of_closing hi' hc)
    rcases reg_of_step hs hexit hreg with hreg | ⟨rev, cfd, rspfd, pt, evs, hr, hpt⟩
    · exact .inr hreg
    obtain ⟨c₁, r₁, rfl, hc₁, rfl, rfl, hat⟩ := hi.atData hr
    rcases hpt with ⟨rfl, hfd, hr'⟩ | ⟨rfl, hfd, hr'⟩ | ⟨rfl, hfd, -⟩ | ⟨rfl, hfd⟩
    · obtain rfl := hserv.client_inj hat hfd
      exact .inl (by rw [hr']; rfl)
    · obtain rfl := hserv.client_inj hat.1 hfd
      exact absurd h' (not_serving_of_closing hi' (by rw [hr']; rfl))
    · exact absurd hfd (hserv.client_ne_rsp hat.1.event)
    · exact absurd hfd (hserv.client_ne_rsp hat.2.1)

theorem registered_rsp_step (hi : Inv s) (hs : step s a = some s')
    (h : ∀ {r}, Serving s c r → s.kernel.reg r.rsp_event_fd = some (.rsp c) ∨
      s.reactor.registering c = true ∨ s.reactor.unregistered c = true)
    (h' : Serving s' c r) : s'.kernel.reg r.rsp_event_fd = some (.rsp c) ∨
      s'.reactor.registering c = true ∨ s'.reactor.unregistered c = true := by
  have hi' := inv_step hi hs
  have hexit := hi'.not_exited h'.sock
  rcases serving_back hi hs h' with hserv | hnew
  swap
  · exact .inr (.inl hnew)
  rcases h hserv with hreg | hu | hu
  · rcases reg_of_step hs hexit hreg with hreg | ⟨rev, cfd, rspfd, pt, evs, hr, hpt⟩
    · exact .inl hreg
    obtain ⟨c₁, r₁, rfl, hc₁, rfl, rfl, hat⟩ := hi.atData hr
    rcases hpt with ⟨rfl, hfd, -⟩ | ⟨rfl, hfd, -⟩ | ⟨rfl, hfd, hr'⟩ | ⟨rfl, hfd⟩
    · exact absurd hfd.symm (Serving.client_ne_rsp hat hserv.event)
    · exact absurd hfd.symm (hat.1.client_ne_rsp hserv.event)
    · obtain rfl := hserv.rsp_inj hat.1 hfd
      exact .inr (.inr (by simp [hr', Reactor.unregistered]))
    · have hevent := hat.2.1
      rw [← hfd, hserv.event] at hevent
      obtain rfl := File.event.inj (Option.some.inj hevent)
      exact absurd hserv.sock (hat.1 _)
  · rcases registering_next hi hs hexit hu with hu | ⟨r', hserv', hreg⟩
    · exact .inr (.inl hu)
    · rw [hserv.unique hserv'.bound]
      exact .inl hreg
  · rcases unregistered_next hs hexit hu with hu | hc
    · exact .inr (.inr hu)
    · exact absurd h' (not_serving_of_closing hi' hc)

end Step

end PracticeCode.Server31
