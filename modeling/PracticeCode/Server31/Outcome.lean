import PracticeCode.Server31.Defs

/-!
# What a step of server 3.1 can do

`Outcome s a s'` lists the ways a step can end, with what the step read and the state it leaves;
`outcome_of_step` is the inversion of `step`.
-/

namespace PracticeCode.Server31

open Lib Linux

/-- The message between `recv` and the `push` to `req_queue`. -/
def Reactor.pushing : Reactor → Option (RevPtr × Msg)
  | .data rev _ _ (.push msg) _ => some (rev, msg)
  | _ => none

inductive Outcome (s : State) : Act → State → Prop
  -- the clients
  | connect : Outcome s .connect { s with kernel := s.kernel.connect }
  | clientSend {c bytes k} : s.kernel.clientSend c bytes = some k →
      Outcome s (.clientSend c bytes) { s with kernel := k }
  | clientClose {c k} : s.kernel.clientClose c = some k →
      Outcome s (.clientClose c) { s with kernel := k }
  -- the loop of `main`
  | epollWait {fds p} : s.reactor = .wait → s.kernel.epollWait 10 fds = some p →
      Outcome s (.epollWait fds) { s with kernel := p.2, reactor := .loop p.1 }
  | batchEnd : s.reactor = .loop [] → Outcome s .dispatch { s with reactor := .wait }
  | skip {rev evs} : s.reactor = .loop ((rev, false) :: evs) →
      Outcome s .dispatch { s with reactor := .loop evs }
  | connection {rev evs r} : s.reactor = .loop ((rev, true) :: evs) → s.heap rev = some r →
      r.callback = .connection_handler →
      Outcome s .dispatch { s with reactor := .conn r.client_fd .accept evs }
  | dataEvent {rev evs r} : s.reactor = .loop ((rev, true) :: evs) → s.heap rev = some r →
      r.callback = .data_handler_by_worker →
      Outcome s .dispatch { s with reactor := .data rev r.client_fd r.rsp_event_fd .recv evs }
  | rspEvent {rev evs r} : s.reactor = .loop ((rev, true) :: evs) → s.heap rev = some r →
      r.callback = .rsp_handler →
      Outcome s .dispatch { s with reactor := .rsp rev r.client_fd r.rsp_event_fd .read evs }
  -- `connection_handler`
  | accept {fd lfd evs p} : s.reactor = .conn lfd .accept evs → s.kernel.accept lfd fd = some p →
      Outcome s (.accept fd) { s with kernel := p.2, reactor := .conn lfd (.eventfd p.1 fd) evs }
  | acceptAgain {lfd evs} : s.reactor = .conn lfd .accept evs → s.kernel.backlog = [] →
      Outcome s .acceptAgain { s with reactor := .loop evs }
  | eventfd {fd lfd c cfd evs k} : s.reactor = .conn lfd (.eventfd c cfd) evs →
      s.kernel.eventfd fd c = some k →
      Outcome s (.eventfd fd) { s with kernel := k, reactor := .conn lfd (.addClient c cfd fd) evs }
  | addClient {lfd c cfd evfd evs k} : s.reactor = .conn lfd (.addClient c cfd evfd) evs →
      s.kernel.ctlAdd cfd (.data c) = some k →
      Outcome s .ctlAdd { s.bind (.data c) c cfd evfd .data_handler_by_worker with
        kernel := k, reactor := .conn lfd (.addRsp c cfd evfd) evs }
  | addRsp {lfd c cfd evfd evs k} : s.reactor = .conn lfd (.addRsp c cfd evfd) evs →
      s.kernel.ctlAdd evfd (.rsp c) = some k →
      Outcome s .ctlAdd { s.bind (.rsp c) c cfd evfd .rsp_handler with
        kernel := k, reactor := .conn lfd .accept evs }
  -- `data_handler_by_worker`
  | recvData {n beyond rev cfd rspfd evs c chunk k} :
      s.reactor = .data rev cfd rspfd .recv evs → s.kernel.recv cfd n = (.data c chunk, k) →
      Outcome s (.recv n beyond) ({ s with
        kernel := k
        reactor := .data rev cfd rspfd
          (.push ⟨c, (received s.log c).length, cstring chunk beyond⟩) evs }.record
            (.recv rev ⟨c, (received s.log c).length, cstring chunk beyond⟩))
  | recvEof {n beyond rev cfd rspfd evs} : s.reactor = .data rev cfd rspfd .recv evs →
      (s.kernel.recv cfd n).1 = .eof →
      Outcome s (.recv n beyond) { s with reactor := .data rev cfd rspfd .delClient evs }
  | recvAgain {n beyond rev cfd rspfd evs} : s.reactor = .data rev cfd rspfd .recv evs →
      Outcome s (.recv n beyond) { s with reactor := .loop evs }
  | pushReq {rev cfd rspfd msg evs r q} : s.reactor = .data rev cfd rspfd (.push msg) evs →
      s.heap rev = some r → r.req_queue = some q →
      Outcome s .pushReq ({ s with
        req_queue := Function.update s.req_queue q (s.req_queue q ++ [msg])
        reactor := .data rev cfd rspfd .addQueue evs }.record (.pushReq rev msg))
  | addQueue {rev cfd rspfd evs} : s.reactor = .data rev cfd rspfd .addQueue evs →
      Outcome s .addQueue { s with
        task_queue := s.task_queue ++ [rev], reactor := .data rev cfd rspfd .recv evs }
  | delClient {rev cfd rspfd evs k} : s.reactor = .data rev cfd rspfd .delClient evs →
      s.kernel.ctlDel cfd = some k →
      Outcome s .ctlDel { s with kernel := k, reactor := .data rev cfd rspfd .delRsp evs }
  | delRsp {rev cfd rspfd evs k} : s.reactor = .data rev cfd rspfd .delRsp evs →
      s.kernel.ctlDel rspfd = some k →
      Outcome s .ctlDel { s with kernel := k, reactor := .data rev cfd rspfd .closeClient evs }
  | closeClient {rev cfd rspfd evs} : s.reactor = .data rev cfd rspfd .closeClient evs →
      Outcome s .close { s with
        kernel := s.kernel.close cfd, reactor := .data rev cfd rspfd .closeRsp evs }
  | closeRsp {rev cfd rspfd evs} : s.reactor = .data rev cfd rspfd .closeRsp evs →
      Outcome s .close { s with
        kernel := s.kernel.close rspfd, reactor := .data rev cfd rspfd .unbind evs }
  | unbind {rev cfd rspfd evs} : s.reactor = .data rev cfd rspfd .unbind evs →
      Outcome s .unbind { s with
        live := Function.update s.live rev false, reactor := .loop evs }
  -- `rsp_handler`
  | readOk {rev cfd evfd evs k} : s.reactor = .rsp rev cfd evfd .read evs →
      s.kernel.readU64 evfd = (.ok, k) →
      Outcome s .read { s with kernel := k, reactor := .rsp rev cfd evfd .shift evs }
  | readStop {rev cfd evfd evs u k} : s.reactor = .rsp rev cfd evfd .read evs →
      s.kernel.readU64 evfd = (u, k) → u ≠ .ok →
      Outcome s .read { s with kernel := k, reactor := .loop evs }
  | shiftRsp {rev cfd evfd evs r q msg rest} : s.reactor = .rsp rev cfd evfd .shift evs →
      s.heap rev = some r → r.rsp_queue = some q → s.rsp_queue q = msg :: rest →
      Outcome s .shiftRsp { s with
        rsp_queue := Function.update s.rsp_queue q rest
        reactor := .rsp rev cfd evfd (.send msg) evs }
  | rspEmpty {rev cfd evfd evs r q} : s.reactor = .rsp rev cfd evfd .shift evs →
      s.heap rev = some r → r.rsp_queue = some q → s.rsp_queue q = [] →
      Outcome s .shiftRsp ({ s with reactor := .loop evs }.record (.rspEmpty rev))
  | send {rev cfd evfd msg evs res} : s.reactor = .rsp rev cfd evfd (.send msg) evs →
      Outcome s (.send res) ({ s with reactor := .rsp rev cfd evfd .read evs }.record
        (.send rev (s.kernel.files cfd) msg res))
  -- `handle_error`
  | exit {a} : s.reactor.pushing = none → s.reactor ≠ .exited → Outcome s a s.exit
  -- the workers
  | pop {w rev rest} : s.workers[w]? = some .idle → s.task_queue = rev :: rest →
      Outcome s (.pop w) ({ s with task_queue := rest }.setWorker w (.run rev .start))
  | shiftReq {w rev r q msg rest} : s.workers[w]? = some (.run rev .start) → s.heap rev = some r →
      r.req_queue = some q → s.req_queue q = msg :: rest →
      Outcome s (.shiftReq w)
        ({ s with req_queue := Function.update s.req_queue q rest }.setWorker w
          (.run rev (.hold msg)))
  | reqEmpty {w rev r q} : s.workers[w]? = some (.run rev .start) → s.heap rev = some r →
      r.req_queue = some q → s.req_queue q = [] →
      Outcome s (.shiftReq w) ((s.setWorker w .idle).record (.reqEmpty rev))
  | pushRsp {w rev msg r q} : s.workers[w]? = some (.run rev (.hold msg)) → s.heap rev = some r →
      r.rsp_queue = some q →
      Outcome s (.pushRsp w)
        ({ s with rsp_queue := Function.update s.rsp_queue q (s.rsp_queue q ++ [msg]) }.setWorker w
          (.run rev .notify))
  | write {w rev r} : s.workers[w]? = some (.run rev .notify) → s.heap rev = some r →
      Outcome s (.write w)
        (({ s with kernel := s.kernel.writeU64 r.rsp_event_fd }.setWorker w .idle).record
          (.notify rev (s.kernel.files r.rsp_event_fd)))

section

variable {s s' : State} {a : Act}

theorem outcome_of_callback {rev : RevPtr} {evs : List Event}
    (hr : s.reactor = .loop ((rev, true) :: evs)) (h : callback s rev evs = some s') :
    Outcome s .dispatch s' := by
  simp only [callback, Option.map_eq_some_iff] at h
  obtain ⟨r, hh, rfl⟩ := h
  split
  · rename_i hc
    exact .connection hr hh hc
  · rename_i hc
    exact .dataEvent hr hh hc
  · rename_i hc
    exact .rspEvent hr hh hc

theorem outcome_of_connection_handler {lfd : Fd} {pt : ConnPoint} {evs : List Event}
    (hr : s.reactor = .conn lfd pt evs) (h : connection_handler s lfd evs pt a = some s') :
    Outcome s a s' := by
  have hexit : Outcome s a s.exit := .exit (by rw [hr]; rfl) (by rw [hr]; nofun)
  unfold connection_handler at h
  split at h
  · obtain ⟨p, hp, rfl⟩ := Option.map_eq_some_iff.mp h
    exact .accept hr hp
  · split at h
    · rename_i hb
      cases h
      exact .acceptAgain hr hb
    · cases h
  · cases h
    exact hexit
  · obtain ⟨k, hk, rfl⟩ := Option.map_eq_some_iff.mp h
    exact .eventfd hr hk
  · cases h
    exact hexit
  · split at h
    · rename_i hk
      cases h
      exact .addClient hr hk
    · cases h
      exact hexit
  · cases h
    exact hexit
  · split at h
    · rename_i hk
      cases h
      exact .addRsp hr hk
    · cases h
      exact hexit
  · cases h
    exact hexit
  · cases h

theorem outcome_of_data_handler_by_worker {rev : RevPtr} {cfd rspfd : Fd} {pt : DataPoint}
    {evs : List Event} (hr : s.reactor = .data rev cfd rspfd pt evs)
    (h : data_handler_by_worker s rev cfd rspfd evs pt a = some s') : Outcome s a s' := by
  unfold data_handler_by_worker at h
  split at h
  · split at h
    · split at h
      · rename_i hk
        cases h
        exact .recvData hr hk
      · rename_i hk
        cases h
        exact .recvEof hr (congrArg Prod.fst hk)
      · cases h
        exact .recvAgain hr
      · cases h
        exact .exit (by rw [hr]; rfl) (by rw [hr]; nofun)
    · cases h
  · cases h
    exact .exit (by rw [hr]; rfl) (by rw [hr]; nofun)
  · obtain ⟨r, hh, h⟩ := Option.bind_eq_some_iff.mp h
    obtain ⟨q, hq, rfl⟩ := Option.map_eq_some_iff.mp h
    exact .pushReq hr hh hq
  · cases h
    exact .addQueue hr
  · split at h
    · rename_i hk
      cases h
      exact .delClient hr hk
    · cases h
      exact .exit (by rw [hr]; rfl) (by rw [hr]; nofun)
  · split at h
    · rename_i hk
      cases h
      exact .delRsp hr hk
    · cases h
      exact .exit (by rw [hr]; rfl) (by rw [hr]; nofun)
  · cases h
    exact .closeClient hr
  · cases h
    exact .closeRsp hr
  · cases h
    exact .unbind hr
  · cases h

theorem outcome_of_rsp_handler {rev : RevPtr} {cfd evfd : Fd} {pt : RspPoint} {evs : List Event}
    (hr : s.reactor = .rsp rev cfd evfd pt evs)
    (h : rsp_handler s rev cfd evfd evs pt a = some s') :
    Outcome s a s' := by
  unfold rsp_handler at h
  split at h
  · split at h
    · rename_i hk
      cases h
      exact .readOk hr hk
    · rename_i hne hk
      cases h
      exact .readStop hr hk hne
  · obtain ⟨r, hh, h⟩ := Option.bind_eq_some_iff.mp h
    obtain ⟨q, hq, rfl⟩ := Option.map_eq_some_iff.mp h
    split
    · rename_i hm
      exact .shiftRsp hr hh hq hm
    · rename_i hm
      exact .rspEmpty hr hh hq hm
  · split at h
    · cases h
      exact .send hr
    · cases h
  · cases h

theorem outcome_of_reactorStep (h : reactorStep s a = some s') : Outcome s a s' := by
  unfold reactorStep at h
  split at h
  · rename_i hr
    split at h
    · obtain ⟨p, hp, rfl⟩ := Option.map_eq_some_iff.mp h
      exact .epollWait hr hp
    · cases h
  · rename_i hr
    split at h
    · split at h
      · cases h
        exact .batchEnd hr
      · exact outcome_of_callback hr h
      · cases h
        exact .skip hr
    · cases h
  · rename_i hr
    exact outcome_of_connection_handler hr h
  · rename_i hr
    exact outcome_of_data_handler_by_worker hr h
  · rename_i hr
    exact outcome_of_rsp_handler hr h
  · cases h

theorem outcome_of_workerStep (h : workerStep s a = some s') : Outcome s a s' := by
  unfold workerStep at h
  split at h
  · split at h
    · rename_i hw hq
      cases h
      exact .pop hw hq
    · cases h
  · split at h
    · rename_i hw
      obtain ⟨r, hh, h⟩ := Option.bind_eq_some_iff.mp h
      obtain ⟨q, hq, rfl⟩ := Option.map_eq_some_iff.mp h
      split
      · rename_i hm
        exact .shiftReq hw hh hq hm
      · rename_i hm
        exact .reqEmpty hw hh hq hm
    · cases h
  · split at h
    · rename_i hw
      obtain ⟨r, hh, h⟩ := Option.bind_eq_some_iff.mp h
      obtain ⟨q, hq, rfl⟩ := Option.map_eq_some_iff.mp h
      exact .pushRsp hw hh hq
    · cases h
  · split at h
    · rename_i hw
      obtain ⟨r, hh, rfl⟩ := Option.map_eq_some_iff.mp h
      exact .write hw hh
    · cases h
  · cases h

theorem outcome_of_step (h : step s a = some s') : Outcome s a s' := by
  unfold step at h
  split at h
  · cases h
    exact .connect
  · obtain ⟨k, hk, rfl⟩ := Option.map_eq_some_iff.mp h
    exact .clientSend hk
  · obtain ⟨k, hk, rfl⟩ := Option.map_eq_some_iff.mp h
    exact .clientClose hk
  · exact outcome_of_workerStep h
  · exact outcome_of_workerStep h
  · exact outcome_of_workerStep h
  · exact outcome_of_workerStep h
  · exact outcome_of_reactorStep h

end

end PracticeCode.Server31
