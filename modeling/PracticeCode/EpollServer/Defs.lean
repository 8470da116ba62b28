import PracticeCode.Lib.Run
import PracticeCode.Linux.KernelWf

/-!
# `epoll/server.cpp`: one thread, edge-triggered

`EpollINET(sfd, true)`, one system call a step: `epoll_wait`, the loop over the batch, one `accept`
and `EPOLL_CTL_ADD` for an event of the listening socket, and for the other descriptors a loop of
`recv` and `send` that leaves on `EAGAIN` or a failed `send`, and on EOF or any other error of
`recv` deletes the descriptor from epoll and closes it.  The clients connect, send and close at any
time.

`Outcome s a s'` lists the ways a step can end; `outcome_of_step` is the inversion of `step`.
-/

namespace PracticeCode.EpollServer

open Linux

/-- `ListenINET` makes the socket before `EpollINET` makes the epoll instance. -/
abbrev sfd : Fd := 3
abbrev efd : Fd := 4

/-- `ev.data.fd` and whether `ev.events` has `EPOLLIN`. -/
abbrev Event := Fd × Bool

/-- Where the thread is; `evs` is the rest of the batch, `cfd` the descriptor of the event that is
handled, or the one that `accept` returned. -/
inductive Point where
  | wait
  | loop (evs : List Event)
  | accept (evs : List Event)
  | add (cfd : Fd) (evs : List Event)
  | recv (cfd : Fd) (evs : List Event)
  | send (cfd : Fd) (buf : List UInt8) (evs : List Event)
  | del (cfd : Fd) (evs : List Event)
  | close (cfd : Fd) (evs : List Event)
  | exited
  deriving DecidableEq

structure State where
  kernel : Kernel Fd
  point : Point

/-- The events of the batch that the loop has not looked at yet. -/
def Point.batch : Point → List Event
  | .loop evs | .accept evs | .add _ evs | .recv _ evs | .send _ _ evs | .del _ evs
  | .close _ evs => evs
  | .wait | .exited => []

/-- The descriptor whose event is being handled; one `accept` is all an event of `sfd` gets. -/
def Point.serving : Point → Option Fd
  | .accept _ => some sfd
  | .recv cfd _ | .send cfd _ _ | .del cfd _ | .close cfd _ => some cfd
  | .wait | .loop _ | .add .. | .exited => none

/-- `main` up to the event loop. -/
def init : State where
  kernel := .boot efd sfd sfd
  point := .wait

/-- `BUFFER_SIZE`. -/
abbrev bufferSize : ℕ := 1024

/-- `bzero(buf)` and then the received bytes: the buffer that is sent back. -/
def fill (chunk : List UInt8) : List UInt8 := chunk ++ List.replicate (bufferSize - chunk.length) 0

/-- `handle_error`: the process is gone and its descriptors with it. -/
def State.exit (s : State) : State := { kernel := s.kernel.exit, point := .exited }

/-- The choices of the clients and the kernel. -/
inductive Act where
  | connect
  | clientSend (c : Conn) (bytes : List UInt8)
  | clientClose (c : Conn)
  | epollWait (fds : List Fd)
  | epollFail
  | dispatch
  | accept (fd : Fd)
  | acceptFail
  | ctlAdd
  | ctlAddFail
  | recv (n : ℕ)
  | recvFail
  | send (res : Option ℕ)
  | ctlDel
  | close
  deriving DecidableEq

/-- The `while (1)` of `EpollINET`. -/
def loopStep (s : State) : Act → Option State
  | .epollWait fds =>
    match s.point with
    -- `EPOLL_MAX_EVENTS`
    | .wait => (s.kernel.epollWait 10 fds).map fun p => { kernel := p.2, point := .loop p.1 }
    | _ => none
  | .epollFail =>
    match s.point with
    | .wait => some s.exit
    | _ => none
  | .dispatch =>
    match s.point with
    | .loop [] => some { s with point := .wait }
    | .loop ((_, false) :: evs) => some { s with point := .loop evs }
    | .loop ((cfd, true) :: evs) =>
      if cfd = sfd then some { s with point := .accept evs }
      else some { s with point := .recv cfd evs }
    | _ => none
  | .accept fd =>
    match s.point with
    | .accept evs => (s.kernel.accept sfd fd).map fun p => { kernel := p.2, point := .add fd evs }
    | _ => none
  | .acceptFail =>
    match s.point with
    -- whatever `errno` is, the next event is handled
    | .accept evs => some { s with point := .loop evs }
    | _ => none
  | .ctlAdd =>
    match s.point with
    | .add cfd evs =>
      match s.kernel.ctlAdd cfd cfd with
      | some k => some { kernel := k, point := .loop evs }
      | none => some s.exit
    | _ => none
  | .ctlAddFail =>
    match s.point with
    | .add .. => some s.exit
    | _ => none
  | .recv n =>
    match s.point with
    | .recv cfd evs =>
      if 0 < n ∧ n ≤ bufferSize then
        match s.kernel.recv cfd n with
        | (.data _ chunk, k) => some { kernel := k, point := .send cfd (fill chunk) evs }
        | (.again, _) => some { s with point := .loop evs }
        -- EOF and every other error delete the descriptor
        | _ => some { s with point := .del cfd evs }
      else none
    | _ => none
  | .recvFail =>
    match s.point with
    | .recv cfd evs => some { s with point := .del cfd evs }
    | _ => none
  | .send res =>
    match s.point with
    | .send cfd buf evs =>
      if s.kernel.CanSend cfd buf.length res then
        match res with
        | none => some { s with point := .loop evs }
        | some _ => some { s with point := .recv cfd evs }
      else none
    | _ => none
  | .ctlDel =>
    match s.point with
    | .del cfd evs =>
      match s.kernel.ctlDel cfd with
      | some k => some { kernel := k, point := .close cfd evs }
      | none => some s.exit
    | _ => none
  | .close =>
    match s.point with
    | .close cfd evs => some { kernel := s.kernel.close cfd, point := .loop evs }
    | _ => none
  | _ => none

def step (s : State) (a : Act) : Option State :=
  match a with
  | .connect => some { s with kernel := s.kernel.connect }
  | .clientSend c bytes => (s.kernel.clientSend c bytes).map fun k => { s with kernel := k }
  | .clientClose c => (s.kernel.clientClose c).map fun k => { s with kernel := k }
  | a => loopStep s a

/-- `accept` gives the lowest free number. -/
def lowestFree (s : State) : Act → Prop
  | .accept fd => s.kernel.LowestFree fd
  | _ => True

instance (s : State) (a : Act) : Decidable (lowestFree s a) := by
  induction a using Act.casesOn <;> unfold lowestFree <;> infer_instance

/-! ## The inversion of `step` -/

inductive Outcome (s : State) : Act → State → Prop
  | connect : Outcome s .connect { s with kernel := s.kernel.connect }
  | clientSend {c bytes k} : s.kernel.clientSend c bytes = some k →
      Outcome s (.clientSend c bytes) { s with kernel := k }
  | clientClose {c k} : s.kernel.clientClose c = some k →
      Outcome s (.clientClose c) { s with kernel := k }
  | epollWait {fds p} : s.point = .wait → s.kernel.epollWait 10 fds = some p →
      Outcome s (.epollWait fds) { kernel := p.2, point := .loop p.1 }
  | exit {a} : Outcome s a s.exit
  | batchEnd : s.point = .loop [] → Outcome s .dispatch { s with point := .wait }
  | skip {fd evs} : s.point = .loop ((fd, false) :: evs) →
      Outcome s .dispatch { s with point := .loop evs }
  | listening {evs} : s.point = .loop ((sfd, true) :: evs) →
      Outcome s .dispatch { s with point := .accept evs }
  | data {cfd evs} : s.point = .loop ((cfd, true) :: evs) → cfd ≠ sfd →
      Outcome s .dispatch { s with point := .recv cfd evs }
  | accept {fd evs p} : s.point = .accept evs → s.kernel.accept sfd fd = some p →
      Outcome s (.accept fd) { kernel := p.2, point := .add fd evs }
  | acceptFail {evs} : s.point = .accept evs → Outcome s .acceptFail { s with point := .loop evs }
  | ctlAdd {cfd evs k} : s.point = .add cfd evs → s.kernel.ctlAdd cfd cfd = some k →
      Outcome s .ctlAdd { kernel := k, point := .loop evs }
  | recvData {n cfd evs c chunk k} : s.point = .recv cfd evs →
      s.kernel.recv cfd n = (.data c chunk, k) →
      Outcome s (.recv n) { kernel := k, point := .send cfd (fill chunk) evs }
  | recvAgain {n cfd evs c} : s.point = .recv cfd evs → s.kernel.files cfd = some (.sock c) →
      s.kernel.inbox c = [] → Outcome s (.recv n) { s with point := .loop evs }
  | recvStop {a cfd evs} : s.point = .recv cfd evs → Outcome s a { s with point := .del cfd evs }
  | sendFail {cfd buf evs} : s.point = .send cfd buf evs →
      Outcome s (.send none) { s with point := .loop evs }
  | send {m cfd buf evs} : s.point = .send cfd buf evs →
      Outcome s (.send (some m)) { s with point := .recv cfd evs }
  | ctlDel {cfd evs k} : s.point = .del cfd evs → s.kernel.ctlDel cfd = some k →
      Outcome s .ctlDel { kernel := k, point := .close cfd evs }
  | close {cfd evs} : s.point = .close cfd evs →
      Outcome s .close { kernel := s.kernel.close cfd, point := .loop evs }

theorem outcome_of_dispatch {s s' : State} (h : loopStep s .dispatch = some s') :
    Outcome s .dispatch s' := by
  simp only [loopStep] at h
  split at h
  · rename_i hp
    cases h
    exact .batchEnd hp
  · rename_i hp
    cases h
    exact .skip hp
  · rename_i cfd evs hp
    split at h
    · rename_i e
      cases h
      exact .listening (e ▸ hp)
    · rename_i hne
      cases h
      exact .data hp hne
  · cases h

theorem outcome_of_recv {s s' : State} {n : ℕ} (h : loopStep s (.recv n) = some s') :
    Outcome s (.recv n) s' := by
  simp only [loopStep] at h
  split at h
  · rename_i hp
    split at h
    · split at h
      · rename_i hk
        cases h
        exact .recvData hp hk
      · rename_i hk
        cases h
        obtain ⟨-, c, hf, hb, -⟩ := Kernel.recv_eq_again hk
        exact .recvAgain hp hf hb
      · cases h
        exact .recvStop hp
    · cases h
  · cases h

theorem outcome_of_send {s s' : State} {res : Option ℕ} (h : loopStep s (.send res) = some s') :
    Outcome s (.send res) s' := by
  simp only [loopStep] at h
  split at h
  · rename_i hp
    split at h
    · cases res with
      | none =>
        cases h
        exact .sendFail hp
      | some m =>
        cases h
        exact .send hp
    · cases h
  · cases h

theorem outcome_of_loopStep {s s' : State} {a : Act} (h : loopStep s a = some s') :
    Outcome s a s' := by
  cases a with
  | dispatch => exact outcome_of_dispatch h
  | recv n => exact outcome_of_recv h
  | send res => exact outcome_of_send h
  | epollWait fds =>
    simp only [loopStep] at h
    split at h
    · rename_i hp
      obtain ⟨p, hk, rfl⟩ := Option.map_eq_some_iff.mp h
      exact .epollWait hp hk
    · cases h
  | accept fd =>
    simp only [loopStep] at h
    split at h
    · rename_i hp
      obtain ⟨p, hk, rfl⟩ := Option.map_eq_some_iff.mp h
      exact .accept hp hk
    · cases h
  | acceptFail =>
    simp only [loopStep] at h
    split at h
    · rename_i hp
      cases h
      exact .acceptFail hp
    · cases h
  | recvFail =>
    simp only [loopStep] at h
    split at h
    · rename_i hp
      cases h
      exact .recvStop hp
    · cases h
  | ctlAdd =>
    simp only [loopStep] at h
    split at h
    · rename_i hp
      split at h
      · rename_i hk
        cases h
        exact .ctlAdd hp hk
      · cases h
        exact .exit
    · cases h
  | ctlDel =>
    simp only [loopStep] at h
    split at h
    · rename_i hp
      split at h
      · rename_i hk
        cases h
        exact .ctlDel hp hk
      · cases h
        exact .exit
    · cases h
  | close =>
    simp only [loopStep] at h
    split at h
    · rename_i hp
      cases h
      exact .close hp
    · cases h
  | epollFail | ctlAddFail =>
    simp only [loopStep] at h
    split at h <;> cases h
    exact .exit
  | connect | clientSend _ _ | clientClose _ => simp [loopStep] at h

theorem outcome_of_step {s s' : State} {a : Act} (h : step s a = some s') : Outcome s a s' := by
  unfold step at h
  split at h
  · cases h
    exact .connect
  · obtain ⟨k, hk, rfl⟩ := Option.map_eq_some_iff.mp h
    exact .clientSend hk
  · obtain ⟨k, hk, rfl⟩ := Option.map_eq_some_iff.mp h
    exact .clientClose hk
  · exact outcome_of_loopStep h

end PracticeCode.EpollServer
