import PracticeCode.Lib.Run
import PracticeCode.Lib.Slots
import PracticeCode.Linux.KernelWf

/-!
# `3.single_reactor_multi_worker`: one reactor thread, a pool of workers on the sockets

The steps of `server.cpp` and `WorkerPool.h`, one system call or queue operation each.

* the reactor: `epoll_wait`, the loop over the batch, `connection_handler` (accept until `EAGAIN`,
  then bind and `EPOLL_CTL_ADD` each connection) and `data_handler_by_worker` (one `addQueue`);
* a worker: takes a task and runs `data_handler(rev)`, a loop of `recv` and `send` on
  `rev->client_fd` that leaves on `EAGAIN`, and on EOF or an error deletes the descriptor from epoll
  and closes it;
* the clients connect, send and close at any time.

A `reactor_event` is never released here, so its address is named by what it was bound for.  The
log records what `data_handler` did and which file its number referred to at that moment.
-/

namespace PracticeCode.Server3

open Linux

/-- `epoll_create` and `socket` give the first two numbers after the standard ones. -/
abbrev efd : Fd := 3
abbrev sfd : Fd := 4

inductive Callback where
  | connection_handler | data_handler_by_worker
  deriving DecidableEq

/-- The address of a `reactor_event`: the one of the listening socket, or the one that
`connection_handler` allocated for the connection `c`. -/
inductive RevPtr where
  | listen
  | data (c : Conn)
  deriving DecidableEq

structure ReactorEvent where
  epoll_fd : Fd
  client_fd : Fd
  callback : Callback
  deriving DecidableEq

/-- `ev->data.ptr` and whether `ev->events` has `EPOLLIN`. -/
abbrev Event := RevPtr × Bool

/-- Where a worker is inside `data_handler`.  `send` holds the buffer, and the connection its
bytes came from. -/
inductive Point where
  | recv
  | send (src : Conn) (buf : List UInt8)
  | del
  | close
  deriving DecidableEq

inductive Worker where
  | idle
  | run (rev : RevPtr) (cfd : Fd) (pt : Point)
  deriving DecidableEq

/-- Where the reactor thread is; `evs` is the rest of the batch, `lfd` the `client_fd` of the
event `connection_handler` runs for. -/
inductive Reactor where
  | wait
  | loop (evs : List Event)
  | accept (lfd : Fd) (evs : List Event)
  | add (lfd : Fd) (c : Conn) (cfd : Fd) (evs : List Event)
  | exited
  deriving DecidableEq

/-- A call of `data_handler(rev)` on `rev->client_fd`, with the file the number referred to. -/
inductive Op where
  | recv (rev : RevPtr) (target : Option File) (chunk : List UInt8)
  | send (rev : RevPtr) (target : Option File) (src : Conn) (buf : List UInt8) (res : Option ℕ)
  | ctlDel (rev : RevPtr) (target : Option File)
  | close (rev : RevPtr) (target : Option File)
  deriving DecidableEq

structure State where
  kernel : Kernel RevPtr
  heap : RevPtr → Option ReactorEvent
  reactor : Reactor
  task_queue : List RevPtr
  workers : List Worker
  log : List Op

/-- The events of the batch that the reactor has not looked at yet. -/
def Reactor.batch : Reactor → List Event
  | .loop evs | .accept _ evs | .add _ _ _ evs => evs
  | .wait | .exited => []

/-- `connection_handler` is running. -/
def Reactor.accepting : Reactor → Bool
  | .accept .. | .add .. => true
  | _ => false

/-- `main` up to the event loop, with a pool of `n` workers. -/
def init (n : ℕ) : State where
  kernel := .boot efd sfd .listen
  heap p := if p = .listen then some ⟨efd, sfd, .connection_handler⟩ else none
  reactor := .wait
  task_queue := []
  workers := List.replicate n .idle
  log := []

/-- `bzero(buf)` and then the received bytes: the buffer `data_handler` sends back. -/
def fill (chunk : List UInt8) : List UInt8 := chunk ++ List.replicate (1024 - chunk.length) 0

/-- `handle_error`: the process is gone, its threads and descriptors with it. -/
def State.exit (s : State) : State :=
  { s with kernel := s.kernel.exit, reactor := .exited, task_queue := [], workers := [] }

/-- The choices of the scheduler, the clients and the kernel. -/
inductive Act where
  | connect
  | clientSend (c : Conn) (bytes : List UInt8)
  | clientClose (c : Conn)
  | epollWait (fds : List Fd)
  | dispatch
  | accept (fd : Fd)
  | acceptAgain
  | acceptFail
  | ctlAdd
  | ctlAddFail
  | pop (w : ℕ)
  | recv (w n : ℕ)
  | recvFail (w : ℕ)
  | send (w : ℕ) (res : Option ℕ)
  | ctlDel (w : ℕ)
  | close (w : ℕ)
  deriving DecidableEq

/-- Worker `w` goes on as `x`. -/
def State.setWorker (s : State) (w : ℕ) (x : Worker) : State :=
  { s with workers := s.workers.set w x }

def State.record (s : State) (o : Op) : State := { s with log := s.log ++ [o] }

/-- `rev->callback(ev)` in the event loop. -/
def callback (s : State) (rev : RevPtr) (evs : List Event) : Option State :=
  (s.heap rev).map fun r =>
    match r.callback with
    | .connection_handler => { s with reactor := .accept r.client_fd evs }
    | .data_handler_by_worker =>
      { s with task_queue := s.task_queue ++ [rev], reactor := .loop evs }

/-- The loop of `main` and `connection_handler`. -/
def reactorStep (s : State) : Act → Option State
  | .epollWait fds =>
    match s.reactor with
    | .wait =>
      (s.kernel.epollWait 10 fds).map fun p => { s with kernel := p.2, reactor := .loop p.1 }
    | _ => none
  | .dispatch =>
    match s.reactor with
    | .loop [] => some { s with reactor := .wait }
    | .loop ((rev, true) :: evs) => callback s rev evs
    | .loop ((_, false) :: evs) => some { s with reactor := .loop evs }
    | _ => none
  | .accept fd =>
    match s.reactor with
    | .accept lfd evs =>
      (s.kernel.accept lfd fd).map fun p => { s with kernel := p.2, reactor := .add lfd p.1 fd evs }
    | _ => none
  | .acceptAgain =>
    match s.reactor with
    | .accept _ evs => if s.kernel.backlog = [] then some { s with reactor := .loop evs } else none
    | _ => none
  | .acceptFail =>
    match s.reactor with
    | .accept _ _ => some s.exit
    | _ => none
  | .ctlAdd =>
    match s.reactor with
    | .add lfd c cfd evs =>
      match s.kernel.ctlAdd cfd (.data c) with
      | some k => some { s with
          kernel := k
          heap := Function.update s.heap (.data c) (some ⟨efd, cfd, .data_handler_by_worker⟩)
          reactor := .accept lfd evs }
      | none => some s.exit
    | _ => none
  | .ctlAddFail =>
    match s.reactor with
    | .add .. => some s.exit
    | _ => none
  | _ => none

/-- `run_worker` and `data_handler`. -/
def workerStep (s : State) : Act → Option State
  | .pop w =>
    match s.workers[w]?, s.task_queue with
    | some .idle, rev :: rest =>
      (s.heap rev).map fun r =>
        { s with task_queue := rest }.setWorker w (.run rev r.client_fd .recv)
    | _, _ => none
  | .recv w n =>
    match s.workers[w]? with
    | some (.run rev cfd .recv) =>
      if 0 < n ∧ n ≤ 1024 then
        match s.kernel.recv cfd n with
        | (.data c chunk, k) =>
          some (({ s with kernel := k }.setWorker w (.run rev cfd (.send c (fill chunk)))).record
            (.recv rev (s.kernel.files cfd) chunk))
        | (.again, _) => some ((s.setWorker w .idle).record (.recv rev (s.kernel.files cfd) []))
        -- EOF and every other error delete the descriptor
        | _ => some ((s.setWorker w (.run rev cfd .del)).record (.recv rev (s.kernel.files cfd) []))
      else none
    | _ => none
  | .recvFail w =>
    match s.workers[w]? with
    | some (.run rev cfd .recv) =>
      some ((s.setWorker w (.run rev cfd .del)).record (.recv rev (s.kernel.files cfd) []))
    | _ => none
  | .send w res =>
    match s.workers[w]? with
    | some (.run rev cfd (.send src buf)) =>
      if s.kernel.CanSend cfd buf.length res then
        some ((s.setWorker w (.run rev cfd .recv)).record
          (.send rev (s.kernel.files cfd) src buf res))
      else none
    | _ => none
  | .ctlDel w =>
    match s.workers[w]? with
    | some (.run rev cfd .del) =>
      -- a failing `EPOLL_CTL_DEL` is only reported
      some (({ s with kernel := (s.kernel.ctlDel cfd).getD s.kernel }.setWorker w
        (.run rev cfd .close)).record (.ctlDel rev (s.kernel.files cfd)))
    | _ => none
  | .close w =>
    match s.workers[w]? with
    | some (.run rev cfd .close) =>
      some (({ s with kernel := s.kernel.close cfd }.setWorker w .idle).record
        (.close rev (s.kernel.files cfd)))
    | _ => none
  | _ => none

def step (s : State) (a : Act) : Option State :=
  match a with
  | .connect => some { s with kernel := s.kernel.connect }
  | .clientSend c bytes => (s.kernel.clientSend c bytes).map fun k => { s with kernel := k }
  | .clientClose c => (s.kernel.clientClose c).map fun k => { s with kernel := k }
  | .epollWait .. | .dispatch | .accept .. | .acceptAgain | .acceptFail | .ctlAdd | .ctlAddFail =>
    reactorStep s a
  | .pop .. | .recv .. | .recvFail .. | .send .. | .ctlDel .. | .close .. => workerStep s a

/-- `accept` gives the lowest free number. -/
def lowestFree (s : State) : Act → Prop
  | .accept fd => s.kernel.LowestFree fd
  | _ => True

instance (s : State) (a : Act) : Decidable (lowestFree s a) := by
  induction a using Act.casesOn <;> unfold lowestFree <;> infer_instance

end PracticeCode.Server3
