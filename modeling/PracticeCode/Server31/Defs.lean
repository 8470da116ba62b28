import PracticeCode.Lib.Run
import PracticeCode.Lib.Slots
import PracticeCode.Linux.KernelWf

/-!
# `3.1single_reactor_multi_worker`: the reactor reads and writes, the workers process

The steps of `server.cpp`, `SafeQueue.h` and `WorkerPool.h`, one system call or queue operation
each.

* the reactor: `epoll_wait`, the loop over the batch, and the three callbacks `connection_handler`,
  `data_handler_by_worker` and `rsp_handler`;
* a worker: takes a task and runs `data_handler(rev)`, which moves one message from `req_queue` to
  `rsp_queue` and writes to the eventfd of the connection;
* the clients connect, send and close at any time.

Every connection has two `reactor_event` objects, one for its socket and one for its eventfd, which
share the two queues.  `unbind_reactor_event` releases the first; a released object keeps its
fields and its address is not given out again, so that `live` is all that changes.
-/

namespace PracticeCode.Server31

open Linux

/-- `epoll_create` and `socket` give the first two numbers after the standard ones. -/
abbrev efd : Fd := 3
abbrev sfd : Fd := 4

inductive Callback where
  | connection_handler | data_handler_by_worker | rsp_handler
  deriving DecidableEq

/-- The address of a `reactor_event`: the one of the listening socket, or one of the two that
`connection_handler` allocated for the connection `c`. -/
inductive RevPtr where
  | listen
  | data (c : Conn)
  | rsp (c : Conn)
  deriving DecidableEq

/-- A queue pointer names the connection the queue was allocated for; `none` is `nullptr`. -/
structure ReactorEvent where
  epoll_fd : Fd
  client_fd : Fd
  rsp_event_fd : Fd
  req_queue : Option Conn
  rsp_queue : Option Conn
  callback : Callback
  deriving DecidableEq

/-- A message, the connection it was received from and its place among the messages of it. -/
structure Msg where
  src : Conn
  no : ℕ
  text : List UInt8
  deriving DecidableEq

/-- `ev->data.ptr` and whether `ev->events` has `EPOLLIN`. -/
abbrev Event := RevPtr × Bool

inductive ConnPoint where
  | accept
  | eventfd (c : Conn) (cfd : Fd)
  | addClient (c : Conn) (cfd evfd : Fd)
  | addRsp (c : Conn) (cfd evfd : Fd)
  deriving DecidableEq

inductive DataPoint where
  | recv
  | push (msg : Msg)
  | addQueue
  | delClient | delRsp | closeClient | closeRsp | unbind
  deriving DecidableEq

inductive RspPoint where
  | read
  | shift
  | send (msg : Msg)
  deriving DecidableEq

/-- Where the reactor thread is: the callback it runs with its local variables, and `evs`, the rest
of the batch. -/
inductive Reactor where
  | wait
  | loop (evs : List Event)
  | conn (lfd : Fd) (pt : ConnPoint) (evs : List Event)
  | data (rev : RevPtr) (cfd rspfd : Fd) (pt : DataPoint) (evs : List Event)
  | rsp (rev : RevPtr) (cfd evfd : Fd) (pt : RspPoint) (evs : List Event)
  | exited
  deriving DecidableEq

/-- Where a worker is inside `data_handler`. -/
inductive WorkPoint where
  | start
  | hold (msg : Msg)
  | notify
  deriving DecidableEq

inductive Worker where
  | idle
  | run (rev : RevPtr) (pt : WorkPoint)
  deriving DecidableEq

/-- The log of the messages and of the calls on `client_fd` and `rsp_event_fd`, with the file the
number referred to. -/
inductive Op where
  | recv (rev : RevPtr) (msg : Msg)
  | pushReq (rev : RevPtr) (msg : Msg)
  | reqEmpty (rev : RevPtr)
  | notify (rev : RevPtr) (target : Option File)
  | rspEmpty (rev : RevPtr)
  | send (rev : RevPtr) (target : Option File) (msg : Msg) (res : Option ℕ)
  deriving DecidableEq

structure State where
  kernel : Kernel RevPtr
  heap : RevPtr → Option ReactorEvent
  live : RevPtr → Bool
  req_queue : Conn → List Msg
  rsp_queue : Conn → List Msg
  reactor : Reactor
  task_queue : List RevPtr
  workers : List Worker
  log : List Op

/-! ## Reading the log -/

def Op.isReceived (c : Conn) : Op → Option Msg
  | .recv _ msg => if msg.src = c then some msg else none
  | _ => none

def Op.isPushed (c : Conn) : Op → Option Msg
  | .pushReq rev msg => if rev = .data c then some msg else none
  | _ => none

def Op.isOffered (c : Conn) : Op → Option Msg
  | .send _ target msg _ => if target = some (.sock c) then some msg else none
  | _ => none

def Op.isSent (c : Conn) : Op → Option Msg
  | .send _ target msg res =>
    if target = some (.sock c) ∧ res = some msg.text.length then some msg else none
  | _ => none

/-- The messages `data_handler_by_worker` received from `c`. -/
def received (log : List Op) (c : Conn) : List Msg := log.filterMap (Op.isReceived c)

/-- The messages the reactor pushed to the `req_queue` of `c`. -/
def pushed (log : List Op) (c : Conn) : List Msg := log.filterMap (Op.isPushed c)

/-- The messages `rsp_handler` handed to `send` on the socket of `c`. -/
def offered (log : List Op) (c : Conn) : List Msg := log.filterMap (Op.isOffered c)

/-- The messages the socket of `c` accepted as a whole. -/
def sent (log : List Op) (c : Conn) : List Msg := log.filterMap (Op.isSent c)

/-! ## The steps -/

/-- `main` up to the event loop, with a pool of `n` workers. -/
def init (n : ℕ) : State where
  kernel := .boot efd sfd .listen
  heap p := if p = .listen then some ⟨efd, sfd, 0, none, none, .connection_handler⟩ else none
  live p := p = .listen
  req_queue _ := []
  rsp_queue _ := []
  reactor := .wait
  task_queue := []
  workers := List.replicate n .idle
  log := []

/-- `std::string msg(buf)`: the zeroed buffer with the chunk in front is read up to the first zero,
and past its end, where `beyond` stands, when it has none. -/
def cstring (chunk beyond : List UInt8) : List UInt8 :=
  (chunk ++ List.replicate (1024 - chunk.length) 0 ++ beyond).takeWhile (· ≠ 0)

/-- `handle_error`: the process is gone, its threads and descriptors with it. -/
def State.exit (s : State) : State :=
  { s with kernel := s.kernel.exit, reactor := .exited, task_queue := [], workers := [] }

/-- The choices of the scheduler, the clients and the kernel. -/
inductive Act where
  | connect
  | clientSend (c : Conn) (bytes : List UInt8)
  | clientClose (c : Conn)
  | epollWait (fds : List Fd)
  | dispatch
  | accept (fd : Fd)
  | acceptAgain
  | acceptFail
  | eventfd (fd : Fd)
  | eventfdFail
  | ctlAdd
  | ctlAddFail
  | recv (n : ℕ) (beyond : List UInt8)
  | recvFail
  | pushReq
  | addQueue
  | ctlDel
  | close
  | unbind
  | read
  | shiftRsp
  | send (res : Option ℕ)
  | pop (w : ℕ)
  | shiftReq (w : ℕ)
  | pushRsp (w : ℕ)
  | write (w : ℕ)
  deriving DecidableEq

/-- Worker `w` goes on as `x`. -/
def State.setWorker (s : State) (w : ℕ) (x : Worker) : State :=
  { s with workers := s.workers.set w x }

def State.record (s : State) (o : Op) : State := { s with log := s.log ++ [o] }

/-- `bind_reacotr_event`, which allocates the object `p`. -/
def State.bind (s : State) (p : RevPtr) (c : Conn) (cfd evfd : Fd) (callback : Callback) : State :=
  { s with
    heap := Function.update s.heap p (some ⟨efd, cfd, evfd, some c, some c, callback⟩)
    live := Function.update s.live p true }

/-- `rev->callback(ev)` in the event loop. -/
def callback (s : State) (rev : RevPtr) (evs : List Event) : Option State :=
  (s.heap rev).map fun r =>
    match r.callback with
    | .connection_handler => { s with reactor := .conn r.client_fd .accept evs }
    | .data_handler_by_worker =>
      { s with reactor := .data rev r.client_fd r.rsp_event_fd .recv evs }
    | .rsp_handler => { s with reactor := .rsp rev r.client_fd r.rsp_event_fd .read evs }

def connection_handler (s : State) (lfd : Fd) (evs : List Event) : ConnPoint → Act → Option State
  | .accept, .accept fd => (s.kernel.accept lfd fd).map fun p =>
      { s with kernel := p.2, reactor := .conn lfd (.eventfd p.1 fd) evs }
  | .accept, .acceptAgain =>
    if s.kernel.backlog = [] then some { s with reactor := .loop evs } else none
  | .accept, .acceptFail => some s.exit
  | .eventfd c cfd, .eventfd fd => (s.kernel.eventfd fd c).map fun k =>
      { s with kernel := k, reactor := .conn lfd (.addClient c cfd fd) evs }
  -- -1 is no descriptor: its `EPOLL_CTL_ADD` fails and ends the process
  | .eventfd _ _, .eventfdFail => some s.exit
  | .addClient c cfd evfd, .ctlAdd =>
    match s.kernel.ctlAdd cfd (.data c) with
    | some k => some { s.bind (.data c) c cfd evfd .data_handler_by_worker with
        kernel := k, reactor := .conn lfd (.addRsp c cfd evfd) evs }
    | none => some s.exit
  | .addClient _ _ _, .ctlAddFail => some s.exit
  | .addRsp c cfd evfd, .ctlAdd =>
    match s.kernel.ctlAdd evfd (.rsp c) with
    | some k => some { s.bind (.rsp c) c cfd evfd .rsp_handler with
        kernel := k, reactor := .conn lfd .accept evs }
    | none => some s.exit
  | .addRsp _ _ _, .ctlAddFail => some s.exit
  | _, _ => none

def data_handler_by_worker (s : State) (rev : RevPtr) (cfd rspfd : Fd) (evs : List Event) :
    DataPoint → Act → Option State
  | .recv, .recv n beyond =>
    if 0 < n ∧ n ≤ 1024 then
      match s.kernel.recv cfd n with
      | (.data c chunk, k) =>
        let msg : Msg := ⟨c, (received s.log c).length, cstring chunk beyond⟩
        some ({ s with kernel := k, reactor := .data rev cfd rspfd (.push msg) evs }.record
          (.recv rev msg))
      | (.eof, _) => some { s with reactor := .data rev cfd rspfd .delClient evs }
      | (.again, _) => some { s with reactor := .loop evs }
      | (.fail, _) => some s.exit
    else none
  | .recv, .recvFail => some s.exit
  | .push msg, .pushReq => (s.heap rev).bind fun r => r.req_queue.map fun q =>
      { s with
        req_queue := Function.update s.req_queue q (s.req_queue q ++ [msg])
        reactor := .data rev cfd rspfd .addQueue evs }.record (.pushReq rev msg)
  | .addQueue, .addQueue => some { s with
      task_queue := s.task_queue ++ [rev], reactor := .data rev cfd rspfd .recv evs }
  | .delClient, .ctlDel =>
    match s.kernel.ctlDel cfd with
    | some k => some { s with kernel := k, reactor := .data rev cfd rspfd .delRsp evs }
    | none => some s.exit
  | .delRsp, .ctlDel =>
    match s.kernel.ctlDel rspfd with
    | some k => some { s with kernel := k, reactor := .data rev cfd rspfd .closeClient evs }
    | none => some s.exit
  | .closeClient, .close => some { s with
      kernel := s.kernel.close cfd, reactor := .data rev cfd rspfd .closeRsp evs }
  | .closeRsp, .close => some { s with
      kernel := s.kernel.close rspfd, reactor := .data rev cfd rspfd .unbind evs }
  -- `unbind_reactor_event`; the pointer it clears is the one of the batch
  | .unbind, .unbind => some { s with
      live := Function.update s.live rev false, reactor := .loop evs }
  | _, _ => none

def rsp_handler (s : State) (rev : RevPtr) (cfd evfd : Fd) (evs : List Event) :
    RspPoint → Act → Option State
  | .read, .read =>
    match s.kernel.readU64 evfd with
    | (.ok, k) => some { s with kernel := k, reactor := .rsp rev cfd evfd .shift evs }
    | (_, k) => some { s with kernel := k, reactor := .loop evs }
  | .shift, .shiftRsp => (s.heap rev).bind fun r => r.rsp_queue.map fun q =>
    match s.rsp_queue q with
    | msg :: rest => { s with
        rsp_queue := Function.update s.rsp_queue q rest
        reactor := .rsp rev cfd evfd (.send msg) evs }
    | [] => { s with reactor := .loop evs }.record (.rspEmpty rev)
  | .send msg, .send res =>
    if s.kernel.CanSend cfd msg.text.length res then
      some ({ s with reactor := .rsp rev cfd evfd .read evs }.record
        (.send rev (s.kernel.files cfd) msg res))
    else none
  | _, _ => none

/-- The loop of `main` and the callback it is in. -/
def reactorStep (s : State) (a : Act) : Option State :=
  match s.reactor with
  | .wait =>
    match a with
    | .epollWait fds =>
      (s.kernel.epollWait 10 fds).map fun p => { s with kernel := p.2, reactor := .loop p.1 }
    | _ => none
  | .loop evs =>
    match a with
    | .dispatch =>
      match evs with
      | [] => some { s with reactor := .wait }
      | (rev, true) :: evs => callback s rev evs
      | (_, false) :: evs => some { s with reactor := .loop evs }
    | _ => none
  | .conn lfd pt evs => connection_handler s lfd evs pt a
  | .data rev cfd rspfd pt evs => data_handler_by_worker s rev cfd rspfd evs pt a
  | .rsp rev cfd evfd pt evs => rsp_handler s rev cfd evfd evs pt a
  | .exited => none

/-- `run_worker` and `data_handler`. -/
def workerStep (s : State) : Act → Option State
  | .pop w =>
    match s.workers[w]?, s.task_queue with
    | some .idle, rev :: rest => some ({ s with task_queue := rest }.setWorker w (.run rev .start))
    | _, _ => none
  | .shiftReq w =>
    match s.workers[w]? with
    | some (.run rev .start) => (s.heap rev).bind fun r => r.req_queue.map fun q =>
      match s.req_queue q with
      | msg :: rest => { s with
          req_queue := Function.update s.req_queue q rest }.setWorker w (.run rev (.hold msg))
      | [] => (s.setWorker w .idle).record (.reqEmpty rev)
    | _ => none
  | .pushRsp w =>
    match s.workers[w]? with
    | some (.run rev (.hold msg)) => (s.heap rev).bind fun r => r.rsp_queue.map fun q =>
      { s with rsp_queue := Function.update s.rsp_queue q (s.rsp_queue q ++ [msg]) }.setWorker w
        (.run rev .notify)
    | _ => none
  | .write w =>
    match s.workers[w]? with
    | some (.run rev .notify) => (s.heap rev).map fun r =>
      -- a write that fails is only reported
      ({ s with kernel := s.kernel.writeU64 r.rsp_event_fd }.setWorker w .idle).record
        (.notify rev (s.kernel.files r.rsp_event_fd))
    | _ => none
  | _ => none

def step (s : State) (a : Act) : Option State :=
  match a with
  | .connect => some { s with kernel := s.kernel.connect }
  | .clientSend c bytes => (s.kernel.clientSend c bytes).map fun k => { s with kernel := k }
  | .clientClose c => (s.kernel.clientClose c).map fun k => { s with kernel := k }
  | .pop .. | .shiftReq .. | .pushRsp .. | .write .. => workerStep s a
  | _ => reactorStep s a

/-- `accept` and `eventfd` give the lowest free number. -/
def lowestFree (s : State) : Act → Prop
  | .accept fd | .eventfd fd => s.kernel.LowestFree fd
  | _ => True

instance (s : State) (a : Act) : Decidable (lowestFree s a) := by
  induction a using Act.casesOn <;> unfold lowestFree <;> infer_instance

end PracticeCode.Server31
