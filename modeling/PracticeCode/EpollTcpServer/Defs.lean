import PracticeCode.Lib.Run
import PracticeCode.Linux.Kernel

/-!
# `epoll_demo/epoll_server.cpp`: the loop thread of `EpollTcpServer`

`EpollLoop` and what it calls (`OnSocketAccept`, `OnSocketRead`, the callback of `main`, which is
`SendData`), one system call a step.  The kernel is left open: every action carries the results of
its calls, and a result is only excluded where the descriptor table excludes it (a call on a number
that is not open fails, `accept` returns a number that is not open, `epoll_wait` returns registered
descriptors, each of them once).

A negative descriptor (`handle_{-1}`, `Packet::fd{-1}`) is `none`.  The log records the calls of the
thread on its descriptors, each with the file the number referred to at that moment.
-/

namespace PracticeCode.EpollTcpServer

open Linux

/-- `kMaxEvents`. -/
abbrev kMaxEvents : ℕ := 100

/-- The size of `read_buf`. -/
abbrev readBufSize : ℕ := 4096

/-- The bits of `alive_events[i].events` that the loop looks at. -/
structure Mask where
  epollerr : Bool
  epollhup : Bool
  epollrdhup : Bool
  epollin : Bool
  epollout : Bool
  deriving DecidableEq

/-- `EPOLLIN` alone. -/
def Mask.readable : Mask := ⟨false, false, false, true, false⟩

/-- `alive_events[i]`: `data.fd` and `events`. -/
abbrev Event := Fd × Mask

structure Packet where
  fd : Option Fd := none
  msg : List UInt8
  deriving DecidableEq

/-- The functions that `main` registers: `recv_call`, which sends the packet back. -/
inductive Callback where
  | recv_call
  deriving DecidableEq

/-- The fields of `EpollTcpServer` that the loop uses. -/
structure Server where
  handle_ : Option Fd := none
  efd_ : Option Fd := none
  loop_flag_ : Bool := true
  recv_callback_ : Option Callback := none
  deriving DecidableEq

/-- Where the thread is.  `evs` is the rest of the batch, `fd` the descriptor of the event that is
handled and `cli_fd` the one that `accept` returned. -/
inductive Point where
  | start
  | head
  | wait
  | loop (evs : List Event)
  -- `OnSocketAccept`
  | accept (evs : List Event)
  | getpeername (cli_fd : Fd) (evs : List Event)
  | getfl (cli_fd : Fd) (evs : List Event)
  | setfl (cli_fd : Fd) (evs : List Event)
  | ctlAdd (cli_fd : Fd) (evs : List Event)
  | closeClient (cli_fd : Fd) (evs : List Event)
  -- `OnSocketRead`: the null test of the callback, and the call
  | read (fd : Fd) (evs : List Event)
  | testCallback (data : Packet) (fd : Fd) (evs : List Event)
  | callback (data : Packet) (fd : Fd) (evs : List Event)
  -- `SendData`
  | write (data : Packet) (fd : Fd) (evs : List Event)
  | closeSend (sfd fd : Fd) (evs : List Event)
  -- the `close` of `EpollLoop`, and the ones that `OnSocketRead` returns after
  | close (fd : Fd) (evs : List Event)
  | done
  -- an empty `std::function` was called
  | terminated
  deriving DecidableEq

/-- A call of the thread on a descriptor, with the file the number referred to. -/
inductive Op where
  | epollWait (target : Option File)
  | accept (target : Option File)
  | callback (data : Packet)
  | read (target : Option File) (chunk : List UInt8)
  | write (target : Option File) (msg : List UInt8) (res : Option ℕ)
  | close (target : Option File)
  deriving DecidableEq

/-- `interest` is the interest list of the epoll instance, `conns` the number of connections
accepted so far. -/
structure State where
  files : Fd → Option File
  interest : Fd → Bool
  conns : ℕ
  self : Server
  point : Point
  log : List Op

inductive AcceptResult where
  | ok (cli_fd : Fd)
  | again
  | error
  deriving DecidableEq

inductive ReadResult where
  | data (chunk : List UInt8)
  | eof
  | again
  | error
  deriving DecidableEq

inductive WriteResult where
  | ok (n : ℕ)
  | again
  | error
  deriving DecidableEq

/-- The steps of the thread with the results of its calls. -/
inductive Act where
  | calloc (ok : Bool)
  | test
  | epollWait (evs : List Event)
  | dispatch
  | accept (res : AcceptResult)
  | getpeername (ok : Bool)
  | getfl (ok : Bool)
  | setfl (ok : Bool)
  | ctlAdd (ok : Bool)
  | read (res : ReadResult)
  | testCallback
  | callback
  | write (res : WriteResult)
  | close
  deriving DecidableEq

namespace State

variable (s : State)

def goto (p : Point) : State := { s with point := p }

def record (o : Op) : State := { s with log := s.log ++ [o] }

/-- What `handle_` and `efd_` refer to. -/
def listening : Option File := s.self.handle_.bind s.files

def epoll : Option File := s.self.efd_.bind s.files

/-- `close(fd)`, which also takes the number off the interest list. -/
def closeFd (fd : Fd) : State :=
  { s with
    files := Function.update s.files fd none
    interest := Function.update s.interest fd false
    log := s.log ++ [.close (s.files fd)] }

end State

/-! ## The results a call can have -/

section Results

variable (s : State)

/-- A connection is behind the number. -/
def isSock (f : Option File) : Bool := f.any fun f => f matches .sock _

/-- The array that `epoll_wait` fills; it is empty on a timeout or an error. -/
def CanWait (evs : List Event) : Prop :=
  evs = [] ∨ s.epoll = some .epoll ∧ evs.length ≤ kMaxEvents ∧ (evs.map Prod.fst).Nodup ∧
    ∀ e ∈ evs, s.interest e.1 = true

def CanAccept : AcceptResult → Prop
  | .ok cli_fd => s.listening = some .listening ∧ s.files cli_fd = none
  | .again => s.listening = some .listening
  | .error => True

def CanRead (fd : Fd) : ReadResult → Prop
  | .data chunk => isSock (s.files fd) = true ∧ chunk ≠ [] ∧ chunk.length ≤ readBufSize
  | .eof | .again => isSock (s.files fd) = true
  | .error => True

def CanWrite (fd : Fd) (msg : List UInt8) : WriteResult → Prop
  | .ok n => isSock (s.files fd) = true ∧ n ≤ msg.length
  | .again => isSock (s.files fd) = true
  | .error => True

instance (evs : List Event) : Decidable (CanWait s evs) := by unfold CanWait; infer_instance

instance (res : AcceptResult) : Decidable (CanAccept s res) := by
  induction res using AcceptResult.casesOn <;> unfold CanAccept <;> infer_instance

instance (fd : Fd) (res : ReadResult) : Decidable (CanRead s fd res) := by
  induction res using ReadResult.casesOn <;> unfold CanRead <;> infer_instance

instance (fd : Fd) (msg : List UInt8) (res : WriteResult) : Decidable (CanWrite s fd msg res) := by
  induction res using WriteResult.casesOn <;> unfold CanWrite <;> infer_instance

end Results

/-! ## The functions of the class -/

/-- The `while (true)` of `OnSocketAccept`, with `MakeSocketNonBlock` and `UpdateEpollEvents`. -/
def onSocketAccept (s : State) : Act → Option State
  | .accept res =>
    match s.point with
    | .accept evs =>
      if CanAccept s res then
        match res with
        | .ok cli_fd => some (({ s with
            files := Function.update s.files cli_fd (some (.sock s.conns))
            conns := s.conns + 1 }.goto (.getpeername cli_fd evs)).record (.accept s.listening))
        | .again => some ((s.goto (.loop evs)).record (.accept s.listening))
        | .error => some ((s.goto (.accept evs)).record (.accept s.listening))
      else none
    | _ => none
  | .getpeername ok =>
    match s.point with
    | .getpeername cli_fd evs => some (s.goto (if ok then .getfl cli_fd evs else .accept evs))
    | _ => none
  | .getfl ok =>
    match s.point with
    | .getfl cli_fd evs =>
      some (s.goto (if ok then .setfl cli_fd evs else .closeClient cli_fd evs))
    | _ => none
  | .setfl ok =>
    match s.point with
    | .setfl cli_fd evs =>
      some (s.goto (if ok then .ctlAdd cli_fd evs else .closeClient cli_fd evs))
    | _ => none
  | .ctlAdd ok =>
    match s.point with
    | .ctlAdd cli_fd evs =>
      if ok then
        if s.epoll = some .epoll ∧ s.files cli_fd ≠ none ∧ s.interest cli_fd = false then
          some ({ s with interest := Function.update s.interest cli_fd true }.goto (.accept evs))
        else none
      else some (s.goto (.closeClient cli_fd evs))
    | _ => none
  | .close =>
    match s.point with
    | .closeClient cli_fd evs => some ((s.closeFd cli_fd).goto (.accept evs))
    | _ => none
  | _ => none

/-- `SendData`, called from `OnSocketRead`, whose loop goes on whatever it returns. -/
def sendData (s : State) : Act → Option State
  | .write res =>
    match s.point with
    | .write data fd evs =>
      match data.fd with
      | none => some (s.goto (.read fd evs))
      | some sfd =>
        if CanWrite s sfd data.msg res then
          match res with
          | .ok n => some ((s.goto (.read fd evs)).record (.write (s.files sfd) data.msg (some n)))
          | .again => some ((s.goto (.read fd evs)).record (.write (s.files sfd) data.msg none))
          | .error =>
            some ((s.goto (.closeSend sfd fd evs)).record (.write (s.files sfd) data.msg none))
        else none
    | _ => none
  | .close =>
    match s.point with
    | .closeSend sfd fd evs => some ((s.closeFd sfd).goto (.read fd evs))
    | _ => none
  | _ => none

/-- The `while` of `OnSocketRead`. -/
def onSocketRead (s : State) : Act → Option State
  | .read res =>
    match s.point with
    | .read fd evs =>
      if CanRead s fd res then
        match res with
        | .data chunk => some ((s.goto (.testCallback ⟨some fd, chunk⟩ fd evs)).record
            (.read (s.files fd) chunk))
        | .again => some ((s.goto (.loop evs)).record (.read (s.files fd) []))
        -- EOF and every other error close the descriptor
        | .eof | .error => some ((s.goto (.close fd evs)).record (.read (s.files fd) []))
      else none
    | _ => none
  | .testCallback =>
    match s.point with
    | .testCallback data fd evs =>
      some (s.goto (if s.self.recv_callback_.isSome then .callback data fd evs else .read fd evs))
    | _ => none
  | .callback =>
    match s.point with
    | .callback data fd evs =>
      match s.self.recv_callback_ with
      | some .recv_call => some ((s.goto (.write data fd evs)).record (.callback data))
      | none => some (s.goto .terminated)
    | _ => none
  | _ => none

/-- The `else if` chain of `EpollLoop`; `OnSocketWrite` and the last branch only report. -/
def branch (self : Server) (fd : Fd) (events : Mask) (evs : List Event) : Point :=
  if events.epollerr || events.epollhup then .close fd evs
  else if events.epollrdhup then .close fd evs
  else if events.epollin then
    if self.handle_ = some fd then .accept evs else .read fd evs
  else .loop evs

/-- `EpollLoop`. -/
def epollLoop (s : State) : Act → Option State
  | .calloc ok =>
    match s.point with
    | .start => some (s.goto (if ok then .head else .done))
    | _ => none
  | .test =>
    match s.point with
    | .head => some (s.goto (if s.self.loop_flag_ then .wait else .done))
    | _ => none
  | .epollWait evs =>
    match s.point with
    | .wait =>
      if CanWait s evs then some ((s.goto (.loop evs)).record (.epollWait s.epoll)) else none
    | _ => none
  | .dispatch =>
    match s.point with
    | .loop [] => some (s.goto .head)
    | .loop ((fd, events) :: evs) => some (s.goto (branch s.self fd events evs))
    | _ => none
  | .close =>
    match s.point with
    | .close fd evs => some ((s.closeFd fd).goto (.loop evs))
    | _ => none
  | _ => none

def step (s : State) (a : Act) : Option State :=
  match s.point with
  | .accept .. | .getpeername .. | .getfl .. | .setfl .. | .ctlAdd .. | .closeClient .. =>
    onSocketAccept s a
  | .read .. | .testCallback .. | .callback .. => onSocketRead s a
  | .write .. | .closeSend .. => sendData s a
  | .start | .head | .wait | .loop _ | .close .. => epollLoop s a
  | .done | .terminated => none

/-- The process after `main` registered `recv_call` and `Start` created the thread. -/
def init : State where
  files fd :=
    if fd < 3 then some .std else if fd = 3 then some .epoll
    else if fd = 4 then some .listening else none
  interest fd := decide (fd = 4)
  conns := 0
  self := { handle_ := some 4, efd_ := some 3, recv_callback_ := some .recv_call }
  point := .start
  log := []

/-- `accept` gives the lowest free number. -/
def lowestFree (s : State) : Act → Prop
  | .accept (.ok cli_fd) => ∀ m < cli_fd, s.files m ≠ none
  | _ => True

instance (s : State) (a : Act) : Decidable (lowestFree s a) := by
  induction a using Act.casesOn with
  | accept res => induction res using AcceptResult.casesOn <;> unfold lowestFree <;> infer_instance
  | _ => exact isTrue trivial

/-- No `write` fails with an error other than `EAGAIN`. -/
def writable : State → Act → Prop
  | _, .write res => res ≠ .error
  | _, _ => True

instance (s : State) (a : Act) : Decidable (writable s a) := by
  induction a using Act.casesOn with
  | write res => unfold writable; infer_instance
  | _ => exact isTrue trivial

end PracticeCode.EpollTcpServer
