import PracticeCode.EpollTcpServer.Defs

/-!
# `epoll_demo/epoll_client.cpp`

The two threads of the client: `main`, which starts the client and then sends each line that it
reads from the terminal (`SendData`), and the loop thread (`EpollLoop`, `OnSocketRead`, the callback
that prints).  One system call a step, and any order of the steps of the two.  The socket is a
blocking one, so no `read` and no `write` returns `EAGAIN`.

The socket is called `.sock c`, after the connection it is connected with.  `exit`, and the signal
of a `write` to a connection that is gone, end both threads.
-/

namespace PracticeCode.EpollTcpClient

open Linux
open EpollTcpServer (Mask Event Packet ReadResult WriteResult kMaxEvents readBufSize isSock)

inductive Callback where
  | recv_call
  deriving DecidableEq

/-- The fields of `EpollTcpClient` that the threads use. -/
structure Client where
  handle_ : Option Fd := none
  efd_ : Option Fd := none
  loop_flag_ : Bool := true
  recv_callback_ : Option Callback := none
  deriving DecidableEq

/-- Where `main` is. -/
inductive MainPoint where
  -- `Start`
  | createEpoll
  | createSocket
  | connect (cli_fd : Fd)
  | ctlAdd
  | spawn
  -- the loop of `main`, and `SendData`
  | getline
  | write (data : Packet)
  | closeSend
  | exited
  deriving DecidableEq

/-- Where the loop thread is; `evs` is the rest of the batch. -/
inductive LoopPoint where
  | none
  | start
  | head
  | wait
  | loop (evs : List Event)
  | read (fd : Fd) (evs : List Event)
  | testCallback (data : Packet) (fd : Fd) (evs : List Event)
  | callback (data : Packet) (fd : Fd) (evs : List Event)
  | close (fd : Fd) (evs : List Event)
  | done
  deriving DecidableEq

/-- A call on a descriptor, with the file the number referred to, or an event that is handled. -/
inductive Op where
  | event (fd : Fd)
  | read (target : Option File) (chunk : List UInt8)
  | write (target : Option File) (msg : List UInt8) (res : Option ℕ)
  | close (target : Option File)
  | callback (data : Packet)
  deriving DecidableEq

structure State where
  files : Fd → Option File
  interest : Fd → Bool
  self : Client
  main : MainPoint
  loop : LoopPoint
  log : List Op

/-- The steps of the two threads with the results of their calls. -/
inductive Act where
  | createEpoll (res : Option Fd)
  | createSocket (res : Option Fd)
  | connect (ok : Bool)
  | ctlAdd (ok : Bool)
  | spawn (ok : Bool)
  | getline (msg : List UInt8)
  | write (res : WriteResult)
  | sigpipe
  | closeSend
  | calloc (ok : Bool)
  | test
  | epollWait (evs : List Event)
  | dispatch
  | read (res : ReadResult)
  | testCallback
  | callback
  | close
  deriving DecidableEq

namespace State

variable (s : State)

def record (o : Op) : State := { s with log := s.log ++ [o] }

/-- `close(fd)`, which also takes the number off the interest list. -/
def closeFd (fd : Fd) : State :=
  { s with
    files := Function.update s.files fd Option.none
    interest := Function.update s.interest fd false
    log := s.log ++ [.close (s.files fd)] }

def exit : State :=
  { s with
    files := fun _ => Option.none, interest := fun _ => false, main := .exited, loop := .done }

/-- The array that `epoll_wait` fills; it is empty on a timeout or an error.  The socket was
registered with `EPOLLIN`; `EPOLLERR` and `EPOLLHUP` are reported without being asked for. -/
def CanWait (evs : List Event) : Prop :=
  evs.length ≤ kMaxEvents ∧ (evs.map Prod.fst).Nodup ∧ ∀ e ∈ evs, s.interest e.1 = true ∧
    e.2.epollrdhup = false ∧ e.2.epollout = false ∧
    (e.2.epollerr || e.2.epollhup || e.2.epollin) = true

instance (evs : List Event) : Decidable (s.CanWait evs) := by unfold CanWait; infer_instance

end State

/-- What a `read` from the file can return. -/
def CanRead (f : Option File) : ReadResult → Prop
  | .data chunk => isSock f = true ∧ chunk ≠ [] ∧ chunk.length ≤ readBufSize
  | .eof => isSock f = true
  | .again => False
  | .error => True

/-- What a `write` to the file can return. -/
def CanWrite (f : Option File) (msg : List UInt8) : WriteResult → Prop
  | .ok n => isSock f = true ∧ n ≤ msg.length
  | .again => False
  | .error => True

instance (f : Option File) : DecidablePred (CanRead f) := fun res => by
  induction res using ReadResult.casesOn <;> unfold CanRead <;> infer_instance

instance (f : Option File) (msg : List UInt8) : DecidablePred (CanWrite f msg) := fun res => by
  induction res using WriteResult.casesOn <;> unfold CanWrite <;> infer_instance

/-! ## The functions of the class -/

/-- `Start`, called by `main`, which ends the process where it returns false. -/
def start (c : Conn) (s : State) : Act → Option State
  | .createEpoll res => match s.main, res with
    | .createEpoll, some fd =>
      if s.files fd = none then
        some { s with
          files := Function.update s.files fd (some .epoll)
          self := { s.self with efd_ := some fd }, main := .createSocket }
      else none
    | .createEpoll, none => some s.exit
    | _, _ => none
  | .createSocket res => match s.main, res with
    | .createSocket, some fd =>
      if s.files fd = none then
        some { s with files := Function.update s.files fd (some (.sock c)), main := .connect fd }
      else none
    | .createSocket, none => some s.exit
    | _, _ => none
  | .connect ok => match s.main with
    | .connect cli_fd =>
      if ok then some { s with self := { s.self with handle_ := some cli_fd }, main := .ctlAdd }
      else some s.exit
    | _ => none
  | .ctlAdd ok => match s.main with
    | .ctlAdd => s.self.handle_.bind fun fd =>
      if ok then
        if s.files fd ≠ none ∧ s.interest fd = false then
          some { s with interest := Function.update s.interest fd true, main := .spawn }
        else none
      else some (s.closeFd fd).exit
    | _ => none
  | .spawn ok => match s.main with
    | .spawn => some (if ok then { s with main := .getline, loop := .start } else s.exit)
    | _ => none
  | _ => none

/-- The `while` of `main`, with `SendData`. -/
def sendData (s : State) : Act → Option State
  | .getline msg => match s.main with
    | .getline => some { s with main := .write { msg := msg } }
    | _ => none
  | .write res => match s.main with
    | .write data => s.self.handle_.bind fun fd =>
      if CanWrite (s.files fd) data.msg res then
        match res with
        | .ok n => some ({ s with main := .getline }.record
            (.write (s.files fd) data.msg (some n)))
        | .again => none
        | .error => some ({ s with main := .closeSend }.record
            (.write (s.files fd) data.msg none))
      else none
    | _ => none
  | .sigpipe => match s.main with
    | .write _ => if (s.self.handle_.bind s.files).isSome then some s.exit else none
    | _ => none
  | .closeSend => match s.main with
    | .closeSend => s.self.handle_.map fun fd => { s.closeFd fd with main := .getline }
    | _ => none
  | _ => none

/-- The `while` of `OnSocketRead`. -/
def onSocketRead (s : State) : Act → Option State
  | .read res => match s.loop with
    | .read fd evs =>
      if CanRead (s.files fd) res then
        match res with
        | .data chunk => some ({ s with loop := .testCallback ⟨some fd, chunk⟩ fd evs }.record
            (.read (s.files fd) chunk))
        | .again => none
        | .eof | .error => some ({ s with loop := .close fd evs }.record (.read (s.files fd) []))
      else none
    | _ => none
  | .testCallback => match s.loop with
    | .testCallback data fd evs => some { s with
        loop := if s.self.recv_callback_.isSome then .callback data fd evs else .read fd evs }
    | _ => none
  | .callback => match s.loop with
    | .callback data fd evs => some ({ s with loop := .read fd evs }.record (.callback data))
    | _ => none
  | _ => none

/-- The `else if` chain of `EpollLoop`; `OnSocketWrite` and the last branch only report. -/
def branch (fd : Fd) (events : Mask) (evs : List Event) : LoopPoint :=
  if events.epollerr || events.epollhup then .close fd evs
  else if events.epollrdhup then .close fd evs
  else if events.epollin then .read fd evs
  else .loop evs

/-- `EpollLoop`. -/
def epollLoop (s : State) : Act → Option State
  | .calloc ok => match s.loop with
    | .start => some { s with loop := if ok then .head else .done }
    | _ => none
  | .test => match s.loop with
    | .head => some { s with loop := if s.self.loop_flag_ then .wait else .done }
    | _ => none
  | .epollWait evs => match s.loop with
    | .wait => if s.CanWait evs then some { s with loop := .loop evs } else none
    | _ => none
  | .dispatch => match s.loop with
    | .loop [] => some { s with loop := .head }
    | .loop ((fd, events) :: evs) =>
      some ({ s with loop := branch fd events evs }.record (.event fd))
    | _ => none
  | .close => match s.loop with
    | .close fd evs => some { s.closeFd fd with loop := .loop evs }
    | _ => none
  | _ => none

def step (c : Conn) (s : State) (a : Act) : Option State :=
  match a with
  | .createEpoll _ | .createSocket _ | .connect _ | .ctlAdd _ | .spawn _ => start c s a
  | .getline _ | .write _ | .sigpipe | .closeSend => sendData s a
  | .read _ | .testCallback | .callback => onSocketRead s a
  | .calloc _ | .test | .epollWait _ | .dispatch | .close => epollLoop s a

/-- The process after `main` registered `recv_call`. -/
def init : State where
  files fd := if fd < 3 then some .std else none
  interest _ := false
  self := { recv_callback_ := some .recv_call }
  main := .createEpoll
  loop := .none
  log := []

/-! ## The inversion of `step` -/

inductive Outcome (c : Conn) (s : State) : Act → State → Prop
  | exit {a} : Outcome c s a s.exit
  -- `Start`
  | createEpoll {fd} : s.main = .createEpoll → s.files fd = none →
      Outcome c s (.createEpoll (some fd)) { s with
        files := Function.update s.files fd (some .epoll)
        self := { s.self with efd_ := some fd }, main := .createSocket }
  | createSocket {fd} : s.main = .createSocket → s.files fd = none →
      Outcome c s (.createSocket (some fd)) { s with
        files := Function.update s.files fd (some (.sock c)), main := .connect fd }
  | connect {fd} : s.main = .connect fd →
      Outcome c s (.connect true)
        { s with self := { s.self with handle_ := some fd }, main := .ctlAdd }
  | ctlAdd {fd} : s.main = .ctlAdd → s.self.handle_ = some fd → s.files fd ≠ none →
      Outcome c s (.ctlAdd true)
        { s with interest := Function.update s.interest fd true, main := .spawn }
  | ctlAddFail {fd} : s.main = .ctlAdd → s.self.handle_ = some fd →
      Outcome c s (.ctlAdd false) (s.closeFd fd).exit
  | spawn : s.main = .spawn → Outcome c s (.spawn true) { s with main := .getline, loop := .start }
  -- `main` and `SendData`
  | getline {msg} : s.main = .getline →
      Outcome c s (.getline msg) { s with main := .write { msg := msg } }
  | write {data fd n} : s.main = .write data → s.self.handle_ = some fd →
      isSock (s.files fd) = true → n ≤ data.msg.length →
      Outcome c s (.write (.ok n)) ({ s with main := .getline }.record
        (.write (s.files fd) data.msg (some n)))
  | writeError {data fd} : s.main = .write data → s.self.handle_ = some fd →
      Outcome c s (.write .error) ({ s with main := .closeSend }.record
        (.write (s.files fd) data.msg none))
  | closeSend {fd} : s.main = .closeSend → s.self.handle_ = some fd →
      Outcome c s .closeSend { s.closeFd fd with main := .getline }
  -- `EpollLoop`
  | go {a p} : s.loop = .start ∨ s.loop = .head ∨ s.loop = .loop [] →
      p = .head ∨ p = .wait ∨ p = .done → Outcome c s a { s with loop := p }
  | epollWait {evs} : s.loop = .wait → s.CanWait evs →
      Outcome c s (.epollWait evs) { s with loop := .loop evs }
  | dispatch {fd events evs} : s.loop = .loop ((fd, events) :: evs) →
      Outcome c s .dispatch ({ s with loop := branch fd events evs }.record (.event fd))
  | close {fd evs} : s.loop = .close fd evs →
      Outcome c s .close { s.closeFd fd with loop := .loop evs }
  -- `OnSocketRead`
  | readData {fd evs chunk} : s.loop = .read fd evs → isSock (s.files fd) = true →
      Outcome c s (.read (.data chunk)) ({ s with
        loop := .testCallback ⟨some fd, chunk⟩ fd evs }.record (.read (s.files fd) chunk))
  | readStop {a fd evs} : s.loop = .read fd evs →
      Outcome c s a ({ s with loop := .close fd evs }.record (.read (s.files fd) []))
  | hasCallback {data fd evs} : s.loop = .testCallback data fd evs →
      Outcome c s .testCallback { s with loop := .callback data fd evs }
  | noCallback {data fd evs} : s.loop = .testCallback data fd evs → s.self.recv_callback_ = none →
      Outcome c s .testCallback { s with loop := .read fd evs }
  | callback {data fd evs} : s.loop = .callback data fd evs →
      Outcome c s .callback ({ s with loop := .read fd evs }.record (.callback data))

section Outcome

variable {c : Conn} {s s' : State} {a : Act}

theorem outcome_of_start (h : start c s a = some s') : Outcome c s a s' := by
  cases a with
  | createEpoll res | createSocket res =>
    simp only [start] at h
    split at h
    · rename_i hp
      simp only [Option.ite_none_right_eq_some, Option.some.injEq] at h
      obtain ⟨hf, rfl⟩ := h
      first | exact .createEpoll hp hf | exact .createSocket hp hf
    · obtain rfl := Option.some.inj h
      exact .exit
    · cases h
  | connect ok =>
    simp only [start] at h
    split at h
    · rename_i hp
      cases ok <;> obtain rfl := Option.some.inj h
      · exact .exit
      · exact .connect hp
    · cases h
  | ctlAdd ok =>
    simp only [start] at h
    split at h
    · rename_i hp
      obtain ⟨fd, hfd, h⟩ := Option.bind_eq_some_iff.mp h
      cases ok with
      | false =>
        obtain rfl := Option.some.inj h
        exact .ctlAddFail hp hfd
      | true =>
        simp only [if_true, Option.ite_none_right_eq_some, Option.some.injEq] at h
        obtain ⟨⟨hf, -⟩, rfl⟩ := h
        exact .ctlAdd hp hfd hf
    · cases h
  | spawn ok =>
    simp only [start] at h
    split at h
    · rename_i hp
      cases ok <;> obtain rfl := Option.some.inj h
      · exact .exit
      · exact .spawn hp
    · cases h
  | _ => cases h

theorem outcome_of_sendData (h : sendData s a = some s') : Outcome c s a s' := by
  cases a with
  | getline msg =>
    simp only [sendData] at h
    split at h
    · rename_i hp
      obtain rfl := Option.some.inj h
      exact .getline hp
    · cases h
  | write res =>
    simp only [sendData] at h
    split at h
    · rename_i data hp
      obtain ⟨fd, hfd, h⟩ := Option.bind_eq_some_iff.mp h
      simp only [Option.ite_none_right_eq_some] at h
      obtain ⟨hc, h⟩ := h
      cases res with
      | ok n =>
        obtain rfl := Option.some.inj h
        exact .write hp hfd hc.1 hc.2
      | again => cases h
      | error =>
        obtain rfl := Option.some.inj h
        exact .writeError hp hfd
    · cases h
  | sigpipe =>
    simp only [sendData] at h
    split at h
    · simp only [Option.ite_none_right_eq_some, Option.some.injEq] at h
      obtain ⟨-, rfl⟩ := h
      exact .exit
    · cases h
  | closeSend =>
    simp only [sendData] at h
    split at h
    · rename_i hp
      obtain ⟨fd, hfd, rfl⟩ := Option.map_eq_some_iff.mp h
      exact .closeSend hp hfd
    · cases h
  | _ => cases h

theorem outcome_of_onSocketRead (h : onSocketRead s a = some s') : Outcome c s a s' := by
  cases a with
  | read res =>
    simp only [onSocketRead] at h
    split at h
    · rename_i fd evs hp
      simp only [Option.ite_none_right_eq_some] at h
      obtain ⟨hc, h⟩ := h
      cases res with
      | data chunk =>
        obtain rfl := Option.some.inj h
        exact .readData hp hc.1
      | again => cases h
      | eof | error =>
        obtain rfl := Option.some.inj h
        exact .readStop hp
    · cases h
  | testCallback =>
    simp only [onSocketRead] at h
    split at h
    · rename_i data fd evs hp
      obtain rfl := Option.some.inj h
      split
      · exact .hasCallback hp
      · rename_i hno
        exact .noCallback hp (by simpa using hno)
    · cases h
  | callback =>
    simp only [onSocketRead] at h
    split at h
    · rename_i hp
      obtain rfl := Option.some.inj h
      exact .callback hp
    · cases h
  | _ => cases h

theorem outcome_of_epollLoop (h : epollLoop s a = some s') : Outcome c s a s' := by
  cases a with
  | calloc ok =>
    simp only [epollLoop] at h
    split at h
    · rename_i hp
      obtain rfl := Option.some.inj h
      exact .go (.inl hp) (by cases ok <;> simp)
    · cases h
  | test =>
    simp only [epollLoop] at h
    split at h
    · rename_i hp
      obtain rfl := Option.some.inj h
      exact .go (.inr (.inl hp)) (by split <;> simp)
    · cases h
  | epollWait evs =>
    simp only [epollLoop] at h
    split at h
    · rename_i hp
      simp only [Option.ite_none_right_eq_some, Option.some.injEq] at h
      obtain ⟨hw, rfl⟩ := h
      exact .epollWait hp hw
    · cases h
  | dispatch =>
    simp only [epollLoop] at h
    split at h
    · rename_i hp
      obtain rfl := Option.some.inj h
      exact .go (.inr (.inr hp)) (.inl rfl)
    · rename_i hp
      obtain rfl := Option.some.inj h
      exact .dispatch hp
    · cases h
  | close =>
    simp only [epollLoop] at h
    split at h
    · rename_i hp
      obtain rfl := Option.some.inj h
      exact .close hp
    · cases h
  | _ => cases h

theorem outcome_of_step (h : step c s a = some s') : Outcome c s a s' := by
  cases a with
  | createEpoll _ | createSocket _ | connect _ | ctlAdd _ | spawn _ => exact outcome_of_start h
  | getline _ | write _ | sigpipe | closeSend => exact outcome_of_sendData h
  | read _ | testCallback | callback => exact outcome_of_onSocketRead h
  | calloc _ | test | epollWait _ | dispatch | close => exact outcome_of_epollLoop h

end Outcome

end PracticeCode.EpollTcpClient
