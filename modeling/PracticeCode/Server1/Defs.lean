import PracticeCode.Lib.Run
import PracticeCode.Linux.Epoll

/-!
# `1.common_epoll/server.cpp`: one loop that compares descriptors

`main` takes a batch of `epoll_wait` event by event: `handle_connection` for the event of `sfd`, and
`handle_data` for every other one.  `handle_error` ends the process.
-/

namespace PracticeCode.Server1

open Linux

/-- Where the thread is; `evs` is the rest of the batch, by `ev.data.fd`. -/
inductive Point where
  | wait
  | loop (evs : List Fd)
  /-- In `handle_connection`. -/
  | accept (evs : List Fd)
  | add (cfd : Fd) (evs : List Fd)
  /-- In `handle_data`. -/
  | recv (cfd : Fd) (evs : List Fd)
  | send (cfd : Fd) (buf : List UInt8) (evs : List Fd)
  | del (cfd : Fd) (evs : List Fd)
  | close (cfd : Fd) (evs : List Fd)
  | exited
  deriving DecidableEq

structure State where
  kernel : Epoll Fd
  point : Point
  log : List Epoll.Call

/-- `main` up to the event loop. -/
def init (efd sfd : Fd) : State := ⟨.boot efd sfd sfd, .wait, []⟩

/-- The batches, and the results of the calls. -/
inductive Act where
  | epollWait (fds : List Fd)
  | epollFail
  | dispatch
  | accept (res : Option Fd)
  | ctlAdd (ok : Bool)
  | recv (res : Recv)
  | send (res : Option ℕ)
  | ctlDel (ok : Bool)
  | close
  deriving DecidableEq

def State.call (s : State) (c : Epoll.Call) : State := { s with log := s.log ++ [c] }

/-- `handle_error` -/
def State.exit (s : State) : State := { s with point := .exited }

/-- `handle_connection` -/
def handle_connection (sfd : Fd) (s : State) : Act → Option State
  | .accept res => match s.point with
    | .accept evs => match res with
      | none => some (s.call (.accept sfd none)).exit
      | some cfd =>
        if s.kernel.isOpen cfd = false then
          some { s.call (.accept sfd (some cfd)) with
            kernel := s.kernel.accept cfd, point := .add cfd evs }
        else none
    | _ => none
  | .ctlAdd ok => match s.point with
    | .add cfd evs =>
      if ok then
        (s.kernel.add cfd cfd).map fun k =>
          { s.call (.ctlAdd cfd true) with kernel := k, point := .loop evs }
      else some (s.call (.ctlAdd cfd false)).exit
    | _ => none
  | _ => none

/-- `handle_data` -/
def handle_data (s : State) : Act → Option State
  | .recv res => match s.point with
    | .recv cfd evs =>
      if res.Fits then
        match res with
        | .data bytes => some { s.call (.recv cfd res) with point := .send cfd (fill bytes) evs }
        -- EOF and every error
        | _ => some { s.call (.recv cfd res) with point := .del cfd evs }
      else none
    | _ => none
  | .send res => match s.point with
    | .send cfd buf evs => match res with
      | none => some (s.call (.send cfd buf none)).exit
      | some m => some { s.call (.send cfd buf (some m)) with point := .loop evs }
    | _ => none
  | .ctlDel ok => match s.point with
    | .del cfd evs =>
      if ok then
        (s.kernel.del cfd).map fun k =>
          { s.call (.ctlDel cfd true) with kernel := k, point := .close cfd evs }
      else some (s.call (.ctlDel cfd false)).exit
    | _ => none
  | .close => match s.point with
    | .close cfd evs => some { s.call (.close cfd) with
        kernel := s.kernel.close cfd, point := .loop evs }
    | _ => none
  | _ => none

def step (sfd : Fd) (s : State) (a : Act) : Option State :=
  match a with
  | .epollWait fds => match s.point with
    | .wait => (s.kernel.wait 10 fds).map fun evs => { s with point := .loop evs }
    | _ => none
  | .epollFail => match s.point with
    | .wait => some s.exit
    | _ => none
  | .dispatch => match s.point with
    | .loop [] => some { s with point := .wait }
    | .loop (fd :: evs) =>
      if fd = sfd then some { s with point := .accept evs }
      else some { s with point := .recv fd evs }
    | _ => none
  | .accept _ | .ctlAdd _ => handle_connection sfd s a
  | .recv _ | .send _ | .ctlDel _ | .close => handle_data s a

end PracticeCode.Server1
