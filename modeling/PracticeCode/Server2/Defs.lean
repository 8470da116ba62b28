import PracticeCode.Server1.Defs

/-!
# `2.single_reactor_single_worker/server.cpp`: the callback is in the event

`ev.data.ptr` points to a `reactor_event` with the descriptor and the function that handles it:
`connection_handler` for the listening socket, `data_handler` for a connection.  `main` calls the
function that it finds there.  The object of a connection is allocated behind `accept` and freed
before `close`.

`undefined` is where an access to freed memory leads, or a second `free`.
-/

namespace PracticeCode.Server2

open Linux

/-- `callback` of a `reactor_event`. -/
inductive Handler where
  | connection_handler
  | data_handler
  deriving DecidableEq

abbrev Addr := ℕ

structure reactor_event where
  client_fd : Fd
  callback : Handler
  deriving DecidableEq

/-- Where the thread is; `evs` is the rest of the batch, by `ev.data.ptr`, and `rev` that of the
event which is handled. -/
inductive Point where
  | wait
  | loop (evs : List Addr)
  /-- In `connection_handler`. -/
  | accept (lfd : Fd) (evs : List Addr)
  | bind (cfd : Fd) (evs : List Addr)
  | add (rev : Addr) (cfd : Fd) (evs : List Addr)
  /-- In `data_handler`. -/
  | recv (rev : Addr) (cfd : Fd) (evs : List Addr)
  | send (cfd : Fd) (buf : List UInt8) (evs : List Addr)
  | del (rev : Addr) (cfd : Fd) (evs : List Addr)
  | unbind (rev : Addr) (cfd : Fd) (evs : List Addr)
  | close (cfd : Fd) (evs : List Addr)
  | exited
  | undefined
  deriving DecidableEq

structure State where
  kernel : Epoll Addr
  heap : Addr → Option reactor_event
  point : Point
  log : List Epoll.Call

/-- `main` up to the event loop; `malloc` gave `rev` for the listening socket. -/
def init (efd sfd : Fd) (rev : Addr) : State where
  kernel := .boot efd sfd rev
  heap := Function.update (fun _ => none) rev (some ⟨sfd, .connection_handler⟩)
  point := .wait
  log := []

inductive Act where
  /-- What the first server does too. -/
  | common (a : Server1.Act)
  /-- `bind_reacotr_event`, where `malloc` gives `rev`. -/
  | bind (rev : Addr)
  /-- `unbind_reactor_event` -/
  | unbind
  deriving DecidableEq

def State.call (s : State) (c : Epoll.Call) : State := { s with log := s.log ++ [c] }

/-- `handle_error` -/
def State.exit (s : State) : State := { s with point := .exited }

def connection_handler (s : State) : Act → Option State
  | .common (.accept res) => match s.point with
    | .accept lfd evs => match res with
      | none => some (s.call (.accept lfd none)).exit
      | some cfd =>
        if s.kernel.isOpen cfd = false then
          some { s.call (.accept lfd (some cfd)) with
            kernel := s.kernel.accept cfd, point := .bind cfd evs }
        else none
    | _ => none
  | .bind rev => match s.point with
    | .bind cfd evs =>
      if s.heap rev = none then
        some { s with
          heap := Function.update s.heap rev (some ⟨cfd, .data_handler⟩)
          point := .add rev cfd evs }
      else none
    | _ => none
  | .common (.ctlAdd ok) => match s.point with
    | .add rev cfd evs =>
      if ok then
        (s.kernel.add cfd rev).map fun k =>
          { s.call (.ctlAdd cfd true) with kernel := k, point := .loop evs }
      else some (s.call (.ctlAdd cfd false)).exit
    | _ => none
  | _ => none

def data_handler (s : State) : Act → Option State
  | .common (.recv res) => match s.point with
    | .recv rev cfd evs =>
      if res.Fits then
        match res with
        | .data bytes => some { s.call (.recv cfd res) with point := .send cfd (fill bytes) evs }
        -- EOF and every error
        | _ => some { s.call (.recv cfd res) with point := .del rev cfd evs }
      else none
    | _ => none
  | .common (.send res) => match s.point with
    | .send cfd buf evs => match res with
      | none => some (s.call (.send cfd buf none)).exit
      | some m => some { s.call (.send cfd buf (some m)) with point := .loop evs }
    | _ => none
  | .common (.ctlDel ok) => match s.point with
    | .del rev cfd evs =>
      if ok then
        (s.kernel.del cfd).map fun k =>
          { s.call (.ctlDel cfd true) with kernel := k, point := .unbind rev cfd evs }
      else some (s.call (.ctlDel cfd false)).exit
    | _ => none
  | .unbind => match s.point with
    | .unbind rev cfd evs => match s.heap rev with
      | some _ => some { s with
          heap := Function.update s.heap rev none, point := .close cfd evs }
      | none => some { s with point := .undefined }
    | _ => none
  | .common .close => match s.point with
    | .close cfd evs => some { s.call (.close cfd) with
        kernel := s.kernel.close cfd, point := .loop evs }
    | _ => none
  | _ => none

def step (s : State) (a : Act) : Option State :=
  match a with
  | .common (.epollWait fds) => match s.point with
    | .wait => (s.kernel.wait 10 fds).map fun evs => { s with point := .loop evs }
    | _ => none
  | .common .epollFail => match s.point with
    | .wait => some s.exit
    | _ => none
  | .common .dispatch => match s.point with
    | .loop [] => some { s with point := .wait }
    -- `rev->callback(efd, ev)`, and the `rev->client_fd` it reads first
    | .loop (rev :: evs) => match s.heap rev with
      | some ⟨fd, .connection_handler⟩ => some { s with point := .accept fd evs }
      | some ⟨fd, .data_handler⟩ => some { s with point := .recv rev fd evs }
      | none => some { s with point := .undefined }
    | _ => none
  | .bind _ | .common (.accept _) | .common (.ctlAdd _) => connection_handler s a
  | .unbind | .common (.recv _) | .common (.send _) | .common (.ctlDel _) | .common .close =>
    data_handler s a

end PracticeCode.Server2
