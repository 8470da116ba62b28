import PracticeCode.SelectServer.Bookkeeping

/-!
# `select/client.cpp` and `poll/client.cpp`

`SelectClient` and `PollClient` open `CLIENT_NUM` nonblocking sockets, connect them, and then wait
for descriptors that can be read or written.  They walk over their descriptors twice: the writable
ones are asked for `SO_ERROR` and, if the connection stands, get a message; the readable ones are
read once, and closed at the end of the stream.

The two differ in how they keep the descriptors and what the waiting call reported (`Registry`):
`select` has a `std::set` and two `fd_set`s, `poll` a vector whose elements hold their `revents`.
`client` is what they share, and `SelectClient` and `PollClient` are its two instances.  Both take a
result of 0 for a timeout; `select` has a limit of 5 s, `poll` has none.
-/

namespace PracticeCode.MultiplexClient

open Linux
open SelectServer (FD_SETSIZE FdSet Sets AddFd RemoveFd nextFd)

abbrev CLIENT_NUM : ℕ := 5

/-- A call of a client, with the socket that its number referred to. -/
inductive Call where
  | socket (res : Option Fd)
  | ctlAdd (fd : Fd) (target : Option Conn) (ok : Bool)
  | connect (fd : Fd) (target : Option Conn)
  | getsockopt (fd : Fd) (target : Option Conn) (res : Option ℕ)
  | send (fd : Fd) (target : Option Conn) (buf : List UInt8) (res : Option ℕ)
  | recv (fd : Fd) (target : Option Conn) (res : Recv)
  | ctlDel (fd : Fd) (target : Option Conn) (ok : Bool)
  | close (fd : Fd) (target : Option Conn)
  deriving DecidableEq

/-- What a call is on; `none` for `socket`. -/
def Call.target : Call → Option (Option Conn)
  | .socket _ => none
  | .ctlAdd _ c _ | .connect _ c | .getsockopt _ c _ | .send _ c _ _ | .recv _ c _ | .ctlDel _ c _
  | .close _ c => some c

/-- The socket that a call closes. -/
def Call.closes : Call → Option Conn
  | .close _ c => c
  | _ => none

/-- `"hello from fd" + std::to_string(fd)` in a cleared buffer. -/
def hello (fd : Fd) : List UInt8 := fill (ascii ("hello from fd" ++ toString fd))

/-! ## What is kept of the descriptors -/

/-- The descriptors with what was reported last, and an iterator over them. -/
structure Registry (ρ ι : Type) where
  empty : ρ
  /-- The waiting call has a time limit. -/
  limited : Bool
  /-- `none` when there is no place for the number. -/
  add : ρ → Fd → Option ρ
  /-- The waiting call reports that the first can be read and the second written. -/
  report : ρ → List Fd → List Fd → Option ρ
  begin : ρ → ι
  /-- The descriptor the iterator stands at; `none` at the end. -/
  fd : ρ → ι → Option Fd
  readable : ρ → ι → Bool
  writable : ρ → ι → Bool
  next : ρ → ι → ι
  erase : ρ → ι → ρ × ι

/-- `origin_set`, `fds` and `max_fd`, and the two sets that `select` changes. -/
structure SelectRegs where
  sets : Sets
  read_set : FdSet
  write_set : FdSet

/-- What `select` leaves in a copy of `origin_set`: below `max_fd + 1` the bits of `ready`, and the
copy above. -/
def SelectRegs.result (r : SelectRegs) (ready : List Fd) : FdSet := fun fd =>
  if fd ≤ r.sets.max_fd then ready.contains fd else r.sets.origin_set fd

def selectRegistry : Registry SelectRegs (Option Fd) where
  empty := ⟨⟨fun _ => false, [], 0⟩, fun _ => false, fun _ => false⟩
  limited := true
  add r fd := if fd < FD_SETSIZE then some { r with sets := AddFd r.sets fd } else none
  report r rs ws :=
    if ∀ fd ∈ rs ++ ws, r.sets.origin_set fd = true ∧ fd ≤ r.sets.max_fd then
      some { r with read_set := r.result rs, write_set := r.result ws }
    else none
  begin r := r.sets.fds.head?
  fd _ iter := iter
  readable r iter := iter.any r.read_set
  writable r iter := iter.any r.write_set
  next r iter := iter.bind fun fd => nextFd fd r.sets.fds
  erase r
    | some fd => ({ r with sets := (RemoveFd r.sets fd).1 }, (RemoveFd r.sets fd).2)
    | none => (r, none)

/-- A `pollfd` with `events` of `POLLIN|POLLOUT`, and the two bits of its `revents`. -/
structure PollFd where
  fd : Fd
  pollin : Bool
  pollout : Bool
  deriving DecidableEq

def pollRegistry : Registry (List PollFd) ℕ where
  empty := []
  limited := false
  add fds fd := some (fds ++ [⟨fd, false, false⟩])
  report fds rs ws :=
    if ∀ fd ∈ rs ++ ws, fd ∈ fds.map PollFd.fd then
      some (fds.map fun p => ⟨p.fd, rs.contains p.fd, ws.contains p.fd⟩)
    else none
  begin _ := 0
  fd fds i := fds[i]?.map PollFd.fd
  readable fds i := fds[i]?.any PollFd.pollin
  writable fds i := fds[i]?.any PollFd.pollout
  next _ i := i + 1
  erase fds i := (fds.eraseIdx i, i)

/-! ## The client -/

inductive Point (ι : Type) where
  /-- `left` rounds of the first loop remain. -/
  | socket (left : ℕ)
  | connect (fd : Fd) (left : ℕ)
  | wait
  /-- The first walk, at the iterator. -/
  | write (iter : ι)
  | send (iter : ι)
  /-- The second walk. -/
  | read (iter : ι)
  | close (fd : Fd) (iter : ι)
  | exited
  | undefined
  deriving DecidableEq

structure State (ρ ι : Type) where
  table : Table
  regs : ρ
  point : Point ι
  log : List Call

inductive Act where
  | socket (res : Option Fd)
  | connect
  /-- The waiting call returns with these descriptors. -/
  | wait (readable writable : List Fd)
  | timeout
  | waitFail
  /-- The loops go on without a call. -/
  | dispatch
  /-- `none` when the call fails, else the value of `SO_ERROR`. -/
  | getsockopt (res : Option ℕ)
  | send (res : Option ℕ)
  | recv (res : Recv)
  | close
  deriving DecidableEq

section Client

variable {ρ ι : Type} (R : Registry ρ ι) (inherited : List Fd)

def init : State ρ ι := ⟨.empty, R.empty, .socket CLIENT_NUM, []⟩

variable (s : State ρ ι)

def State.call (c : Call) (p : Point ι) : State ρ ι := { s with log := s.log ++ [c], point := p }

/-- A number that is not given out: the process was started with it, or it is a socket. -/
def State.taken (fd : Fd) : Prop := fd ∈ inherited ∨ (s.table.files fd).isSome

instance (fd : Fd) : Decidable (s.taken inherited fd) := by unfold State.taken; infer_instance

/-- `socket` gives the lowest number that is not taken. -/
def State.lowest (fd : Fd) : Prop :=
  ¬ s.taken inherited fd ∧ ∀ x < fd, s.taken inherited x

instance (fd : Fd) : Decidable (s.lowest inherited fd) := by unfold State.lowest; infer_instance

/-- The body of the client, for a process with the open descriptors `inherited`. -/
def client : Act → Option (State ρ ι)
  | .socket res => match s.point with
    | .socket (left + 1) => match res with
      | none => some (s.call (.socket none) (.socket left))
      | some fd =>
        if s.lowest inherited fd then
          match R.add s.regs fd with
          | some regs => some { (s.call (.socket (some fd)) (.connect fd left)) with
              table := s.table.accept fd, regs := regs }
          | none => some { (s.call (.socket (some fd)) .undefined) with
              table := s.table.accept fd }
        else none
    | _ => none
  | .connect => match s.point with
    | .connect fd left => some (s.call (.connect fd (s.table.files fd)) (.socket left))
    | _ => none
  | .wait rs ws => match s.point with
    | .wait => (R.report s.regs rs ws).map fun regs =>
        { s with regs := regs, point := .write (R.begin regs) }
    | _ => none
  | .timeout => match s.point with
    | .wait => if R.limited then some s else none
    | _ => none
  | .waitFail => match s.point with
    | .wait => some { s with point := .exited }
    | _ => none
  | .dispatch => match s.point with
    | .socket 0 => some { s with point := .wait }
    | .write iter => match R.fd s.regs iter with
      | none => some { s with point := .read (R.begin s.regs) }
      | some _ =>
        if R.writable s.regs iter then none
        else some { s with point := .write (R.next s.regs iter) }
    | .read iter => match R.fd s.regs iter with
      | none => some { s with point := .wait }
      | some _ =>
        if R.readable s.regs iter then none
        else some { s with point := .read (R.next s.regs iter) }
    | _ => none
  | .getsockopt res => match s.point with
    | .write iter => match R.fd s.regs iter with
      | some fd =>
        if R.writable s.regs iter then
          some (s.call (.getsockopt fd (s.table.files fd) res)
            (if res = some 0 then .send iter else .write (R.next s.regs iter)))
        else none
      | none => none
    | _ => none
  | .send res => match s.point with
    | .send iter => (R.fd s.regs iter).map fun fd =>
        s.call (.send fd (s.table.files fd) (hello fd) res) (.write (R.next s.regs iter))
    | _ => none
  | .recv res => match s.point with
    | .read iter => match R.fd s.regs iter with
      | some fd =>
        if R.readable s.regs iter ∧ s.table.CanRecv fd res then
          if res = .eof then
            some { (s.call (.recv fd (s.table.files fd) res)
                (.close fd (R.erase s.regs iter).2)) with
              regs := (R.erase s.regs iter).1 }
          else some (s.call (.recv fd (s.table.files fd) res) (.read (R.next s.regs iter)))
        else none
      | none => none
    | _ => none
  | .close => match s.point with
    | .close fd iter => some { (s.call (.close fd (s.table.files fd)) (.read iter)) with
        table := s.table.close fd }
    | _ => none

end Client

def SelectClient (inherited : List Fd) :
    State SelectRegs (Option Fd) → Act → Option (State SelectRegs (Option Fd)) :=
  client selectRegistry inherited

def PollClient (inherited : List Fd) :
    State (List PollFd) ℕ → Act → Option (State (List PollFd) ℕ) :=
  client pollRegistry inherited

/-! ## The inversion of `client` -/

section Outcome

variable {ρ ι : Type} (R : Registry ρ ι) (inherited : List Fd) (s : State ρ ι)

inductive Outcome : Act → State ρ ι → Prop
  | socketFail {left} : s.point = .socket (left + 1) →
      Outcome (.socket none) (s.call (.socket none) (.socket left))
  | socket {left fd regs} : s.point = .socket (left + 1) → s.lowest inherited fd →
      R.add s.regs fd = some regs →
      Outcome (.socket (some fd)) { (s.call (.socket (some fd)) (.connect fd left)) with
        table := s.table.accept fd, regs := regs }
  | overflow {left fd} : s.point = .socket (left + 1) → R.add s.regs fd = none →
      Outcome (.socket (some fd)) { (s.call (.socket (some fd)) .undefined) with
        table := s.table.accept fd }
  | connect {fd left} : s.point = .connect fd left →
      Outcome .connect (s.call (.connect fd (s.table.files fd)) (.socket left))
  | opened : s.point = .socket 0 → Outcome .dispatch { s with point := .wait }
  | wait {rs ws regs} : s.point = .wait → R.report s.regs rs ws = some regs →
      Outcome (.wait rs ws) { s with regs := regs, point := .write (R.begin regs) }
  | timeout : s.point = .wait → R.limited = true → Outcome .timeout s
  | waitFail : s.point = .wait → Outcome .waitFail { s with point := .exited }
  | writeEnd {iter} : s.point = .write iter → R.fd s.regs iter = none →
      Outcome .dispatch { s with point := .read (R.begin s.regs) }
  | writeSkip {iter fd} : s.point = .write iter → R.fd s.regs iter = some fd →
      R.writable s.regs iter = false →
      Outcome .dispatch { s with point := .write (R.next s.regs iter) }
  | readEnd {iter} : s.point = .read iter → R.fd s.regs iter = none →
      Outcome .dispatch { s with point := .wait }
  | readSkip {iter fd} : s.point = .read iter → R.fd s.regs iter = some fd →
      R.readable s.regs iter = false →
      Outcome .dispatch { s with point := .read (R.next s.regs iter) }
  | getsockopt {iter fd res} : s.point = .write iter → R.fd s.regs iter = some fd →
      R.writable s.regs iter = true →
      Outcome (.getsockopt res) (s.call (.getsockopt fd (s.table.files fd) res)
        (if res = some 0 then .send iter else .write (R.next s.regs iter)))
  | send {iter fd res} : s.point = .send iter → R.fd s.regs iter = some fd →
      Outcome (.send res)
        (s.call (.send fd (s.table.files fd) (hello fd) res) (.write (R.next s.regs iter)))
  | eof {iter fd} : s.point = .read iter → R.fd s.regs iter = some fd →
      R.readable s.regs iter = true →
      Outcome (.recv .eof) { (s.call (.recv fd (s.table.files fd) .eof)
          (.close fd (R.erase s.regs iter).2)) with
        regs := (R.erase s.regs iter).1 }
  | recv {iter fd res} : s.point = .read iter → R.fd s.regs iter = some fd →
      R.readable s.regs iter = true → s.table.CanRecv fd res → res ≠ .eof →
      Outcome (.recv res) (s.call (.recv fd (s.table.files fd) res) (.read (R.next s.regs iter)))
  | close {fd iter} : s.point = .close fd iter →
      Outcome .close { (s.call (.close fd (s.table.files fd)) (.read iter)) with
        table := s.table.close fd }

variable {R inherited s} {s' : State ρ ι} {a : Act}

theorem outcome_of_dispatch (h : client R inherited s .dispatch = some s') :
    Outcome R inherited s .dispatch s' := by
  simp only [client] at h
  split at h
  · rename_i hp
    obtain rfl := Option.some.inj h
    exact .opened hp
  · rename_i iter hp
    split at h
    · rename_i hi
      obtain rfl := Option.some.inj h
      exact .writeEnd hp hi
    · rename_i fd hi
      simp only [Option.ite_none_left_eq_some, Option.some.injEq] at h
      obtain ⟨hw, rfl⟩ := h
      exact .writeSkip hp hi (by simpa using hw)
  · rename_i iter hp
    split at h
    · rename_i hi
      obtain rfl := Option.some.inj h
      exact .readEnd hp hi
    · rename_i fd hi
      simp only [Option.ite_none_left_eq_some, Option.some.injEq] at h
      obtain ⟨hr, rfl⟩ := h
      exact .readSkip hp hi (by simpa using hr)
  · cases h

theorem outcome_of_socket {res : Option Fd} (h : client R inherited s (.socket res) = some s') :
    Outcome R inherited s (.socket res) s' := by
  simp only [client] at h
  split at h
  · rename_i left hp
    cases res with
    | none =>
      obtain rfl := Option.some.inj h
      exact .socketFail hp
    | some fd =>
      simp only [Option.ite_none_right_eq_some] at h
      obtain ⟨hl, h⟩ := h
      split at h
      · rename_i regs hadd
        obtain rfl := Option.some.inj h
        exact .socket hp hl hadd
      · rename_i hadd
        obtain rfl := Option.some.inj h
        exact .overflow hp hadd
  · cases h

theorem outcome_of_recv {res : Recv} (h : client R inherited s (.recv res) = some s') :
    Outcome R inherited s (.recv res) s' := by
  simp only [client] at h
  split at h
  · rename_i iter hp
    split at h
    · rename_i fd hi
      simp only [Option.ite_none_right_eq_some] at h
      obtain ⟨⟨hr, hcan⟩, h⟩ := h
      split at h
      · rename_i e
        subst e
        obtain rfl := Option.some.inj h
        exact .eof hp hi hr
      · rename_i hne
        obtain rfl := Option.some.inj h
        exact .recv hp hi hr hcan hne
    · cases h
  · cases h

theorem outcome_of_client (h : client R inherited s a = some s') : Outcome R inherited s a s' := by
  cases a with
  | socket res => exact outcome_of_socket h
  | dispatch => exact outcome_of_dispatch h
  | recv res => exact outcome_of_recv h
  | connect =>
    simp only [client] at h
    split at h
    · rename_i fd left hp
      obtain rfl := Option.some.inj h
      exact .connect hp
    · cases h
  | wait rs ws =>
    simp only [client] at h
    split at h
    · rename_i hp
      obtain ⟨regs, hr, rfl⟩ := Option.map_eq_some_iff.mp h
      exact .wait hp hr
    · cases h
  | timeout =>
    simp only [client] at h
    split at h
    · rename_i hp
      simp only [Option.ite_none_right_eq_some, Option.some.injEq] at h
      obtain ⟨hl, rfl⟩ := h
      exact .timeout hp hl
    · cases h
  | waitFail =>
    simp only [client] at h
    split at h
    · rename_i hp
      obtain rfl := Option.some.inj h
      exact .waitFail hp
    · cases h
  | getsockopt res =>
    simp only [client] at h
    split at h
    · rename_i iter hp
      split at h
      · rename_i fd hi
        simp only [Option.ite_none_right_eq_some, Option.some.injEq] at h
        obtain ⟨hw, rfl⟩ := h
        exact .getsockopt hp hi hw
      · cases h
    · cases h
  | send res =>
    simp only [client] at h
    split at h
    · rename_i iter hp
      obtain ⟨fd, hi, rfl⟩ := Option.map_eq_some_iff.mp h
      exact .send hp hi
    · cases h
  | close =>
    simp only [client] at h
    split at h
    · rename_i fd iter hp
      obtain rfl := Option.some.inj h
      exact .close hp
    · cases h

end Outcome

end PracticeCode.MultiplexClient
