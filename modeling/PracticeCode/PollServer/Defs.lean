import PracticeCode.Lib.Run
import PracticeCode.Linux.Sockets

/-!
# `poll/server.cpp`: one thread, a vector of `pollfd`

`PollINET`: `poll`, then one walk over `fds`.  An entry with `POLLIN` gets one `accept`, if it is
the listening socket, or one `recv`; a chunk is sent back, and an entry whose connection ended or
failed is erased and closed.  `iter` is the position in the vector.
-/

namespace PracticeCode.PollServer

open Linux

/-- `pollfd` with `events = POLLIN`; of `revents`, whether it has `POLLIN`. -/
structure PollFd where
  fd : Fd
  revents : Bool
  deriving DecidableEq

inductive Point where
  | poll
  | loop
  | accept
  | recv (fd : Fd)
  | send (fd : Fd) (buf : List UInt8)
  | close (fd : Fd)
  | exited
  deriving DecidableEq

structure State where
  table : Table
  fds : List PollFd
  iter : ℕ
  point : Point
  log : List Call

def init (sfd : Fd) : State := ⟨.empty, [⟨sfd, false⟩], 0, .poll, []⟩

inductive Act where
  /-- `poll` returns; `ready` tells the descriptors with `POLLIN`. -/
  | poll (ready : List Fd)
  | pollTimeout
  | pollFail
  | dispatch
  | accept (res : Option Fd)
  | recv (res : Recv)
  | send (res : Option ℕ)
  | close
  deriving DecidableEq

def State.call (s : State) (c : Call) : State := { s with log := s.log ++ [c] }

/-- `iter++` at the end of the body. -/
def State.next (s : State) : State := { s with iter := s.iter + 1, point := .loop }

def step (sfd : Fd) (s : State) : Act → Option State
  | .poll ready => match s.point with
    | .poll => some { s with
        fds := s.fds.map fun p => { p with revents := ready.contains p.fd }
        iter := 0, point := .loop }
    | _ => none
  | .pollTimeout => match s.point with
    | .poll => some s
    | _ => none
  | .pollFail => match s.point with
    | .poll => some { s with point := .exited }
    | _ => none
  | .dispatch => match s.point with
    | .loop => match s.fds[s.iter]? with
      | none => some { s with point := .poll }
      | some p =>
        if !p.revents then some s.next
        else if p.fd = sfd then some { s with point := .accept }
        else some { s with point := .recv p.fd }
    | _ => none
  | .accept res => match s.point with
    | .accept => match res with
      | none => some (s.call (.accept none)).next
      | some fd =>
        if s.table.files fd = none ∧ fd ≠ sfd then
          some ({ (s.call (.accept (some fd))) with
            table := s.table.accept fd, fds := s.fds ++ [⟨fd, false⟩] } : State).next
        else none
    | _ => none
  | .recv res => match s.point with
    | .recv fd =>
      if s.table.CanRecv fd res then
        let s := s.call (.recv fd (s.table.files fd) res)
        match res with
        | .data bytes => some { s with point := .send fd (fill bytes) }
        -- `fds.erase(iter)` gives the next entry
        | _ => some { s with fds := s.fds.eraseIdx s.iter, point := .close fd }
      else none
    | _ => none
  | .send res => match s.point with
    | .send fd buf => some (s.call (.send fd (s.table.files fd) buf res)).next
    | _ => none
  | .close => match s.point with
    | .close fd => some { (s.call (.close fd (s.table.files fd))) with
        table := s.table.close fd, point := .loop }
    | _ => none

/-- The reply that is about to be sent. -/
def State.sending (s : State) : Option (Fd × List UInt8) :=
  match s.point with
  | .send fd buf => some (fd, buf)
  | _ => none

/-! ## The inversion of `step` -/

inductive Outcome (sfd : Fd) (s : State) : Act → State → Prop
  | poll {ready} : s.point = .poll →
      Outcome sfd s (.poll ready) { s with
        fds := s.fds.map fun p => { p with revents := ready.contains p.fd }
        iter := 0, point := .loop }
  | timeout : s.point = .poll → Outcome sfd s .pollTimeout s
  | fail : s.point = .poll → Outcome sfd s .pollFail { s with point := .exited }
  | passEnd : s.point = .loop → s.fds[s.iter]? = none →
      Outcome sfd s .dispatch { s with point := .poll }
  | skip {p} : s.point = .loop → s.fds[s.iter]? = some p → p.revents = false →
      Outcome sfd s .dispatch s.next
  | listening {p} : s.point = .loop → s.fds[s.iter]? = some p → p.revents = true → p.fd = sfd →
      Outcome sfd s .dispatch { s with point := .accept }
  | client {p} : s.point = .loop → s.fds[s.iter]? = some p → p.revents = true → p.fd ≠ sfd →
      Outcome sfd s .dispatch { s with point := .recv p.fd }
  | acceptFail : s.point = .accept → Outcome sfd s (.accept none) (s.call (.accept none)).next
  | accept {fd} : s.point = .accept → s.table.files fd = none → fd ≠ sfd →
      Outcome sfd s (.accept (some fd)) ({ (s.call (.accept (some fd))) with
        table := s.table.accept fd, fds := s.fds ++ [⟨fd, false⟩] } : State).next
  | recvData {fd bytes} : s.point = .recv fd → s.table.CanRecv fd (.data bytes) →
      Outcome sfd s (.recv (.data bytes))
        { (s.call (.recv fd (s.table.files fd) (.data bytes))) with point := .send fd (fill bytes) }
  | recvStop {fd res} : s.point = .recv fd → (∀ bytes, res ≠ .data bytes) →
      Outcome sfd s (.recv res) { (s.call (.recv fd (s.table.files fd) res)) with
        fds := s.fds.eraseIdx s.iter, point := .close fd }
  | send {fd buf res} : s.point = .send fd buf →
      Outcome sfd s (.send res) (s.call (.send fd (s.table.files fd) buf res)).next
  | close {fd} : s.point = .close fd →
      Outcome sfd s .close { (s.call (.close fd (s.table.files fd))) with
        table := s.table.close fd, point := .loop }

theorem outcome_of_step {sfd : Fd} {s s' : State} {a : Act} (h : step sfd s a = some s') :
    Outcome sfd s a s' := by
  cases a with
  | poll ready =>
    simp only [step] at h
    split at h
    · rename_i hp
      obtain rfl := Option.some.inj h
      exact .poll hp
    · cases h
  | pollTimeout =>
    simp only [step] at h
    split at h
    · rename_i hp
      obtain rfl := Option.some.inj h
      exact .timeout hp
    · cases h
  | pollFail =>
    simp only [step] at h
    split at h
    · rename_i hp
      obtain rfl := Option.some.inj h
      exact .fail hp
    · cases h
  | dispatch =>
    simp only [step] at h
    split at h
    · rename_i hp
      split at h
      · rename_i hi
        obtain rfl := Option.some.inj h
        exact .passEnd hp hi
      · rename_i p hi
        split at h
        · rename_i hr
          obtain rfl := Option.some.inj h
          exact .skip hp hi (by simpa using hr)
        · rename_i hr
          split at h
          · rename_i e
            obtain rfl := Option.some.inj h
            exact .listening hp hi (by simpa using hr) e
          · rename_i hne
            obtain rfl := Option.some.inj h
            exact .client hp hi (by simpa using hr) hne
    · cases h
  | accept res =>
    simp only [step] at h
    split at h
    · rename_i hp
      cases res with
      | none =>
        obtain rfl := Option.some.inj h
        exact .acceptFail hp
      | some fd =>
        simp only [Option.ite_none_right_eq_some, Option.some.injEq] at h
        obtain ⟨⟨hfree, hne⟩, rfl⟩ := h
        exact .accept hp hfree hne
    · cases h
  | recv res =>
    simp only [step] at h
    split at h
    · rename_i hp
      simp only [Option.ite_none_right_eq_some] at h
      obtain ⟨hcan, h⟩ := h
      cases res with
      | data bytes =>
        obtain rfl := Option.some.inj h
        exact .recvData hp hcan
      | eof | again | fail =>
        obtain rfl := Option.some.inj h
        exact .recvStop hp (by simp)
    · cases h
  | send res =>
    simp only [step] at h
    split at h
    · rename_i hp
      obtain rfl := Option.some.inj h
      exact .send hp
    · cases h
  | close =>
    simp only [step] at h
    split at h
    · rename_i hp
      obtain rfl := Option.some.inj h
      exact .close hp
    · cases h

end PracticeCode.PollServer
