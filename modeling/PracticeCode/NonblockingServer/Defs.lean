import PracticeCode.Lib.Run
import PracticeCode.Linux.Sockets

/-!
# `2.nonblocking/server.cpp`: no waiting at all

`NonblockingAcceptAndRecv`: one `accept`, then one round over `client_fds`, again and again.  Each
entry gets one `recv`; a chunk is sent back, and an entry whose connection ended or failed is closed
and erased.  `iter` is the position in the vector.
-/

namespace PracticeCode.NonblockingServer

open Linux

inductive Point where
  | accept
  /-- The test of `iter` against the end, and the `recv` behind it. -/
  | round
  | send (fd : Fd) (buf : List UInt8)
  | close (fd : Fd)
  | returned
  deriving DecidableEq

structure State where
  table : Table
  client_fds : List Fd
  iter : ℕ
  point : Point
  log : List Call

def init : State := ⟨.empty, [], 0, .accept, []⟩

inductive Act where
  | accept (fd : Fd)
  | acceptAgain
  | acceptFail
  | recv (res : Recv)
  | send (res : Option ℕ)
  | close
  | endRound
  deriving DecidableEq

def State.call (s : State) (c : Call) : State := { s with log := s.log ++ [c] }

/-- What the loop does with the result of `recv` on the entry `fd`. -/
def State.onRecv (s : State) (fd : Fd) : Recv → State
  | .data bytes => { s with point := .send fd (fill bytes) }
  | .again => { s with iter := s.iter + 1 }
  | .eof | .fail => { s with point := .close fd }

def step (sfd : Fd) (s : State) : Act → Option State
  | .accept fd => match s.point with
    | .accept =>
      if s.table.files fd = none ∧ fd ≠ sfd then
        some { (s.call (.accept (some fd))) with
          table := s.table.accept fd, client_fds := s.client_fds ++ [fd], iter := 0,
          point := .round }
      else none
    | _ => none
  | .acceptAgain => match s.point with
    | .accept => some { (s.call (.accept none)) with iter := 0, point := .round }
    | _ => none
  | .acceptFail => match s.point with
    | .accept => some { (s.call (.accept none)) with point := .returned }
    | _ => none
  | .recv res => match s.point with
    | .round => match s.client_fds[s.iter]? with
      | some fd =>
        if s.table.CanRecv fd res then
          some ((s.call (.recv fd (s.table.files fd) res)).onRecv fd res)
        else none
      | none => none
    | _ => none
  | .send res => match s.point with
    -- the result is not looked at
    | .send fd buf => some { (s.call (.send fd (s.table.files fd) buf res)) with
        iter := s.iter + 1, point := .round }
    | _ => none
  | .close => match s.point with
    | .close fd => some { (s.call (.close fd (s.table.files fd))) with
        table := s.table.close fd, client_fds := s.client_fds.eraseIdx s.iter, point := .round }
    | _ => none
  | .endRound => match s.point with
    | .round => if s.client_fds.length ≤ s.iter then some { s with point := .accept } else none
    | _ => none

/-- The reply that is about to be sent. -/
def State.sending (s : State) : Option (Fd × List UInt8) :=
  match s.point with
  | .send fd buf => some (fd, buf)
  | _ => none

/-! ## The inversion of `step` -/

inductive Outcome (sfd : Fd) (s : State) : Act → State → Prop
  | accept {fd} : s.point = .accept → s.table.files fd = none →
      Outcome sfd s (.accept fd) { (s.call (.accept (some fd))) with
        table := s.table.accept fd, client_fds := s.client_fds ++ [fd], iter := 0,
        point := .round }
  | acceptAgain : s.point = .accept →
      Outcome sfd s .acceptAgain { (s.call (.accept none)) with iter := 0, point := .round }
  | acceptFail : s.point = .accept →
      Outcome sfd s .acceptFail { (s.call (.accept none)) with point := .returned }
  | recvData {fd bytes} : s.point = .round → s.client_fds[s.iter]? = some fd →
      s.table.CanRecv fd (.data bytes) →
      Outcome sfd s (.recv (.data bytes))
        { (s.call (.recv fd (s.table.files fd) (.data bytes))) with point := .send fd (fill bytes) }
  | recvAgain {fd} : s.point = .round → s.client_fds[s.iter]? = some fd →
      Outcome sfd s (.recv .again) { (s.call (.recv fd (s.table.files fd) .again)) with
        iter := s.iter + 1 }
  | recvStop {fd res} : s.point = .round → s.client_fds[s.iter]? = some fd →
      (∀ bytes, res ≠ .data bytes) →
      Outcome sfd s (.recv res) { (s.call (.recv fd (s.table.files fd) res)) with
        point := .close fd }
  | send {fd buf res} : s.point = .send fd buf →
      Outcome sfd s (.send res) { (s.call (.send fd (s.table.files fd) buf res)) with
        iter := s.iter + 1, point := .round }
  | close {fd} : s.point = .close fd →
      Outcome sfd s .close { (s.call (.close fd (s.table.files fd))) with
        table := s.table.close fd, client_fds := s.client_fds.eraseIdx s.iter, point := .round }
  | endRound : s.point = .round → s.client_fds.length ≤ s.iter →
      Outcome sfd s .endRound { s with point := .accept }

theorem outcome_of_step {sfd : Fd} {s s' : State} {a : Act} (h : step sfd s a = some s') :
    Outcome sfd s a s' := by
  cases a with
  | accept fd =>
    simp only [step] at h
    split at h
    · rename_i hp
      simp only [Option.ite_none_right_eq_some, Option.some.injEq] at h
      obtain ⟨⟨hfree, -⟩, rfl⟩ := h
      exact .accept hp hfree
    · cases h
  | acceptAgain =>
    simp only [step] at h
    split at h
    · rename_i hp
      obtain rfl := Option.some.inj h
      exact .acceptAgain hp
    · cases h
  | acceptFail =>
    simp only [step] at h
    split at h
    · rename_i hp
      obtain rfl := Option.some.inj h
      exact .acceptFail hp
    · cases h
  | recv res =>
    simp only [step] at h
    split at h
    · rename_i hp
      split at h
      · rename_i fd hi
        simp only [Option.ite_none_right_eq_some, Option.some.injEq] at h
        obtain ⟨hcan, rfl⟩ := h
        cases res with
        | data bytes => exact .recvData hp hi hcan
        | again => exact .recvAgain hp hi
        | eof | fail => exact .recvStop hp hi nofun
      · cases h
    · cases h
  | send res =>
    simp only [step] at h
    split at h
    · rename_i hp
      obtain rfl := Option.some.inj h
      exact .send hp
    · cases h
  | close =>
    simp only [step] at h
    split at h
    · rename_i hp
      obtain rfl := Option.some.inj h
      exact .close hp
    · cases h
  | endRound =>
    simp only [step] at h
    split at h
    · rename_i hp
      simp only [Option.ite_none_right_eq_some, Option.some.injEq] at h
      obtain ⟨hle, rfl⟩ := h
      exact .endRound hp hle
    · cases h

end PracticeCode.NonblockingServer
