import PracticeCode.Lib.Run
import PracticeCode.Linux.Sockets
import Mathlib.Data.List.Sort

/-!
# `select/server.cpp` and `utils.h`: one thread, three records of the same descriptors

`SelectINET`: `select`, then one walk over `fds` in numeric order.  A descriptor in `readfds` gets
one `accept`, if it is the listening socket, or one `recv`; a chunk is sent back, and a descriptor
whose connection ended or failed is removed and closed.

A `std::set<int>` is a strictly increasing list, an iterator the element it stands at, or `none` for
`end()`.  An `fd_set` is the set of its bits; `FD_SET` of a number from `FD_SETSIZE` on writes
behind the array, which is the point `undefined`.
-/

namespace PracticeCode.SelectServer

open Linux

abbrev FD_SETSIZE : ℕ := 1024

abbrev FdSet := Fd → Bool

/-! ## `utils.h` -/

/-- What `AddFd` and `RemoveFd` keep: `origin_set`, `fds` and `max_fd`. -/
structure Sets where
  origin_set : FdSet
  fds : List Fd
  max_fd : ℕ

def insertFd (fd : Fd) (fds : List Fd) : List Fd :=
  if fd ∈ fds then fds else fds.orderedInsert (· ≤ ·) fd

/-- The element behind `fd`. -/
def nextFd (fd : Fd) (fds : List Fd) : Option Fd := fds.find? (fd < ·)

def AddFd (t : Sets) (fd : Fd) : Sets where
  origin_set := Function.update t.origin_set fd true
  max_fd := if t.max_fd < fd then fd else t.max_fd
  fds := insertFd fd t.fds

/-- Removes the element the iterator stands at, and moves the iterator on. -/
def RemoveFd (t : Sets) (iter : Fd) : Sets × Option Fd :=
  let fds := t.fds.erase iter
  ({ origin_set := Function.update t.origin_set iter false
     fds := fds
     max_fd := if t.max_fd ≤ iter then fds.getLast?.getD t.max_fd else t.max_fd },
    nextFd iter t.fds)

/-! ## `SelectINET` -/

inductive Point where
  | select
  | loop
  | accept
  | recv
  | send (buf : List UInt8)
  | close (fd : Fd)
  | exited
  | undefined
  deriving DecidableEq

structure State where
  table : Table
  sets : Sets
  readfds : FdSet
  iter : Option Fd
  point : Point
  log : List Call

def init (sfd : Fd) : State where
  table := .empty
  sets := AddFd ⟨fun _ => false, [], 0⟩ sfd
  readfds _ := false
  iter := none
  point := if sfd < FD_SETSIZE then .select else .undefined
  log := []

inductive Act where
  /-- `select` returns and leaves the bits of `ready` in `readfds`. -/
  | select (ready : List Fd)
  | selectTimeout
  | selectFail
  | dispatch
  | accept (res : Option Fd)
  | recv (res : Recv)
  | send (res : Option ℕ)
  | close
  deriving DecidableEq

def State.call (s : State) (c : Call) : State := { s with log := s.log ++ [c] }

/-- `iter++` at the end of the body. -/
def State.next (s : State) (fd : Fd) : State :=
  { s with iter := nextFd fd s.sets.fds, point := .loop }

def step (sfd : Fd) (s : State) : Act → Option State
  | .select ready => match s.point with
    | .select =>
      -- `select` only clears bits
      if ∀ fd ∈ ready, s.sets.origin_set fd = true then
        some { s with readfds := ready.contains, iter := s.sets.fds.head?, point := .loop }
      else none
    | _ => none
  | .selectTimeout => match s.point with
    | .select => some s
    | _ => none
  | .selectFail => match s.point with
    | .select => some { s with point := .exited }
    | _ => none
  | .dispatch => match s.point with
    | .loop => match s.iter with
      | none => some { s with point := .select }
      | some fd =>
        if !s.readfds fd then some (s.next fd)
        else if fd = sfd then some { s with point := .accept }
        else some { s with point := .recv }
    | _ => none
  | .accept res => match s.point, s.iter with
    | .accept, some iter => match res with
      | none => some ((s.call (.accept none)).next iter)
      | some cfd =>
        if s.table.files cfd = none ∧ cfd ≠ sfd then
          let s := { (s.call (.accept (some cfd))) with table := s.table.accept cfd }
          if cfd < FD_SETSIZE then
            some (({ s with sets := AddFd s.sets cfd } : State).next iter)
          else some { s with point := .undefined }
        else none
    | _, _ => none
  | .recv res => match s.point, s.iter with
    | .recv, some fd =>
      if s.table.CanRecv fd res then
        let s := s.call (.recv fd (s.table.files fd) res)
        match res with
        | .data bytes => some { s with point := .send (fill bytes) }
        | _ => some { s with
            sets := (RemoveFd s.sets fd).1, iter := (RemoveFd s.sets fd).2, point := .close fd }
      else none
    | _, _ => none
  | .send res => match s.point, s.iter with
    | .send buf, some fd => some ((s.call (.send fd (s.table.files fd) buf res)).next fd)
    | _, _ => none
  | .close => match s.point with
    | .close fd => some { (s.call (.close fd (s.table.files fd))) with
        table := s.table.close fd, point := .loop }
    | _ => none

/-- The reply that is about to be sent. -/
def State.sending (s : State) : Option (Fd × List UInt8) :=
  match s.point, s.iter with
  | .send buf, some fd => some (fd, buf)
  | _, _ => none

/-! ## The inversion of `step` -/

inductive Outcome (sfd : Fd) (s : State) : Act → State → Prop
  | select {ready} : s.point = .select → (∀ fd ∈ ready, s.sets.origin_set fd = true) →
      Outcome sfd s (.select ready) { s with
        readfds := ready.contains, iter := s.sets.fds.head?, point := .loop }
  | timeout : s.point = .select → Outcome sfd s .selectTimeout s
  | fail : s.point = .select → Outcome sfd s .selectFail { s with point := .exited }
  | passEnd : s.point = .loop → s.iter = none →
      Outcome sfd s .dispatch { s with point := .select }
  | skip {fd} : s.point = .loop → s.iter = some fd → s.readfds fd = false →
      Outcome sfd s .dispatch (s.next fd)
  | listening : s.point = .loop → s.iter = some sfd → s.readfds sfd = true →
      Outcome sfd s .dispatch { s with point := .accept }
  | client {fd} : s.point = .loop → s.iter = some fd → s.readfds fd = true → fd ≠ sfd →
      Outcome sfd s .dispatch { s with point := .recv }
  | acceptFail {fd} : s.point = .accept → s.iter = some fd →
      Outcome sfd s (.accept none) ((s.call (.accept none)).next fd)
  | accept {fd cfd} : s.point = .accept → s.iter = some fd → s.table.files cfd = none →
      cfd ≠ sfd → cfd < FD_SETSIZE →
      Outcome sfd s (.accept (some cfd)) (({ (s.call (.accept (some cfd))) with
        table := s.table.accept cfd, sets := AddFd s.sets cfd } : State).next fd)
  | overflow {cfd} : s.point = .accept → FD_SETSIZE ≤ cfd →
      Outcome sfd s (.accept (some cfd)) { (s.call (.accept (some cfd))) with
        table := s.table.accept cfd, point := .undefined }
  | recvData {fd bytes} : s.point = .recv → s.iter = some fd →
      s.table.CanRecv fd (.data bytes) →
      Outcome sfd s (.recv (.data bytes))
        { (s.call (.recv fd (s.table.files fd) (.data bytes))) with point := .send (fill bytes) }
  | recvStop {fd res} : s.point = .recv → s.iter = some fd → (∀ bytes, res ≠ .data bytes) →
      Outcome sfd s (.recv res) { (s.call (.recv fd (s.table.files fd) res)) with
        sets := (RemoveFd s.sets fd).1, iter := (RemoveFd s.sets fd).2, point := .close fd }
  | send {fd buf res} : s.point = .send buf → s.iter = some fd →
      Outcome sfd s (.send res) ((s.call (.send fd (s.table.files fd) buf res)).next fd)
  | close {fd} : s.point = .close fd →
      Outcome sfd s .close { (s.call (.close fd (s.table.files fd))) with
        table := s.table.close fd, point := .loop }

theorem outcome_of_step {sfd : Fd} {s s' : State} {a : Act} (h : step sfd s a = some s') :
    Outcome sfd s a s' := by
  cases a with
  | select ready =>
    simp only [step] at h
    split at h
    · rename_i hp
      simp only [Option.ite_none_right_eq_some, Option.some.injEq] at h
      obtain ⟨hr, rfl⟩ := h
      exact .select hp hr
    · cases h
  | selectTimeout =>
    simp only [step] at h
    split at h
    · rename_i hp
      obtain rfl := Option.some.inj h
      exact .timeout hp
    · cases h
  | selectFail =>
    simp only [step] at h
    split at h
    · rename_i hp
      obtain rfl := Option.some.inj h
      exact .fail hp
    · cases h
  | dispatch =>
    simp only [step] at h
    split at h
    · rename_i hp
      split at h
      · rename_i hi
        obtain rfl := Option.some.inj h
        exact .passEnd hp hi
      · rename_i fd hi
        split at h
        · rename_i hr
          obtain rfl := Option.some.inj h
          exact .skip hp hi (by simpa using hr)
        · rename_i hr
          split at h
          · rename_i e
            subst e
            obtain rfl := Option.some.inj h
            exact .listening hp hi (by simpa using hr)
          · rename_i hne
            obtain rfl := Option.some.inj h
            exact .client hp hi (by simpa using hr) hne
    · cases h
  | accept res =>
    simp only [step] at h
    split at h
    · rename_i hp hi
      cases res with
      | none =>
        obtain rfl := Option.some.inj h
        exact .acceptFail hp hi
      | some cfd =>
        simp only [Option.ite_none_right_eq_some] at h
        obtain ⟨⟨hfree, hne⟩, h⟩ := h
        split at h
        · rename_i hlt
          obtain rfl := Option.some.inj h
          exact .accept hp hi hfree hne hlt
        · rename_i hlt
          obtain rfl := Option.some.inj h
          exact .overflow hp (Nat.le_of_not_lt hlt)
    · cases h
  | recv res =>
    simp only [step] at h
    split at h
    · rename_i hp hi
      simp only [Option.ite_none_right_eq_some] at h
      obtain ⟨hcan, h⟩ := h
      cases res with
      | data bytes =>
        obtain rfl := Option.some.inj h
        exact .recvData hp hi hcan
      | eof | again | fail =>
        obtain rfl := Option.some.inj h
        exact .recvStop hp hi (by simp)
    · cases h
  | send res =>
    simp only [step] at h
    split at h
    · rename_i hp hi
      obtain rfl := Option.some.inj h
      exact .send hp hi
    · cases h
  | close =>
    simp only [step] at h
    split at h
    · rename_i hp
      obtain rfl := Option.some.inj h
      exact .close hp
    · cases h

end PracticeCode.SelectServer
