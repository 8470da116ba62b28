import PracticeCode.Lib.Cursor
import PracticeCode.Lib.Run
import PracticeCode.Lib.SortedMap
import Mathlib.Data.Int.Order.Basic

/-!
# `2.nonblocking/client.cpp`: iterators over what is erased

`NonblockingConnectSendINET`: a pass over the vector of the sockets that are not connected yet, then
one over the map of those that are, again and again.  Both erase while they go.  The first takes
the iterator that `erase` returns; the second erases the element of `miter` and increments `miter`
behind it, and prints through `miter` after it has moved on.

An iterator of the vector is a position together with the number of erasures it has seen, one of the
map is a key, or `none` for `end()`; either is invalid when its element was erased.  What follows a
use of an iterator that is not valid is the point `undefined`.
-/

namespace PracticeCode.NonblockingClient

open Lib

abbrev SEND_TIME_DIFF : ℤ := 0

/-- `errno` on Linux. -/
abbrev EAGAIN : ℤ := 11
abbrev EWOULDBLOCK : ℤ := 11
abbrev EALREADY : ℤ := 114
abbrev EINPROGRESS : ℤ := 115

/-- A socket is an `int`; `socket` may have failed with `-1`. -/
abbrev Fd := ℤ

inductive Point where
  | connectLoop
  | connect
  | sendLoop
  | time
  | send (now : ℤ)
  | recv
  | undefined
  deriving DecidableEq

/-- What the client asks of the kernel. -/
inductive Call where
  | connect (fd : Fd)
  | send (fd : Fd) (msg : String)
  | recv (fd : Fd)
  deriving DecidableEq

structure State where
  origin_client_fds : List Fd
  /-- How often `origin_client_fds.erase` was called. -/
  erasures : ℕ
  iter : ℕ
  /-- The erasures that `iter` has seen. -/
  seen : ℕ
  /-- The time of the last message. -/
  connected_fds : SortedMap Fd ℤ
  miter : Option Fd
  point : Point
  log : List Call

/-- The results of `socket` are in the vector, and `iter` is at the first. -/
def init (fds : List Fd) : State := ⟨fds, 0, 0, 0, .empty, none, .connectLoop, []⟩

inductive Act where
  /-- The condition of the loop. -/
  | test
  | connect (ret errno : ℤ)
  | time (now : ℤ)
  | send (ret : ℤ)
  | recv (ret errno : ℤ)
  deriving DecidableEq

def State.call (s : State) (c : Call) : State := { s with log := s.log ++ [c] }

/-- `iter = origin_client_fds.erase(iter)`. -/
def State.eraseOrigin (s : State) : State := { s with
  origin_client_fds := s.origin_client_fds.eraseIdx s.iter
  erasures := s.erasures + 1
  seen := s.erasures + 1
  point := .connectLoop }

/-- `iter++`. -/
def State.nextOrigin (s : State) : State := { s with iter := s.iter + 1, point := .connectLoop }

/-- Not a failure of a nonblocking `connect`. -/
def connecting (errno : ℤ) : Prop := errno = EAGAIN ∨ errno = EALREADY ∨ errno = EINPROGRESS

instance (errno : ℤ) : Decidable (connecting errno) := by
  unfold connecting
  infer_instance

/-- Nothing was there to read. -/
def blocked (errno : ℤ) : Prop := errno = EAGAIN ∨ errno = EWOULDBLOCK

instance (errno : ℤ) : Decidable (blocked errno) := by
  unfold blocked
  infer_instance

/-- What the first pass does with the result of `connect` on `fd`. -/
def State.onConnect (s : State) (fd : Fd) (ret errno : ℤ) : State :=
  if ret = 0 then { s.eraseOrigin with connected_fds := s.connected_fds.insert fd 0 }
  else if ret = -1 ∧ ¬ connecting errno then s.eraseOrigin
  else s.nextOrigin

/-- What the second pass does with the result of `recv` on `fd`. -/
def State.onRecv (s : State) (fd : Fd) (ret errno : ℤ) : State :=
  let next := s.connected_fds.next fd
  if ret < 0 then
    -- `miter` has moved on before it is printed through
    if next = none ∧ ¬ blocked errno then { s with miter := next, point := .undefined }
    else { s with miter := next, point := .sendLoop }
  else if ret = 0 then
    { s with connected_fds := s.connected_fds.erase fd, point := .undefined }
  else { s with miter := next, point := .sendLoop }

def step (s : State) : Act → Option State
  | .test => match s.point with
    | .connectLoop =>
      if s.iter < s.origin_client_fds.length then some { s with point := .connect }
      else some { s with miter := s.connected_fds.first, point := .sendLoop }
    | .sendLoop => match s.miter with
      | some _ => some { s with point := .time }
      | none => some { s with iter := 0, seen := s.erasures, point := .connectLoop }
    | _ => none
  | .connect ret errno => match s.point with
    | .connect =>
      (s.origin_client_fds[s.iter]?).map fun fd => (s.call (.connect fd)).onConnect fd ret errno
    | _ => none
  | .time now => match s.point with
    | .time => (s.miter.bind s.connected_fds.get?).map fun second =>
      { s with point := if now - second > SEND_TIME_DIFF then .send now else .recv }
    | _ => none
  | .send _ => match s.point with
    -- the time is set after a failure as well
    | .send now => s.miter.map fun fd =>
      { (s.call (.send fd s!"msg from client fd {fd}")) with
        connected_fds := s.connected_fds.set fd now, point := .recv }
    | _ => none
  | .recv ret errno => match s.point with
    | .recv => s.miter.map fun fd => (s.call (.recv fd)).onRecv fd ret errno
    | _ => none

/-! ## The inversion of `step` -/

inductive Outcome (s : State) : Act → State → Prop
  | testConnect : s.point = .connectLoop → s.iter < s.origin_client_fds.length →
      Outcome s .test { s with point := .connect }
  | endConnect : s.point = .connectLoop → s.origin_client_fds.length ≤ s.iter →
      Outcome s .test { s with miter := s.connected_fds.first, point := .sendLoop }
  | connect {fd ret errno} : s.point = .connect → s.origin_client_fds[s.iter]? = some fd →
      Outcome s (.connect ret errno) ((s.call (.connect fd)).onConnect fd ret errno)
  | testSend {fd} : s.point = .sendLoop → s.miter = some fd →
      Outcome s .test { s with point := .time }
  | endSend : s.point = .sendLoop → s.miter = none →
      Outcome s .test { s with iter := 0, seen := s.erasures, point := .connectLoop }
  | time {fd now second} : s.point = .time → s.miter = some fd →
      s.connected_fds.get? fd = some second →
      Outcome s (.time now)
        { s with point := if now - second > SEND_TIME_DIFF then .send now else .recv }
  | send {fd now ret} : s.point = .send now → s.miter = some fd →
      Outcome s (.send ret) { (s.call (.send fd s!"msg from client fd {fd}")) with
        connected_fds := s.connected_fds.set fd now, point := .recv }
  | recv {fd ret errno} : s.point = .recv → s.miter = some fd →
      Outcome s (.recv ret errno) ((s.call (.recv fd)).onRecv fd ret errno)

theorem outcome_of_step {s s' : State} {a : Act} (h : step s a = some s') : Outcome s a s' := by
  cases a with
  | test =>
    simp only [step] at h
    split at h
    · rename_i hp
      split at h
      · rename_i hlt
        obtain rfl := Option.some.inj h
        exact .testConnect hp hlt
      · rename_i hle
        obtain rfl := Option.some.inj h
        exact .endConnect hp (Nat.le_of_not_lt hle)
    · rename_i hp
      split at h
      · rename_i fd hi
        obtain rfl := Option.some.inj h
        exact .testSend hp hi
      · rename_i hi
        obtain rfl := Option.some.inj h
        exact .endSend hp hi
    · cases h
  | connect ret errno =>
    simp only [step] at h
    split at h
    · rename_i hp
      obtain ⟨fd, hi, rfl⟩ := Option.map_eq_some_iff.mp h
      exact .connect hp hi
    · cases h
  | time now =>
    simp only [step] at h
    split at h
    · rename_i hp
      obtain ⟨second, hs, rfl⟩ := Option.map_eq_some_iff.mp h
      obtain ⟨fd, hi, hfd⟩ := Option.bind_eq_some_iff.mp hs
      exact .time hp hi hfd
    · cases h
  | send ret =>
    simp only [step] at h
    split at h
    · rename_i hp
      obtain ⟨fd, hi, rfl⟩ := Option.map_eq_some_iff.mp h
      exact .send hp hi
    · cases h
  | recv ret errno =>
    simp only [step] at h
    split at h
    · rename_i hp
      obtain ⟨fd, hi, rfl⟩ := Option.map_eq_some_iff.mp h
      exact .recv hp hi
    · cases h

/-! ## The uses of the iterators -/

/-- A use of `iter`. -/
def State.use (s : State) (op : Op) : Use :=
  ⟨op, decide (s.seen = s.erasures), decide (s.iter < s.origin_client_fds.length)⟩

/-- A use of an iterator of the map. -/
def mapUse (m : SortedMap Fd ℤ) (miter : Option Fd) (op : Op) : Use where
  op := op
  live := miter.all fun fd => fd ∈ m
  inside := miter.isSome

/-- The uses in a step, in their order. -/
def uses (s : State) : Act → List Use
  | .test => match s.point with
    | .connectLoop => [s.use .compare]
    | _ => [mapUse s.connected_fds s.miter .compare]
  | .connect ret errno =>
    if ret = 0 then [s.use .deref, s.use .deref, s.use .deref, s.use .erase]
    else if ret = -1 ∧ ¬ connecting errno then [s.use .deref, s.use .deref, s.use .erase]
    else [s.use .deref, s.use .increment]
  | .time _ => [mapUse s.connected_fds s.miter .deref]
  | .send _ => List.replicate 4 (mapUse s.connected_fds s.miter .deref)
  | .recv ret errno =>
    let use := mapUse s.connected_fds s.miter
    let next := s.miter.bind s.connected_fds.next
    if ret < 0 then
      if blocked errno then [use .deref, use .increment]
      else [use .deref, use .increment, mapUse s.connected_fds next .deref]
    else if ret = 0 then
      [use .deref, use .deref, use .erase,
        mapUse (s.miter.elim s.connected_fds s.connected_fds.erase) s.miter .increment]
    else [use .deref, use .deref, use .increment]

/-- The server does not close the connection, and `recv` does not fail on the last of them. -/
def harmless (s : State) : Act → Prop
  | .recv ret errno =>
    ret ≠ 0 ∧ (ret < 0 → ¬ blocked errno → ∃ k ∈ s.connected_fds, ∃ fd ∈ s.miter, fd < k)
  | _ => True

instance (s : State) (a : Act) : Decidable (harmless s a) := by
  cases a using Act.casesOn <;> unfold harmless <;> infer_instance

/-! ## Where the iterators stand -/

def Stands (s : State) : Prop :=
  match s.point with
  | .connectLoop => s.seen = s.erasures
  | .connect => s.seen = s.erasures ∧ s.iter < s.origin_client_fds.length
  | .sendLoop => ∀ fd, s.miter = some fd → fd ∈ s.connected_fds
  | .time | .send _ | .recv => ∃ fd, s.miter = some fd ∧ fd ∈ s.connected_fds
  | .undefined => True

section Step

variable {s s' : State} {a : Act} {as : List Act}

theorem stands_onConnect {fd : Fd} {ret errno : ℤ} (h : s.seen = s.erasures) :
    Stands (s.onConnect fd ret errno) := by
  unfold State.onConnect
  split
  · exact rfl
  · split
    · exact rfl
    · exact h

theorem stands_onRecv {fd : Fd} {ret errno : ℤ} : Stands (s.onRecv fd ret errno) := by
  have hnext : ∀ k, s.connected_fds.next fd = some k → k ∈ s.connected_fds :=
    fun _ hk => SortedMap.mem_of_next hk
  simp only [State.onRecv]
  split
  · split
    · trivial
    · exact hnext
  · split
    · trivial
    · exact hnext

theorem stands_step (h : Stands s) (hs : step s a = some s') : Stands s' := by
  cases outcome_of_step hs with
  | testConnect hp hlt =>
    simp only [Stands, hp] at h
    exact ⟨h, hlt⟩
  | endConnect hp hle => exact fun _ hk => SortedMap.mem_of_first hk
  | connect hp hi =>
    simp only [Stands, hp] at h
    exact stands_onConnect h.1
  | @testSend fd hp hi =>
    simp only [Stands, hp] at h
    exact ⟨fd, hi, h fd hi⟩
  | endSend hp hi => exact rfl
  | @time fd now second hp hi hget =>
    simp only [Stands, hp] at h
    by_cases hlate : now - second > SEND_TIME_DIFF
    · rw [if_pos hlate]
      exact h
    · rw [if_neg hlate]
      exact h
  | @send fd now ret hp hi =>
    simp only [Stands, hp] at h
    obtain ⟨k, hk, hm⟩ := h
    exact ⟨k, hk, SortedMap.mem_set.mpr hm⟩
  | recv hp hi => exact stands_onRecv

/-! ## The uses are valid -/

theorem use_valid {op : Op} : (s.use op).Valid ↔
    s.seen = s.erasures ∧ (op = .compare ∨ s.iter < s.origin_client_fds.length) := by
  simp [Use.Valid, State.use]

theorem mapUse_valid {m : SortedMap Fd ℤ} {fd : Fd} {op : Op} :
    (mapUse m (some fd) op).Valid ↔ fd ∈ m := by
  simp [Use.Valid, mapUse]

/-- Through the iterator behind `fd` there is something to print unless `fd` is the last. -/
theorem mapUse_next_valid {m : SortedMap Fd ℤ} {fd : Fd} :
    (mapUse m (m.next fd) .deref).Valid ↔ ∃ k ∈ m, fd < k := by
  cases hn : m.next fd with
  | none =>
    have hlast := SortedMap.next_eq_none_iff.mp hn
    refine iff_of_false (by simp [mapUse, Use.Valid]) ?_
    rintro ⟨k, hk, hlt⟩
    exact absurd (hlast k hk) (not_le.mpr hlt)
  | some k =>
    refine iff_of_true (mapUse_valid.mpr (SortedMap.mem_of_next hn)) ?_
    by_contra hno
    push Not at hno
    rw [SortedMap.next_eq_none_iff.mpr hno] at hn
    cases hn

/-- **A step uses valid iterators** exactly if it is harmless. -/
theorem uses_valid_iff (h : Stands s) (hs : step s a = some s') :
    (∀ u ∈ uses s a, u.Valid) ↔ harmless s a := by
  cases outcome_of_step hs with
  | testConnect hp hle | endConnect hp hle =>
    simp only [Stands, hp] at h
    refine iff_of_true ?_ trivial
    simp [uses, hp, use_valid, h]
  | @connect fd ret errno hp hi =>
    simp only [Stands, hp] at h
    have huse : ∀ op, (s.use op).Valid := fun op => use_valid.mpr ⟨h.1, .inr h.2⟩
    refine iff_of_true ?_ trivial
    simp only [uses]
    split
    · simp [huse]
    · split
      · simp [huse]
      · simp [huse]
  | @testSend fd hp hi =>
    simp only [Stands, hp] at h
    refine iff_of_true ?_ trivial
    simp [uses, hp, hi, mapUse_valid, h fd hi]
  | endSend hp hi =>
    refine iff_of_true ?_ trivial
    simp [uses, hp, hi, mapUse, Use.Valid]
  | time hp hi | send hp hi =>
    simp only [Stands, hp] at h
    obtain ⟨k, hk, hm⟩ := h
    refine iff_of_true ?_ trivial
    simp [uses, hk, mapUse_valid, hm]
  | @recv fd ret errno hp hi =>
    simp only [Stands, hp] at h
    obtain ⟨k, hk, hm⟩ := h
    obtain rfl := Option.some.inj (hi.symm.trans hk)
    have huse : ∀ op, (mapUse s.connected_fds (some fd) op).Valid := fun op =>
      mapUse_valid.mpr hm
    simp only [uses, harmless, hi, Option.bind_some, Option.elim_some]
    split
    · rename_i hneg
      have hne : ret ≠ 0 := by omega
      split
      · rename_i hb
        simp [huse, hne, hb]
      · rename_i hb
        simp [huse, mapUse_next_valid, hne, hneg, hb]
    · rename_i hneg
      split
      · rename_i h0
        have hdead : ¬ (mapUse (s.connected_fds.erase fd) (some fd) .increment).Valid := fun hv =>
          SortedMap.not_mem_erase (mapUse_valid.mp hv)
        simp [h0, hdead]
      · rename_i h0
        simp [huse, h0, hneg]

/-- **When every use of an iterator is valid**: exactly if no connection is closed by the server,
and no `recv` fails on the last of them. -/
theorem safe_iff {fds : List Fd} {us : List Use}
    (h : Run (watch step uses) free (init fds, []) as (s, us)) :
    (∀ u ∈ us, u.Valid) ↔ Run step harmless (init fds) as s :=
  h.emits_iff (show Stands (init fds) from rfl) (fun _ _ _ => stands_step)
    fun _ _ _ => uses_valid_iff

end Step

/-- What `socket` returned to a process with the first three numbers open; `CLIENT_NUM` is 5. -/
def sockets : List Fd := [3, 4, 5, 6, 7]

/-- Two of the sockets connect one after the other, and three are refused; `recv` fails on the first
when it is not the last. -/
def twoRun : List Act := [.test, .connect 0 0, .test, .connect (-1) EINPROGRESS, .test,
  .connect (-1) 111, .test, .connect (-1) 111, .test, .connect (-1) 111, .test,
  .test, .time 10, .send 1024, .recv (-1) EAGAIN, .test,
  .test, .connect 0 0, .test, .test, .time 10, .recv (-1) 104,
  .test, .time 10, .send 1024, .recv 1024 0, .test]

theorem safe_two : ∃ p, Run (watch step uses) free (init sockets, []) twoRun p ∧
    p.2.length = 51 ∧ ∀ u ∈ p.2, u.Valid := by
  obtain ⟨⟨s, us⟩, hr, hlen⟩ : ∃ p, Run (watch step uses) (fun p a => harmless p.1 a)
      (init sockets, []) twoRun p ∧ p.2.length = 51 := Run.exists_of_exec _ _ (by decide)
  have hr' := hr.mono (H := free) fun _ _ _ => trivial
  exact ⟨(s, us), hr', hlen, (safe_iff hr').mpr hr.unwatched⟩

/-- The first socket connects, the others are refused, and a message is sent. -/
def oneConnects : List Act := [.test, .connect 0 0, .test, .connect (-1) 111, .test,
  .connect (-1) 111, .test, .connect (-1) 111, .test, .connect (-1) 111, .test,
  .test, .time 10, .send 1024]

/-- **The server closes the only connection**, or `recv` fails on it. -/
theorem not_safe : (∃ p, Run (watch step uses) free (init sockets, [])
      (oneConnects ++ [.recv 0 0]) p ∧ ∃ u ∈ p.2, u.op = .increment ∧ ¬ u.Valid) ∧
    ∃ p, Run (watch step uses) free (init sockets, [])
      (oneConnects ++ [.recv (-1) 104]) p ∧ ∃ u ∈ p.2, u.op = .deref ∧ ¬ u.Valid :=
  ⟨Run.exists_of_exec _ _ (by decide), Run.exists_of_exec _ _ (by decide)⟩

end PracticeCode.NonblockingClient
