import PracticeCode.Lib.Cursor
import PracticeCode.MultiplexClient.Bookkeeping

/-!
# `epoll/client.cpp`

The third of the clients: `PollClient(etMode)` registers its sockets with an epoll instance, before
it connects them, and walks twice over the events of `epoll_wait`.  The sockets are registered
level-triggered; `etMode` only says whether a readable socket is read once or until a `recv` has no
data.  Unlike the other two, this client also drops a socket whose `recv` fails.

`epollClient_sockets`: the interest list is the set of the open sockets whenever the client waits,
and no `EPOLL_CTL_DEL` fails.
-/

namespace PracticeCode.MultiplexClient.Epoll

open Lib Linux

/-- `EPOLL_MAX_EVENTS`. -/
abbrev maxEvents : ℕ := 10

/-- `data.fd` of an element of `evs`, and the two bits of its `events` that the client tests. -/
structure Event where
  fd : Fd
  epollin : Bool
  epollout : Bool
  deriving DecidableEq

/-- Where the client is, with the index into `evs`. -/
inductive Point where
  /-- `left` rounds of the first loop remain. -/
  | socket (left : ℕ)
  | ctlAdd (fd : Fd) (left : ℕ)
  | connect (fd : Fd) (left : ℕ)
  | wait
  /-- The first walk. -/
  | write (i : ℕ)
  | send (i : ℕ)
  /-- The second walk, and its inner loop. -/
  | read (i : ℕ)
  | ctlDel (i : ℕ)
  | close (i : ℕ)
  | exited
  deriving DecidableEq

/-- `interest` is the interest list, `evs` the part of the array that `epoll_wait` filled. -/
structure State where
  table : Table
  interest : List Fd
  evs : List Event
  point : Point
  log : List Call

inductive Act where
  | socket (res : Option Fd)
  | ctlAdd (ok : Bool)
  | connect
  | wait (evs : List Event)
  | waitFail
  /-- The loops go on without a call. -/
  | dispatch
  /-- `none` when the call fails, else the value of `SO_ERROR`. -/
  | getsockopt (res : Option ℕ)
  | send (res : Option ℕ)
  | recv (res : Recv)
  | ctlDel
  | close
  deriving DecidableEq

def init : State := ⟨.empty, [], [], .socket CLIENT_NUM, []⟩

section Client

variable (etMode : Bool) (inherited : List Fd) (s : State)

def State.call (c : Call) (p : Point) : State := { s with log := s.log ++ [c], point := p }

/-- The descriptor of `evs[i]`. -/
def State.fd (i : ℕ) : Option Fd := s.evs[i]?.map Event.fd

/-- A number that is not given out: the process was started with it, it is the epoll instance, or
it is a socket. -/
def State.taken (fd : Fd) : Prop := fd ∈ inherited ∨ (s.table.files fd).isSome

instance (fd : Fd) : Decidable (s.taken inherited fd) := by unfold State.taken; infer_instance

/-- `socket` gives the lowest number that is not taken. -/
def State.lowest (fd : Fd) : Prop :=
  ¬ s.taken inherited fd ∧ ∀ x < fd, s.taken inherited x

instance (fd : Fd) : Decidable (s.lowest inherited fd) := by unfold State.lowest; infer_instance

/-- What `epoll_wait` returns: registered descriptors, each of them once. -/
def State.CanWait (evs : List Event) : Prop :=
  evs.length ≤ maxEvents ∧ (evs.map Event.fd).Nodup ∧ ∀ e ∈ evs, e.fd ∈ s.interest

instance (evs : List Event) : Decidable (s.CanWait evs) := by unfold State.CanWait; infer_instance

/-- Where the inner loop of the second walk goes after a `recv`. -/
def afterRecv (i : ℕ) : Recv → Point
  | .data _ => if etMode then .read i else .read (i + 1)
  | .again => .read (i + 1)
  | .eof | .fail => .ctlDel i

/-- `PollClient`, for a process with the open descriptors `inherited`. -/
def PollClient : Act → Option State
  | .socket res => match s.point with
    | .socket (left + 1) => match res with
      | none => some (s.call (.socket none) (.socket left))
      | some fd =>
        if s.lowest inherited fd then
          some { (s.call (.socket (some fd)) (.ctlAdd fd left)) with table := s.table.accept fd }
        else none
    | _ => none
  | .ctlAdd ok => match s.point with
    | .ctlAdd fd left =>
      if ok then
        if (s.table.files fd).isSome ∧ fd ∉ s.interest then
          some { (s.call (.ctlAdd fd (s.table.files fd) true) (.connect fd left)) with
            interest := s.interest ++ [fd] }
        else none
      else some (s.call (.ctlAdd fd (s.table.files fd) false) .exited)
    | _ => none
  | .connect => match s.point with
    | .connect fd left => some (s.call (.connect fd (s.table.files fd)) (.socket left))
    | _ => none
  | .wait evs => match s.point with
    | .wait =>
      if s.CanWait evs then
        some { s with evs := evs, point := if evs = [] then .wait else .write 0 }
      else none
    | _ => none
  | .waitFail => match s.point with
    | .wait => some { s with point := .exited }
    | _ => none
  | .dispatch => match s.point with
    | .socket 0 => some { s with point := .wait }
    | .write i => match s.evs[i]? with
      | none => some { s with point := .read 0 }
      | some e => if e.epollout then none else some { s with point := .write (i + 1) }
    | .read i => match s.evs[i]? with
      | none => some { s with point := .wait }
      | some e => if e.epollin then none else some { s with point := .read (i + 1) }
    | _ => none
  | .getsockopt res => match s.point with
    | .write i => match s.evs[i]? with
      | some e =>
        if e.epollout then
          some (s.call (.getsockopt e.fd (s.table.files e.fd) res)
            (if res = some 0 then .send i else .write (i + 1)))
        else none
      | none => none
    | _ => none
  | .send res => match s.point with
    | .send i => (s.fd i).map fun fd =>
        s.call (.send fd (s.table.files fd) (hello fd) res) (.write (i + 1))
    | _ => none
  | .recv res => match s.point with
    | .read i => match s.evs[i]? with
      | some e =>
        if e.epollin ∧ s.table.CanRecv e.fd res then
          some (s.call (.recv e.fd (s.table.files e.fd) res) (afterRecv etMode i res))
        else none
      | none => none
    | _ => none
  | .ctlDel => match s.point with
    | .ctlDel i => (s.fd i).map fun fd =>
      if (s.table.files fd).isSome ∧ fd ∈ s.interest then
        { (s.call (.ctlDel fd (s.table.files fd) true) (.close i)) with
          interest := s.interest.erase fd }
      else s.call (.ctlDel fd (s.table.files fd) false) .exited
    | _ => none
  -- the number also leaves the interest list, when it is still there
  | .close => match s.point with
    | .close i => (s.fd i).map fun fd =>
        { (s.call (.close fd (s.table.files fd)) (.read (i + 1))) with
          table := s.table.close fd, interest := s.interest.erase fd }
    | _ => none

end Client

/-! ## The inversion of `PollClient` -/

section Outcome

variable (etMode : Bool) (inherited : List Fd) (s : State)

inductive Outcome : Act → State → Prop
  | socketFail {left} : s.point = .socket (left + 1) →
      Outcome (.socket none) (s.call (.socket none) (.socket left))
  | socket {left fd} : s.point = .socket (left + 1) → s.lowest inherited fd →
      Outcome (.socket (some fd))
        { (s.call (.socket (some fd)) (.ctlAdd fd left)) with table := s.table.accept fd }
  | ctlAdd {fd left} : s.point = .ctlAdd fd left → (s.table.files fd).isSome →
      fd ∉ s.interest →
      Outcome (.ctlAdd true)
        { (s.call (.ctlAdd fd (s.table.files fd) true) (.connect fd left)) with
          interest := s.interest ++ [fd] }
  | ctlAddFail {fd left} : s.point = .ctlAdd fd left →
      Outcome (.ctlAdd false) (s.call (.ctlAdd fd (s.table.files fd) false) .exited)
  | connect {fd left} : s.point = .connect fd left →
      Outcome .connect (s.call (.connect fd (s.table.files fd)) (.socket left))
  | opened : s.point = .socket 0 → Outcome .dispatch { s with point := .wait }
  | timeout : s.point = .wait → Outcome (.wait []) { s with evs := [], point := .wait }
  | wait {evs} : s.point = .wait → s.CanWait evs → evs ≠ [] →
      Outcome (.wait evs) { s with evs := evs, point := .write 0 }
  | waitFail : s.point = .wait → Outcome .waitFail { s with point := .exited }
  | writeEnd {i} : s.point = .write i → s.evs[i]? = none →
      Outcome .dispatch { s with point := .read 0 }
  | writeSkip {i e} : s.point = .write i → s.evs[i]? = some e → e.epollout = false →
      Outcome .dispatch { s with point := .write (i + 1) }
  | readEnd {i} : s.point = .read i → s.evs[i]? = none →
      Outcome .dispatch { s with point := .wait }
  | readSkip {i e} : s.point = .read i → s.evs[i]? = some e → e.epollin = false →
      Outcome .dispatch { s with point := .read (i + 1) }
  | getsockopt {i e res} : s.point = .write i → s.evs[i]? = some e → e.epollout = true →
      Outcome (.getsockopt res) (s.call (.getsockopt e.fd (s.table.files e.fd) res)
        (if res = some 0 then .send i else .write (i + 1)))
  | send {i e res} : s.point = .send i → s.evs[i]? = some e →
      Outcome (.send res)
        (s.call (.send e.fd (s.table.files e.fd) (hello e.fd) res) (.write (i + 1)))
  | recv {i e res} : s.point = .read i → s.evs[i]? = some e → e.epollin = true →
      s.table.CanRecv e.fd res →
      Outcome (.recv res)
        (s.call (.recv e.fd (s.table.files e.fd) res) (afterRecv etMode i res))
  | ctlDel {i e} : s.point = .ctlDel i → s.evs[i]? = some e →
      (s.table.files e.fd).isSome → e.fd ∈ s.interest →
      Outcome .ctlDel { (s.call (.ctlDel e.fd (s.table.files e.fd) true) (.close i)) with
        interest := s.interest.erase e.fd }
  | ctlDelFail {i e} : s.point = .ctlDel i → s.evs[i]? = some e →
      ¬ ((s.table.files e.fd).isSome ∧ e.fd ∈ s.interest) →
      Outcome .ctlDel (s.call (.ctlDel e.fd (s.table.files e.fd) false) .exited)
  | close {i e} : s.point = .close i → s.evs[i]? = some e →
      Outcome .close { (s.call (.close e.fd (s.table.files e.fd)) (.read (i + 1))) with
        table := s.table.close e.fd, interest := s.interest.erase e.fd }

variable {etMode inherited s} {s' : State} {a : Act}

theorem exists_of_fd {i : ℕ} {fd : Fd} (h : s.fd i = some fd) :
    ∃ e, s.evs[i]? = some e ∧ e.fd = fd :=
  Option.map_eq_some_iff.mp h

theorem outcome_of_dispatch (h : PollClient etMode inherited s .dispatch = some s') :
    Outcome etMode inherited s .dispatch s' := by
  simp only [PollClient] at h
  split at h
  · rename_i hp
    obtain rfl := Option.some.inj h
    exact .opened hp
  · rename_i i hp
    split at h
    · rename_i hi
      obtain rfl := Option.some.inj h
      exact .writeEnd hp hi
    · rename_i e hi
      simp only [Option.ite_none_left_eq_some, Option.some.injEq] at h
      obtain ⟨hw, rfl⟩ := h
      exact .writeSkip hp hi (by simpa using hw)
  · rename_i i hp
    split at h
    · rename_i hi
      obtain rfl := Option.some.inj h
      exact .readEnd hp hi
    · rename_i e hi
      simp only [Option.ite_none_left_eq_some, Option.some.injEq] at h
      obtain ⟨hr, rfl⟩ := h
      exact .readSkip hp hi (by simpa using hr)
  · cases h

theorem outcome_of_socket {res : Option Fd}
    (h : PollClient etMode inherited s (.socket res) = some s') :
    Outcome etMode inherited s (.socket res) s' := by
  simp only [PollClient] at h
  split at h
  · rename_i left hp
    cases res with
    | none =>
      obtain rfl := Option.some.inj h
      exact .socketFail hp
    | some fd =>
      simp only [Option.ite_none_right_eq_some, Option.some.injEq] at h
      obtain ⟨hl, rfl⟩ := h
      exact .socket hp hl
  · cases h

theorem outcome_of_ctl (h : PollClient etMode inherited s a = some s')
    (ha : (∃ ok, a = .ctlAdd ok) ∨ a = .ctlDel) : Outcome etMode inherited s a s' := by
  rcases ha with ⟨ok, rfl⟩ | rfl
  · simp only [PollClient] at h
    split at h
    · rename_i fd left hp
      cases ok with
      | true =>
        simp only [if_true, Option.ite_none_right_eq_some, Option.some.injEq] at h
        obtain ⟨⟨hopen, hnew⟩, rfl⟩ := h
        exact .ctlAdd hp hopen hnew
      | false =>
        obtain rfl := Option.some.inj h
        exact .ctlAddFail hp
    · cases h
  · simp only [PollClient] at h
    split at h
    · rename_i i hp
      obtain ⟨fd, hi, h⟩ := Option.map_eq_some_iff.mp h
      obtain ⟨e, he, rfl⟩ := exists_of_fd hi
      split at h
      · rename_i hok
        subst h
        exact .ctlDel hp he hok.1 hok.2
      · rename_i hno
        subst h
        exact .ctlDelFail hp he hno
    · cases h

theorem outcome_of_wait {evs : List Event}
    (h : PollClient etMode inherited s (.wait evs) = some s') :
    Outcome etMode inherited s (.wait evs) s' := by
  simp only [PollClient] at h
  split at h
  · rename_i hp
    simp only [Option.ite_none_right_eq_some, Option.some.injEq] at h
    obtain ⟨hw, rfl⟩ := h
    split
    · rename_i he
      subst he
      exact .timeout hp
    · rename_i hne
      exact .wait hp hw hne
  · cases h

theorem outcome_of_pollClient (h : PollClient etMode inherited s a = some s') :
    Outcome etMode inherited s a s' := by
  cases a with
  | socket res => exact outcome_of_socket h
  | dispatch => exact outcome_of_dispatch h
  | ctlAdd ok => exact outcome_of_ctl h (.inl ⟨ok, rfl⟩)
  | ctlDel => exact outcome_of_ctl h (.inr rfl)
  | wait evs => exact outcome_of_wait h
  | connect =>
    simp only [PollClient] at h
    split at h
    · rename_i fd left hp
      obtain rfl := Option.some.inj h
      exact .connect hp
    · cases h
  | waitFail =>
    simp only [PollClient] at h
    split at h
    · rename_i hp
      obtain rfl := Option.some.inj h
      exact .waitFail hp
    · cases h
  | getsockopt res =>
    simp only [PollClient] at h
    split at h
    · rename_i i hp
      split at h
      · rename_i e hi
        simp only [Option.ite_none_right_eq_some, Option.some.injEq] at h
        obtain ⟨hw, rfl⟩ := h
        exact .getsockopt hp hi hw
      · cases h
    · cases h
  | send res =>
    simp only [PollClient] at h
    split at h
    · rename_i i hp
      obtain ⟨fd, hi, rfl⟩ := Option.map_eq_some_iff.mp h
      obtain ⟨e, he, rfl⟩ := exists_of_fd hi
      exact .send hp he
    · cases h
  | recv res =>
    simp only [PollClient] at h
    split at h
    · rename_i i hp
      split at h
      · rename_i e hi
        simp only [Option.ite_none_right_eq_some, Option.some.injEq] at h
        obtain ⟨⟨hr, hcan⟩, rfl⟩ := h
        exact .recv hp hi hr hcan
      · cases h
    · cases h
  | close =>
    simp only [PollClient] at h
    split at h
    · rename_i i hp
      obtain ⟨fd, hi, rfl⟩ := Option.map_eq_some_iff.mp h
      obtain ⟨e, he, rfl⟩ := exists_of_fd hi
      exact .close hp he
    · cases h

end Outcome

/-! ## The sockets -/

/-- `EPOLL_CTL_DEL` failed, which ends the process. -/
def delFailed : Call → Bool
  | .ctlDel _ _ false => true
  | _ => false

/-- An open socket that is not registered. -/
def State.apart (s : State) : Option Fd :=
  match s.point with
  | .ctlAdd fd _ => some fd
  | .close i => s.fd i
  | _ => none

/-- The events that the client has still to handle. -/
def State.ahead (s : State) : List Event :=
  match s.point with
  | .write _ | .send _ => s.evs
  | .read i | .ctlDel i => s.evs.drop i
  | .close i => s.evs.drop (i + 1)
  | _ => []

structure Inv (s : State) : Prop where
  accounted : Accounted s.log s.table
  dels : ∀ x ∈ s.log, delFailed x = false
  nodup : s.interest.Nodup
  interest : s.point ≠ .exited →
    ∀ fd, fd ∈ s.interest ↔ (s.table.files fd).isSome ∧ s.apart ≠ some fd
  apart : ∀ fd, s.apart = some fd → (s.table.files fd).isSome
  connect : ∀ fd left, s.point = .connect fd left → (s.table.files fd).isSome
  distinct : (s.evs.map Event.fd).Nodup
  ahead : ∀ e ∈ s.ahead, e.fd ∈ s.interest

section Sockets

variable {etMode : Bool} {inherited : List Fd} {s s' : State} {a : Act} {p : Point} {x : Call}

theorem inv_init : Inv init where
  accounted := accounted_nil
  dels x hx := by cases hx
  nodup := .nil
  interest _ fd := by simp [init, Table.empty]
  apart fd h := by cases h
  connect fd left h := by cases h
  distinct := .nil
  ahead e he := by cases he

/-- A step that leaves the table and the two lists alone. -/
theorem Inv.goto (h : Inv s) (ha : s.apart = none) (hp : s.point ≠ .exited)
    (ha' : ({ s with point := p } : State).apart = none)
    (hahead : ({ s with point := p } : State).ahead ⊆ s.ahead)
    (hc : ∀ fd left, p ≠ .connect fd left) : Inv { s with point := p } where
  accounted := h.accounted
  dels := h.dels
  nodup := h.nodup
  interest _ fd := by
    rw [h.interest hp, ha, ha']
  apart fd hfd := by
    rw [ha'] at hfd
    cases hfd
  connect fd left e := absurd e (hc fd left)
  distinct := h.distinct
  ahead e he := h.ahead e (hahead he)

/-- A call on an open socket that closes nothing. -/
theorem Inv.record (h : Inv s) (fd : Fd) (hf : (s.table.files fd).isSome)
    (ht : x.target = some (s.table.files fd)) (hx : x.closes = none) (hd : delFailed x = false) :
    Inv { s with log := s.log ++ [x] } where
  accounted := h.accounted.call hf ht hx
  dels y hy := by
    rcases List.mem_append.mp hy with hy | hy
    · exact h.dels y hy
    · rw [List.mem_singleton.mp hy]
      exact hd
  nodup := h.nodup
  interest := h.interest
  apart := h.apart
  connect := h.connect
  distinct := h.distinct
  ahead := h.ahead

theorem Inv.isSome (h : Inv s) {e : Event} (he : e ∈ s.ahead) : (s.table.files e.fd).isSome := by
  have hp : s.point ≠ .exited := by
    intro hp
    rw [State.ahead, hp] at he
    cases he
  exact ((h.interest hp e.fd).mp (h.ahead e he)).1

/-- A call on the socket of an event that is ahead. -/
theorem Inv.call (h : Inv s) {e : Event} (he : e ∈ s.ahead) (ha : s.apart = none)
    (ht : x.target = some (s.table.files e.fd)) (hx : x.closes = none) (hd : delFailed x = false)
    (ha' : ({ s with point := p } : State).apart = none)
    (hahead : ({ s with point := p } : State).ahead ⊆ s.ahead)
    (hc : ∀ fd left, p ≠ .connect fd left) : Inv (s.call x p) := by
  have hp : s.point ≠ .exited := by
    intro hp
    rw [State.ahead, hp] at he
    cases he
  exact (h.goto ha hp ha' hahead hc).record e.fd (h.isSome he) ht hx hd

theorem Inv.socket (h : Inv s) {fd : Fd} {left : ℕ} (hp : s.point = .socket (left + 1))
    (hl : s.lowest inherited fd) :
    Inv { (s.call (.socket (some fd)) (.ctlAdd fd left)) with table := s.table.accept fd } where
  accounted := h.accounted.socket
  dels y hy := by
    rcases List.mem_append.mp hy with hy | hy
    · exact h.dels y hy
    · rw [List.mem_singleton.mp hy]
      rfl
  nodup := h.nodup
  interest _ x := by
    have hm := h.interest (by simp [hp]) x
    rw [State.apart, hp] at hm
    have hnew : (s.table.files fd).isSome = false := by
      simpa using fun hs => hl.1 (.inr hs)
    simp only [State.call, State.apart, isSome_accept, hm]
    constructor
    · rintro ⟨hx, -⟩
      refine ⟨.inr hx, fun e => ?_⟩
      rw [← Option.some.inj e, hnew] at hx
      cases hx
    · rintro ⟨rfl | hx, hne⟩
      · exact absurd rfl hne
      · exact ⟨hx, nofun⟩
  apart x hx := by
    obtain rfl : fd = x := Option.some.inj hx
    exact isSome_accept.mpr (.inl rfl)
  connect x l e := by cases e
  distinct := h.distinct
  ahead e he := by cases he

theorem Inv.ctlAdd (h : Inv s) {fd : Fd} {left : ℕ} (hp : s.point = .ctlAdd fd left)
    (hopen : (s.table.files fd).isSome) (hnew : fd ∉ s.interest) :
    Inv { (s.call (.ctlAdd fd (s.table.files fd) true) (.connect fd left)) with
      interest := s.interest ++ [fd] } where
  accounted := h.accounted.call hopen rfl rfl
  dels y hy := by
    rcases List.mem_append.mp hy with hy | hy
    · exact h.dels y hy
    · rw [List.mem_singleton.mp hy]
      rfl
  nodup := by
    rw [List.nodup_append]
    refine ⟨h.nodup, List.nodup_singleton fd, fun x hx y hy => ?_⟩
    rw [List.mem_singleton.mp hy]
    rintro rfl
    exact hnew hx
  interest _ x := by
    have hm := h.interest (by simp [hp]) x
    rw [State.apart, hp] at hm
    simp only [State.call, State.apart, List.mem_append, List.mem_singleton, hm]
    constructor
    · rintro (⟨hx, -⟩ | rfl)
      · exact ⟨hx, nofun⟩
      · exact ⟨hopen, nofun⟩
    · rintro ⟨hx, -⟩
      by_cases e : fd = x
      · exact .inr e.symm
      · exact .inl ⟨hx, fun he => e (Option.some.inj he)⟩
  apart x hx := by cases hx
  connect x l e := by
    cases e
    exact hopen
  distinct := h.distinct
  ahead e he := by cases he

/-- The events behind `i` are of other sockets. -/
theorem Inv.ne_of_behind (h : Inv s) {i : ℕ} {e e' : Event} (hi : s.evs[i]? = some e)
    (he : e' ∈ s.evs.drop (i + 1)) : e'.fd ≠ e.fd := by
  have hd := h.distinct
  rw [← List.take_append_drop i s.evs, drop_of_getElem? hi, List.map_append, List.map_cons] at hd
  have hno := (List.nodup_cons.mp (List.nodup_append.mp hd).2.1).1
  intro heq
  exact hno (heq ▸ List.mem_map_of_mem he)

theorem Inv.ctlDel (h : Inv s) {i : ℕ} {e : Event} (hp : s.point = .ctlDel i)
    (hi : s.evs[i]? = some e) (hopen : (s.table.files e.fd).isSome) :
    Inv { (s.call (.ctlDel e.fd (s.table.files e.fd) true) (.close i)) with
      interest := s.interest.erase e.fd } where
  accounted := h.accounted.call hopen rfl rfl
  dels y hy := by
    rcases List.mem_append.mp hy with hy | hy
    · exact h.dels y hy
    · rw [List.mem_singleton.mp hy]
      rfl
  nodup := h.nodup.erase e.fd
  interest _ x := by
    have hm := h.interest (by simp [hp]) x
    rw [State.apart, hp] at hm
    simp only [State.call, State.apart, State.fd, hi, Option.map_some, h.nodup.mem_erase_iff, hm]
    constructor
    · rintro ⟨hne, hx, -⟩
      exact ⟨hx, fun he => hne (Option.some.inj he).symm⟩
    · rintro ⟨hx, hne⟩
      exact ⟨fun he => hne (congrArg some he.symm), hx, nofun⟩
  apart x hx := by
    simp only [State.call, State.apart, State.fd, hi, Option.map_some, Option.some.injEq] at hx
    subst hx
    exact hopen
  connect x l e := by cases e
  distinct := h.distinct
  ahead e' he := by
    have hmem : e' ∈ s.ahead := by
      rw [State.ahead, hp]
      change e' ∈ s.evs.drop i
      rw [drop_of_getElem? hi]
      exact List.mem_cons_of_mem _ he
    exact h.nodup.mem_erase_iff.mpr ⟨h.ne_of_behind hi he, h.ahead e' hmem⟩

theorem Inv.close (h : Inv s) {i : ℕ} {e : Event} (hp : s.point = .close i)
    (hi : s.evs[i]? = some e) :
    Inv { (s.call (.close e.fd (s.table.files e.fd)) (.read (i + 1))) with
      table := s.table.close e.fd, interest := s.interest.erase e.fd } := by
  have hapart : s.apart = some e.fd := by simp [State.apart, hp, State.fd, hi]
  have hopen := h.apart e.fd hapart
  have hm := h.interest (by simp [hp])
  rw [hapart] at hm
  have hnot : e.fd ∉ s.interest := fun hx => ((hm e.fd).mp hx).2 rfl
  have herase : s.interest.erase e.fd = s.interest := List.erase_of_not_mem hnot
  constructor
  · exact h.accounted.close hopen
  · intro y hy
    rcases List.mem_append.mp hy with hy | hy
    · exact h.dels y hy
    · rw [List.mem_singleton.mp hy]
      rfl
  · rw [herase]
    exact h.nodup
  · intro _ x
    simp only [herase, State.call, State.apart, isSome_close, hm]
    constructor
    · rintro ⟨hx, hne⟩
      exact ⟨⟨hx, fun he => hne (congrArg some he.symm)⟩, nofun⟩
    · rintro ⟨⟨hx, hne⟩, -⟩
      exact ⟨hx, fun he => hne (Option.some.inj he).symm⟩
  · intro x hx
    cases hx
  · intro x l e
    cases e
  · exact h.distinct
  · intro e' he
    rw [herase]
    refine h.ahead e' ?_
    rw [State.ahead, hp]
    exact he

theorem Inv.exit (h : Inv s) : Inv { s with point := .exited } where
  accounted := h.accounted
  dels := h.dels
  nodup := h.nodup
  interest hp := absurd rfl hp
  apart fd hfd := by cases hfd
  connect fd left e := by cases e
  distinct := h.distinct
  ahead e he := by cases he

theorem Inv.wait (h : Inv s) {evs : List Event} (hp : s.point = .wait) (hw : s.CanWait evs)
    (hq : p = .wait ∨ p = .write 0) : Inv { s with evs := evs, point := p } where
  accounted := h.accounted
  dels := h.dels
  nodup := h.nodup
  interest _ fd := by
    have hm := h.interest (by simp [hp]) fd
    rw [State.apart, hp] at hm
    rcases hq with rfl | rfl <;> exact hm
  apart fd hfd := by rcases hq with rfl | rfl <;> cases hfd
  connect fd left e := by rcases hq with rfl | rfl <;> cases e
  distinct := hw.2.1
  ahead e he := by
    rcases hq with rfl | rfl
    · cases he
    · exact hw.2.2 e he

/-- The event that a walk stands at. -/
theorem mem_ahead {i : ℕ} {e : Event} (hp : s.point = .write i ∨ s.point = .send i ∨
    s.point = .read i ∨ s.point = .ctlDel i) (hi : s.evs[i]? = some e) : e ∈ s.ahead := by
  have hmem : e ∈ s.evs := List.mem_of_getElem? hi
  have hdrop : e ∈ s.evs.drop i := by
    rw [drop_of_getElem? hi]
    exact List.mem_cons_self
  rcases hp with hp | hp | hp | hp <;> rw [State.ahead, hp]
  · exact hmem
  · exact hmem
  · exact hdrop
  · exact hdrop

theorem drop_succ_subset (l : List Event) (i : ℕ) : l.drop (i + 1) ⊆ l.drop i := by
  rw [← List.drop_drop]
  exact List.drop_subset 1 _

theorem afterRecv_cases (etMode : Bool) (i : ℕ) (res : Recv) : afterRecv etMode i res = .read i ∨
    afterRecv etMode i res = .read (i + 1) ∨ afterRecv etMode i res = .ctlDel i := by
  cases res with
  | data chunk => cases etMode <;> simp [afterRecv]
  | eof | again | fail => simp [afterRecv]

/-- **The step lemma.** -/
theorem inv_step (h : Inv s) (hs : PollClient etMode inherited s a = some s') : Inv s' := by
  cases outcome_of_pollClient hs with
  | @socketFail left hp =>
    have hg : Inv { s with point := .socket left } :=
      h.goto (by simp [State.apart, hp]) (by simp [hp]) rfl (by simp [State.ahead]) nofun
    refine ⟨hg.accounted.socketFail, fun y hy => ?_, hg.nodup, hg.interest, hg.apart, hg.connect,
      hg.distinct, hg.ahead⟩
    rcases List.mem_append.mp hy with hy | hy
    · exact h.dels y hy
    · rw [List.mem_singleton.mp hy]
      rfl
  | socket hp hl => exact h.socket hp hl
  | ctlAdd hp hopen hnew => exact h.ctlAdd hp hopen hnew
  | @ctlAddFail fd left hp =>
    exact h.exit.record fd (h.apart fd (by rw [State.apart, hp])) rfl rfl rfl
  | @connect fd left hp =>
    have hg : Inv { s with point := .socket left } :=
      h.goto (by simp [State.apart, hp]) (by simp [hp]) rfl (by simp [State.ahead]) nofun
    exact hg.record fd (h.connect fd left hp) rfl rfl rfl
  | opened hp =>
    exact h.goto (by simp [State.apart, hp]) (by simp [hp]) rfl (by simp [State.ahead]) nofun
  | timeout hp => exact h.wait hp ⟨Nat.zero_le _, .nil, by simp⟩ (.inl rfl)
  | wait hp hw hne => exact h.wait hp hw (.inr rfl)
  | waitFail hp => exact h.exit
  | writeEnd hp hi | writeSkip hp hi _ =>
    exact h.goto (by simp [State.apart, hp]) (by simp [hp]) rfl (by simp [State.ahead, hp]) nofun
  | readEnd hp hi =>
    exact h.goto (by simp [State.apart, hp]) (by simp [hp]) rfl (by simp [State.ahead]) nofun
  | @readSkip i e hp hi hr =>
    refine h.goto (by simp [State.apart, hp]) (by simp [hp]) rfl ?_ nofun
    simpa only [State.ahead, hp] using drop_succ_subset s.evs i
  | @getsockopt i e res hp hi hw =>
    refine h.call (mem_ahead (.inl hp) hi) (by simp [State.apart, hp]) rfl rfl rfl ?_ ?_ ?_
    · split <;> rfl
    · split <;> simp [State.ahead, hp]
    · split <;> simp
  | send hp hi =>
    refine h.call (mem_ahead (.inr (.inl hp)) hi) (by simp [State.apart, hp]) rfl rfl rfl rfl ?_
      nofun
    simp [State.ahead, hp]
  | @recv i e res hp hi hr hcan =>
    have hahead : s.ahead = s.evs.drop i := by rw [State.ahead, hp]
    have hcall : ∀ {p}, ({ s with point := p } : State).apart = none →
        ({ s with point := p } : State).ahead ⊆ s.ahead → (∀ fd left, p ≠ .connect fd left) →
        Inv (s.call (.recv e.fd (s.table.files e.fd) res) p) := fun ha' hsub hc =>
      h.call (mem_ahead (.inr (.inr (.inl hp))) hi) (by simp [State.apart, hp]) rfl rfl rfl ha'
        hsub hc
    rcases afterRecv_cases etMode i res with hq | hq | hq <;> rw [hq]
    · exact hcall rfl (by rw [hahead]; exact fun _ hm => hm) nofun
    · exact hcall rfl (by rw [hahead]; exact drop_succ_subset s.evs i) nofun
    · exact hcall rfl (by rw [hahead]; exact fun _ hm => hm) nofun
  | ctlDel hp hi hopen hin => exact h.ctlDel hp hi hopen
  | ctlDelFail hp hi hno =>
    have hmem := mem_ahead (.inr (.inr (.inr hp))) hi
    exact absurd ⟨h.isSome hmem, h.ahead _ hmem⟩ hno
  | close hp hi => exact h.close hp hi

theorem inv_of_run {as : List Act} (h : Run (PollClient etMode inherited) free init as s) : Inv s :=
  h.invariant (I := Inv) inv_init fun _ _ _ hI _ hs => inv_step hI hs

/-- Two sockets; the second one is drained and ends, the `recv` of the first fails. -/
def twoSockets : List Act :=
  [.socket (some 4), .ctlAdd true, .connect, .socket none, .socket (some 5), .ctlAdd true, .connect,
    .socket none, .socket none, .dispatch, .wait [⟨5, true, true⟩, ⟨4, true, false⟩],
    .getsockopt (some 0), .send (some 1024), .dispatch, .dispatch, .recv (.data [104]),
    .recv (.data [105]), .recv .eof, .ctlDel, .close, .recv .fail, .ctlDel, .close, .dispatch]

end Sockets

end PracticeCode.MultiplexClient.Epoll
