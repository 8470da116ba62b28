import PracticeCode.Lib.Cursor
import PracticeCode.PollServer.Defs

/-!
# The iterator of the poll server

`Defs` has `iter` as a position, and so does not see that `push_back` may move the vector: then
`iter`, which was taken from the buffer before, is no longer valid, and the `iter++` that follows
is undefined.  Here a state also has the memory of `fds` and the buffer that `iter` was taken from;
the steps are those of `Defs`, as long as the iterator is valid (`server_of_run`).
-/

namespace PracticeCode.PollServer.Iterators

open Lib Linux

structure State where
  server : PollServer.State
  memory : Memory
  /-- The buffer `iter` was taken from. -/
  taken : ℕ

/-- `fds` has got its first element, the listening socket. -/
def init (g : Growth) (sfd : Fd) : State where
  server := PollServer.init sfd
  memory := (⟨0, 0⟩ : Memory).pushBack g 0
  taken := 0

/-- `fds.size()`. -/
def State.size (s : State) : ℕ := s.server.fds.length

/-- `iter` is from the buffer that the elements are in. -/
def State.Live (s : State) : Prop := s.taken = s.memory.buffer

instance (s : State) : Decidable s.Live := by
  unfold State.Live
  infer_instance

/-- What an action does to the memory and to the iterator. -/
def State.move (g : Growth) (s : State) (a : Act) (t : PollServer.State) : State :=
  match a with
  -- `iter = fds.begin()`
  | .poll _ => { s with server := t, taken := s.memory.buffer }
  -- `fds.push_back({cfd, POLLIN})`
  | .accept (some _) => { s with server := t, memory := s.memory.pushBack g s.size }
  -- `iter = fds.erase(iter)`
  | .recv .eof | .recv .again | .recv .fail =>
    { s with server := t, taken := s.memory.buffer }
  | _ => { s with server := t }

/-- There is no step from where an iterator that is not valid was used. -/
def step (g : Growth) (sfd : Fd) (s : State) (a : Act) : Option State :=
  if s.server.point = .loop ∧ ¬ s.Live then none
  else (PollServer.step sfd s.server a).map (s.move g a)

/-- A use of `iter` in the state. -/
def State.use (s : State) (op : Op) : Use := ⟨op, decide s.Live, decide (s.server.iter < s.size)⟩

/-- The uses of `iter` in a step, in their order. -/
def uses (g : Growth) (s : State) : Act → List Use
  | .dispatch => match s.server.fds[s.server.iter]? with
    | none => [s.use .compare]
    | some p =>
      if p.revents then [s.use .compare, s.use .deref, s.use .deref, s.use .deref]
      else [s.use .compare, s.use .deref, s.use .increment]
  | .accept none => [s.use .increment]
  | .accept (some _) =>
    -- `iter++` comes after `push_back`
    [⟨.increment, decide (s.taken = (s.memory.pushBack g s.size).buffer),
      decide (s.server.iter < s.size + 1)⟩]
  | .recv (.data _) => [s.use .deref]
  | .recv _ => [s.use .deref, s.use .deref, s.use .deref, s.use .erase]
  | .send none => [s.use .deref, s.use .deref, s.use .increment]
  | .send (some _) => [s.use .deref, s.use .increment]
  | _ => []

/-- There is room for the client that is accepted. -/
def room (s : State) : Act → Prop
  | .accept (some _) => s.size < s.memory.capacity
  | _ => True

instance (s : State) (a : Act) : Decidable (room s a) := by
  cases a using Act.casesOn with
  | accept res => cases res <;> unfold room <;> infer_instance
  | _ => unfold room; infer_instance

/-! ## The layer below -/

section Step

variable {g : Growth} {sfd : Fd} {s s' : State} {a : Act} {as : List Act}

@[simp]
theorem move_server (t : PollServer.State) : (s.move g a t).server = t := by
  unfold State.move
  split <;> rfl

theorem move_of_step (h : step g sfd s a = some s') :
    (s.server.point = .loop → s.Live) ∧
      ∃ t, PollServer.step sfd s.server a = some t ∧ s' = s.move g a t := by
  unfold step at h
  rw [Option.ite_none_left_eq_some, Option.map_eq_some_iff, not_and_not_right] at h
  obtain ⟨hlive, t, ht, rfl⟩ := h
  exact ⟨hlive, t, ht, rfl⟩

/-- **The positions of a run.** -/
theorem server_of_run {G : State → Act → Prop} (h : Run (step g sfd) G (init g sfd) as s) :
    Run (PollServer.step sfd) free (PollServer.init sfd) as s.server := by
  have hr : Run (PollServer.step sfd) free (PollServer.init sfd) (as.filterMap some) s.server :=
    h.refine (I := fun _ => True) State.server some trivial (fun _ _ _ _ _ _ => trivial)
      fun _ _ _ _ _ hs => by
        obtain ⟨-, t, ht, rfl⟩ := move_of_step hs
        rwa [move_server]
  rwa [List.filterMap_some] at hr

/-! ## Where the iterator stands -/

def Stands (s : State) : Prop :=
  match s.server.point with
  | .accept | .recv _ | .send _ _ => s.Live ∧ s.server.iter < s.size
  | .close _ => s.Live ∧ s.server.iter ≤ s.size
  | .loop => s.server.iter ≤ s.size
  | .poll | .exited => True

theorem stands_step (h : Stands s) (hs : step g sfd s a = some s') : Stands s' := by
  obtain ⟨hlive, t, ht, rfl⟩ := move_of_step hs
  cases outcome_of_step ht with
  | poll hp => exact Nat.zero_le _
  | timeout hp => exact h
  | fail hp | passEnd hp hi => trivial
  | skip hp hi hr =>
    have hlt := (List.getElem?_eq_some_iff.mp hi).1
    exact hlt
  | listening hp hi hr he | client hp hi hr he =>
    have hlt := (List.getElem?_eq_some_iff.mp hi).1
    exact ⟨hlive hp, hlt⟩
  | acceptFail hp =>
    simp only [Stands, hp] at h
    exact h.2
  | accept hp hfree hne =>
    simp only [Stands, hp] at h
    have hlt : s.server.iter < s.server.fds.length := h.2
    show s.server.iter + 1 ≤ (s.server.fds ++ [_]).length
    rw [List.length_append]
    exact Nat.add_le_add_right (Nat.le_of_lt hlt) 1
  | recvData hp hcan =>
    simp only [Stands, hp] at h
    exact h
  | @recvStop fd res hp hres =>
    simp only [Stands, hp] at h
    have hlt : s.server.iter < s.server.fds.length := h.2
    have hle : s.server.iter ≤ (s.server.fds.eraseIdx s.server.iter).length := by
      rw [List.length_eraseIdx_of_lt hlt]
      omega
    cases res with
    | data bytes => exact absurd rfl (hres bytes)
    | eof | again | fail => exact ⟨rfl, hle⟩
  | send hp =>
    simp only [Stands, hp] at h
    exact h.2
  | close hp =>
    simp only [Stands, hp] at h
    exact h.2

/-! ## The uses -/

theorem use_valid {op : Op} : (s.use op).Valid ↔
    s.Live ∧ (op = .compare ∨ s.server.iter < s.size) := by
  simp [Use.Valid, State.use]

/-- **A step uses a valid iterator** exactly if there is room for what it puts into the vector. -/
theorem uses_valid_iff (h : Stands s) (hs : step g sfd s a = some s') :
    (∀ u ∈ uses g s a, u.Valid) ↔ room s a := by
  obtain ⟨hlive, t, ht, rfl⟩ := move_of_step hs
  -- everything but `push_back` leaves the buffer where it is
  have hall : ∀ ops : List Op, s.Live → s.server.iter < s.size →
      ∀ u ∈ ops.map s.use, u.Valid := by
    intro ops hl hi u hu
    obtain ⟨op, -, rfl⟩ := List.mem_map.mp hu
    exact use_valid.mpr ⟨hl, .inr hi⟩
  cases outcome_of_step ht with
  | poll hp | timeout hp | fail hp | close hp =>
    exact iff_of_true (fun u hu => by cases hu) trivial
  | passEnd hp hi =>
    refine iff_of_true (fun u hu => ?_) trivial
    simp only [uses, hi, List.mem_singleton] at hu
    exact hu ▸ use_valid.mpr ⟨hlive hp, .inl rfl⟩
  | skip hp hi hr =>
    have hlt := (List.getElem?_eq_some_iff.mp hi).1
    refine iff_of_true ?_ trivial
    simpa [uses, hi, hr] using hall [.compare, .deref, .increment] (hlive hp) hlt
  | listening hp hi hr he | client hp hi hr he =>
    have hlt := (List.getElem?_eq_some_iff.mp hi).1
    refine iff_of_true ?_ trivial
    simpa [uses, hi, hr] using hall [.compare, .deref, .deref, .deref] (hlive hp) hlt
  | acceptFail hp =>
    simp only [Stands, hp] at h
    exact iff_of_true (hall [.increment] h.1 h.2) trivial
  | accept hp hfree hne =>
    simp only [Stands, hp] at h
    have hl : s.taken = s.memory.buffer := h.1
    have hlt : s.server.iter < s.size + 1 := Nat.lt_succ_of_lt h.2
    simp only [uses, List.forall_mem_singleton, Use.Valid, room, hl, hlt, decide_true, or_true,
      and_true, decide_eq_true_eq]
    exact Memory.buffer_pushBack_eq_iff
  | recvData hp hcan =>
    simp only [Stands, hp] at h
    exact iff_of_true (hall [.deref] h.1 h.2) trivial
  | @recvStop fd res hp hres =>
    simp only [Stands, hp] at h
    cases res with
    | data bytes => exact absurd rfl (hres bytes)
    | eof | again | fail =>
      exact iff_of_true (hall [.deref, .deref, .deref, .erase] h.1 h.2) trivial
  | @send fd buf res hp =>
    simp only [Stands, hp] at h
    cases res with
    | none => exact iff_of_true (hall [.deref, .deref, .increment] h.1 h.2) trivial
    | some n => exact iff_of_true (hall [.deref, .increment] h.1 h.2) trivial

/-! ## Runs -/

/-- **When every use of the iterator is valid**: exactly if `fds` has room for every client that
comes in. -/
theorem valid_iff {us : List Use}
    (h : Run (watch (step g sfd) (uses g)) free (init g sfd, []) as (s, us)) :
    (∀ u ∈ us, u.Valid) ↔ Run (step g sfd) room (init g sfd) as s :=
  h.emits_iff (show Stands (init g sfd) from trivial) (fun _ _ _ => stands_step)
    fun _ _ _ => uses_valid_iff

end Step

/-- A vector that is given room for one element more. -/
def spare : Growth := ⟨(· + 2), fun n => by omega⟩

/-- A client talks and leaves, and the next one comes. -/
def guestRun : List Act := [.poll [3], .dispatch, .accept (some 4), .dispatch, .dispatch,
  .poll [4], .dispatch, .dispatch, .recv (.data [104]), .send (some 1024), .dispatch,
  .poll [4], .dispatch, .dispatch, .recv .eof, .close, .dispatch,
  .poll [3], .dispatch, .accept (some 4), .dispatch, .dispatch]

theorem valid_guest : ∃ p,
    Run (watch (step spare 3) (uses spare)) free (init spare 3, []) guestRun p ∧
      p.2.length = 41 ∧ ∀ u ∈ p.2, u.Valid := by
  obtain ⟨⟨s, us⟩, hr, hlen⟩ : ∃ p, Run (watch (step spare 3) (uses spare))
      (fun p a => room p.1 a) (init spare 3, []) guestRun p ∧ p.2.length = 41 :=
    Run.exists_of_exec _ _ (by decide)
  have hr' := hr.mono (H := free) fun _ _ _ => trivial
  exact ⟨(s, us), hr', hlen, (valid_iff hr').mpr hr.unwatched⟩

/-- A vector whose capacities are 1, 2, 4, ... -/
def doubling : Growth := ⟨fun n => n + max n 1, fun n => by omega⟩

/-- **The first client moves the vector**, and `iter` stays behind. -/
theorem not_valid_first : ∃ p,
    Run (watch (step doubling 3) (uses doubling)) free (init doubling 3, [])
      [.poll [3], .dispatch, .accept (some 4)] p ∧
      p.1.size = 2 ∧ ∃ u ∈ p.2, u.op = .increment ∧ ¬ u.Valid :=
  Run.exists_of_exec _ _ (by decide)

end PracticeCode.PollServer.Iterators
