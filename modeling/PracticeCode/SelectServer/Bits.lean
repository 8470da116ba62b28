import PracticeCode.SelectServer.Passes

/-!
# The numbers that the `fd_set` of the select server is given

Nothing compares a descriptor with `FD_SETSIZE`.  `bits` lists what `FD_SET`, `FD_CLR` and
`FD_ISSET` are called with; `accept` returns the lowest number that is not in use.

`bits_lt_iff`: the numbers fit exactly in the runs in which every connection finds a free number
below `FD_SETSIZE`.  `crowd` is the run with as many clients as fit.
-/

namespace PracticeCode.SelectServer

open Lib Linux

/-! ## The numbers of the process -/

section Numbers

variable (used : Fd → Prop) (sfd : Fd) (s : State)

/-- `used` are the numbers of the process that the server does not deal with. -/
def InUse (fd : Fd) : Prop := used fd ∨ s.table.Open sfd fd

/-- The number that `accept` returns. -/
def LowestFree (cfd : Fd) : Prop :=
  sfd < cfd ∧ ¬ InUse used sfd s cfd ∧ ∀ m < cfd, InUse used sfd s m

def lowestFree : Act → Prop
  | .accept (some cfd) => LowestFree used sfd s cfd
  | _ => True

/-- When a connection comes in, some number below `FD_SETSIZE` is free. -/
def roomy : Act → Prop
  | .accept (some _) => ∃ m < FD_SETSIZE, ¬ InUse used sfd s m
  | _ => True

instance [DecidablePred used] (fd : Fd) : Decidable (InUse used sfd s fd) := by
  unfold InUse Table.Open
  infer_instance

instance [DecidablePred used] (a : Act) : Decidable (lowestFree used sfd s a) := by
  induction a using Act.casesOn with
  | accept res =>
    induction res using Option.casesOn <;> unfold lowestFree
    · infer_instance
    · unfold LowestFree
      infer_instance
  | _ => exact isTrue trivial

instance [DecidablePred used] (a : Act) : Decidable (roomy used sfd s a) := by
  induction a using Act.casesOn with
  | accept res =>
    induction res using Option.casesOn <;> unfold roomy
    · infer_instance
    · exact Nat.decidableExistsLT _
  | _ => exact isTrue trivial

end Numbers

variable {used : Fd → Prop} {sfd : Fd}

theorem LowestFree.lt_iff {s : State} {cfd : Fd} (h : LowestFree used sfd s cfd) :
    cfd < FD_SETSIZE ↔ ∃ m < FD_SETSIZE, ¬ InUse used sfd s m := by
  constructor
  · intro hlt
    exact ⟨cfd, hlt, h.2.1⟩
  · rintro ⟨m, hm, hfree⟩
    by_contra hle
    exact hfree (h.2.2 m (lt_of_lt_of_le hm (not_lt.mp hle)))

/-! ## What `FD_SET`, `FD_CLR` and `FD_ISSET` are given -/

/-- The numbers of a step: of `FD_ISSET` in the loop, of `AddFd`, and of `RemoveFd`. -/
def bits (s : State) : Act → List Fd
  | .dispatch => s.iter.toList
  | .accept res => res.toList
  | .recv (.data _) => []
  | .recv _ => s.iter.toList
  | _ => []

section Step

variable {s s' : State} {a : Act}

/-- A number is new only when `accept` returned it. -/
theorem mem_bits {fd : Fd} (h : Inv sfd s) (hfd : fd ∈ bits s a) :
    fd ∈ s.sets.fds ∨ a = .accept (some fd) := by
  have hiter : fd ∈ s.iter.toList → fd ∈ s.sets.fds := fun hm => h.iter fd (Option.mem_toList.mp hm)
  cases a with
  | dispatch => exact .inl (hiter hfd)
  | accept res =>
    obtain rfl := Option.mem_toList.mp hfd
    exact .inr rfl
  | recv res =>
    cases res with
    | data bytes => cases hfd
    | _ => exact .inl (hiter hfd)
  | _ => cases hfd

/-- What `fds` holds was in it before, or came from `accept`. -/
theorem fds_of_step {fd : Fd} (hs : step sfd s a = some s') (hfd : fd ∈ s'.sets.fds) :
    fd ∈ s.sets.fds ∨ a = .accept (some fd) := by
  cases outcome_of_step hs with
  | accept =>
    rcases mem_insertFd.mp hfd with rfl | hfd
    · exact .inr rfl
    · exact .inl hfd
  | recvStop => exact .inl (List.mem_of_mem_erase hfd)
  | _ => exact .inl hfd

/-- A number that is too great ends the run, and no other step does. -/
theorem undefined_of_step (hs : step sfd s a = some s') (hu : s'.point = .undefined) :
    ∃ cfd, a = .accept (some cfd) ∧ FD_SETSIZE ≤ cfd := by
  have hs₀ : s.point ≠ .undefined := fun h => by
    rw [step_of_undefined h] at hs
    cases hs
  cases outcome_of_step hs with
  | overflow hp hle => exact ⟨_, rfl, hle⟩
  | timeout => exact absurd hu hs₀
  | _ => cases hu

end Step

/-- Everything in `fds` was given to `FD_SET`, and a number that is too great ended the run. -/
structure Given (sfd : Fd) (p : State × List Fd) : Prop where
  inv : p.1.point ≠ .undefined → Inv sfd p.1
  fds : ∀ fd ∈ p.1.sets.fds, fd ∈ p.2
  undefined : p.1.point = .undefined → ∃ n ∈ p.2, FD_SETSIZE ≤ n

theorem given_init (sfd : Fd) : Given sfd (init sfd, [sfd]) where
  inv _ := init_inv sfd
  fds fd hfd := by simpa [init, AddFd, insertFd] using hfd
  undefined h := by
    refine ⟨sfd, List.mem_singleton.mpr rfl, ?_⟩
    by_contra hlt
    simp [init, not_le.mp hlt] at h

theorem given_step {p p' : State × List Fd} {a : Act} (h : Given sfd p)
    (hs : watch (step sfd) bits p a = some p') : Given sfd p' := by
  obtain ⟨hst, hbits⟩ := watch_eq_some.mp hs
  have hp : p.1.point ≠ .undefined := fun hu => by
    rw [step_of_undefined hu] at hst
    cases hst
  refine ⟨inv_step (h.inv hp) hst, fun fd hfd => ?_, fun hu => ?_⟩
  · rw [hbits]
    rcases fds_of_step hst hfd with hfd | rfl
    · exact List.mem_append_left _ (h.fds fd hfd)
    · exact List.mem_append_right _ (by simp [bits])
  · obtain ⟨cfd, rfl, hle⟩ := undefined_of_step hst hu
    rw [hbits]
    exact ⟨cfd, List.mem_append_right _ (by simp [bits]), hle⟩

/-- **A step gives numbers below `FD_SETSIZE` exactly if it finds room.** -/
theorem small_step_iff {p : State × List Fd} {a : Act} {s' : State} (h : Given sfd p)
    (hlt : ∀ n ∈ p.2, n < FD_SETSIZE) (hg : lowestFree used sfd p.1 a)
    (hs : step sfd p.1 a = some s') :
    (∀ n ∈ bits p.1 a, n < FD_SETSIZE) ↔ roomy used sfd p.1 a := by
  have hp : p.1.point ≠ .undefined := fun hu => by
    rw [step_of_undefined hu] at hs
    cases hs
  constructor
  · intro hnew
    cases a with
    | accept res =>
      cases res with
      | none => trivial
      | some cfd => exact hg.lt_iff.mp (hnew cfd (by simp [bits]))
    | _ => trivial
  · intro hroom n hn
    rcases mem_bits (h.inv hp) hn with hn | rfl
    · exact hlt n (h.fds n hn)
    · exact hg.lt_iff.mpr hroom

theorem given_of_run {as : List Act} {p : State × List Fd} {G : State × List Fd → Act → Prop}
    (h : Run (watch (step sfd) bits) G (init sfd, [sfd]) as p) : Given sfd p ∧ sfd ∈ p.2 := by
  refine h.invariant (I := fun p => Given sfd p ∧ sfd ∈ p.2)
    ⟨given_init sfd, List.mem_singleton.mpr rfl⟩ fun p a p' hi _ hs => ⟨given_step hi.1 hs, ?_⟩
  rw [(watch_eq_some.mp hs).2]
  exact List.mem_append_left _ hi.2

/-- **When the numbers stay below `FD_SETSIZE`.**  Exactly if the listening socket has such a number
and every connection that comes in finds one that is free. -/
theorem bits_lt_iff {as : List Act} {p : State × List Fd}
    (h : Run (watch (step sfd) bits) (fun p a => lowestFree used sfd p.1 a) (init sfd, [sfd])
      as p) :
    (∀ n ∈ p.2, n < FD_SETSIZE) ↔ sfd < FD_SETSIZE ∧
      Run (watch (step sfd) bits) (fun p a => lowestFree used sfd p.1 a ∧ roomy used sfd p.1 a)
        (init sfd, [sfd]) as p := by
  by_cases hlt : sfd < FD_SETSIZE
  · rw [and_iff_right hlt]
    exact (h.record_iff (P := (· < FD_SETSIZE)) (by simpa using hlt) fun bs q a s' hr hP hg hs =>
      small_step_iff (given_of_run hr).1 hP hg hs).symm
  · exact iff_of_false (fun hp => hlt (hp sfd (given_of_run h).2)) fun hp => hlt hp.1

/-- The numbers `0`, `1` and `2` are those of the standard streams. -/
abbrev standard : Fd → Prop := (· < 3)

set_option maxRecDepth 8000 in
theorem bits_lt_leave : ∃ p, Run (watch (step 3) bits)
    (fun p a => lowestFree standard 3 p.1 a) (init 3, [3]) leaveRun p ∧
    p.2 = [3, 3, 4, 4, 3, 5, 4, 5, 3, 4, 5, 5] ∧ ∀ n ∈ p.2, n < FD_SETSIZE := by
  obtain ⟨p, hr, hp⟩ : ∃ p, Run (watch (step 3) bits)
      (fun p a => lowestFree standard 3 p.1 a ∧ roomy standard 3 p.1 a) (init 3, [3]) leaveRun p ∧
      p.2 = [3, 3, 4, 4, 3, 5, 4, 5, 3, 4, 5, 5] := Run.exists_of_exec _ _ (by decide)
  have hr' := hr.mono (H := fun p a => lowestFree standard 3 p.1 a) fun _ _ hg => hg.1
  exact ⟨p, hr', hp, (bits_lt_iff hr').mpr ⟨by decide, hr⟩⟩

/-! ## As many clients as fit -/

variable (used sfd) in
/-- A pass in which nothing more is readable goes to its end. -/
theorem walk_out {t : State} (hp : t.point = .loop) (hs : t.sets.fds.Pairwise (· < ·))
    (hr : ∀ fd ∈ t.rest, t.readfds fd = false) :
    ∃ bs u, Run (step sfd) (lowestFree used sfd) t bs u ∧ u.point = .select ∧
      u.table = t.table := by
  generalize hl : t.rest = l at hr
  induction l generalizing t with
  | nil =>
    have hi : t.iter = none := by
      unfold State.rest at hl
      split at hl
      · assumption
      · cases hl
    have hst : step sfd t .dispatch = some { t with point := .select } := by simp [step, hp, hi]
    exact ⟨[.dispatch], _, Run.nil.snoc trivial hst, rfl, rfl⟩
  | cons fd l ih =>
    obtain ⟨hi, hl⟩ : t.iter = some fd ∧ l = t.sets.fds.filter (fd < ·) := by
      unfold State.rest at hl
      split at hl
      · cases hl
      · rename_i x hi
        obtain ⟨rfl, rfl⟩ := List.cons.inj hl
        exact ⟨hi, rfl⟩
    obtain ⟨hfd, hr⟩ := List.forall_mem_cons.mp hr
    have hst : step sfd t .dispatch = some (t.next fd) := by simp [step, hp, hi, hfd]
    obtain ⟨bs, u, hu, hsel, ht⟩ := ih (t := t.next fd) rfl hs ((rest_next hs).trans hl.symm) hr
    exact ⟨.dispatch :: bs, u, hu.cons trivial hst, hsel, ht⟩

/-- The server waits, and its socket has the smallest number. -/
structure Waiting (sfd : Fd) (s : State) : Prop where
  point : s.point = .select
  inv : Inv sfd s
  low : ∀ fd ∈ s.sets.fds, sfd ≤ fd

section Waiting

variable {s : State} {ready : List Fd} {cfd : Fd}

theorem Waiting.mem (h : Waiting sfd s) : sfd ∈ s.sets.fds :=
  (h.inv.mem sfd).mpr ⟨.inl rfl, by simp [h.point]⟩

theorem Waiting.head (h : Waiting sfd s) : s.sets.fds.head? = some sfd :=
  head_of_low h.inv.sets.sorted h.mem h.low

/-- `select` reported the listening socket, and it comes first. -/
theorem Waiting.dispatch (h : Waiting sfd s) (hr : sfd ∈ ready) :
    step sfd (s.begin ready) .dispatch = some { s.begin ready with point := .accept } := by
  simp [step, State.begin, h.head, hr]

/-- A client comes in. -/
theorem Waiting.to_accept (h : Waiting sfd s) :
    Run (step sfd) (lowestFree used sfd) s [.select [sfd], .dispatch]
      { s.begin [sfd] with point := .accept } := by
  have hs : step sfd s (.select [sfd]) = some (s.begin [sfd]) := by
    simp [step, h.point, (h.inv.sets.bits sfd).mpr h.mem, State.begin]
  exact (Run.nil.snoc trivial hs).snoc trivial (h.dispatch (List.mem_singleton.mpr rfl))

theorem LowestFree.files (h : LowestFree used sfd s cfd) :
    s.table.files cfd = none ∧ cfd ≠ sfd := by
  have hno := fun ho => h.2.1 (.inr ho)
  simpa [Table.Open, and_comm] using hno

variable (ready) in
/-- The number of a client is too great. -/
theorem Waiting.overflow (h : Waiting sfd s) (hf : LowestFree used sfd s cfd)
    (hle : FD_SETSIZE ≤ cfd) :
    step sfd { s.begin ready with point := .accept } (.accept (some cfd)) =
      some { (s.begin ready).call (.accept (some cfd)) with
        table := s.table.accept cfd, point := .undefined } := by
  simp [step, State.begin, State.call, h.head, hf.files, not_lt.mpr hle]

end Waiting

/-- The clients have the numbers from `4` on. -/
def Clients (k : ℕ) (s : State) : Prop := ∀ fd : ℕ, s.table.Open 3 fd ↔ 3 ≤ fd ∧ fd < 4 + k

theorem Clients.lowestFree {k : ℕ} {s : State} (h : Clients k s) :
    LowestFree standard 3 s (4 + k) := by
  refine ⟨show 3 < 4 + k by omega, ?_, fun m hm => ?_⟩
  · rintro (hu | ho)
    · have : 4 + k < 3 := hu
      omega
    · have := (h _).mp ho
      omega
  · by_cases h3 : m < 3
    · exact .inl h3
    · exact .inr ((h m).mpr ⟨not_lt.mp h3, hm⟩)

/-- **Any number of clients that fits can be there at once.** -/
theorem crowd (k : ℕ) (hk : 4 + k ≤ FD_SETSIZE) :
    ∃ as s, Run (step 3) (lowestFree standard 3) (init 3) as s ∧ Waiting 3 s ∧ Clients k s := by
  induction k with
  | zero =>
    refine ⟨[], init 3, .nil, ⟨rfl, init_inv 3, fun fd hfd => ?_⟩, fun fd => ?_⟩
    · simp [init, AddFd, insertFd] at hfd
      exact le_of_eq hfd.symm
    · simp only [Table.Open, init, Table.empty, Option.isSome_none, Bool.false_eq_true, or_false]
      show (fd : ℕ) = 3 ↔ 3 ≤ fd ∧ fd < 4 + 0
      omega
  | succ k ih =>
    have hlt : 4 + k < FD_SETSIZE := by omega
    obtain ⟨as, s, hr, hw, hc⟩ := ih (le_of_lt hlt)
    have hfree := hc.lowestFree
    have hsorted : (AddFd s.sets (4 + k)).fds.Pairwise (· < ·) :=
      sorted_insertFd hw.inv.sets.sorted
    let t : State := ({ (s.begin [3]).call (.accept (some (4 + k))) with
      table := s.table.accept (4 + k), sets := AddFd s.sets (4 + k) } : State).next 3
    have hst : step 3 { s.begin [3] with point := .accept } (.accept (some (4 + k))) = some t := by
      simp [step, State.begin, State.call, State.next, hw.head, hfree.files, hlt, t]
    obtain ⟨bs, u, hu, hsel, ht⟩ := walk_out standard 3 (t := t) rfl hsorted
      fun fd hfd => by
        rw [rest_next hsorted] at hfd
        have hlt : 3 < fd := by simpa using (List.mem_filter.mp hfd).2
        simp [t, State.next, State.begin, State.call, ne_of_gt hlt]
    have hg : lowestFree standard 3
        { s.begin [3] with point := .accept } (.accept (some (4 + k))) := hfree
    have hrun := ((hr.append hw.to_accept).snoc hg hst).append hu
    have hinv := inv_of_run (hrun.mono fun _ _ _ => trivial) (by simp [hsel])
    have hc' : Clients (k + 1) u := fun fd => by
      rw [ht]
      show (s.table.accept (4 + k)).Open 3 fd ↔ _
      rw [Table.open_accept, hc]
      show (fd : ℕ) = 4 + k ∨ _ ↔ 3 ≤ fd ∧ fd < 4 + (k + 1)
      omega
    refine ⟨_, u, hrun, ⟨hsel, hinv, fun fd hfd => ?_⟩, hc'⟩
    exact ((hc' fd).mp ((hinv.mem fd).mp hfd).1).1

/-- One client more than fits, at the call of `accept`. -/
theorem crowd_full : ∃ as s, Run (step 3) (lowestFree standard 3) (init 3) as s ∧ Waiting 3 s ∧
    LowestFree standard 3 s FD_SETSIZE := by
  obtain ⟨as, s, hr, hw, hc⟩ := crowd 1020 (by decide)
  exact ⟨as, s, hr, hw, hc.lowestFree⟩

/-- **A client too many**: with 1020 clients `accept` returns 1024, and `FD_SET` writes behind the
set. -/
theorem not_bits_lt : ∃ as p, Run (watch (step 3) bits) (fun p a => lowestFree standard 3 p.1 a)
    (init 3, [3]) as p ∧ ¬ ∀ n ∈ p.2, n < FD_SETSIZE := by
  obtain ⟨as, s, hr, hw, hfree⟩ := crowd_full
  obtain ⟨log, hlog⟩ := (hr.append hw.to_accept).watched bits [3]
  have hst := hw.overflow [3] hfree le_rfl
  have hg : lowestFree standard 3 { s.begin [3] with point := .accept }
      (.accept (some FD_SETSIZE)) := hfree
  have hs : watch (step 3) bits ({ s.begin [3] with point := .accept }, log)
      (.accept (some FD_SETSIZE)) = some ({ (s.begin [3]).call (.accept (some FD_SETSIZE)) with
        table := s.table.accept FD_SETSIZE, point := .undefined }, log ++ [FD_SETSIZE]) :=
    watch_eq_some.mpr ⟨hst, rfl⟩
  have hmem : FD_SETSIZE ∈ log ++ [FD_SETSIZE] :=
    List.mem_append_right _ (List.mem_singleton.mpr rfl)
  exact ⟨_, _, hlog.snoc hg hs, fun h => lt_irrefl _ (h FD_SETSIZE hmem)⟩

end PracticeCode.SelectServer
