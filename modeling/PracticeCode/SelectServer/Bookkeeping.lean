import PracticeCode.SelectServer.Defs
import Mathlib.Order.Bounds.Basic

/-!
# The three records of the select server

`origin_set`, `fds` and `max_fd` are kept by `AddFd` and `RemoveFd` alone (`Sets.Wf`).  They name
the listening socket and the connections that are accepted and not closed, at every point of the
loop but one: between `RemoveFd` and `close` the connection is still open (`Inv`).

`bookkeeping`: at the head of the outer loop the three agree with each other and with the table.
-/

namespace PracticeCode.SelectServer

open Lib Linux

/-! ## `AddFd` and `RemoveFd` -/

/-- The three records agree. -/
structure Sets.Wf (t : Sets) : Prop where
  sorted : t.fds.Pairwise (· < ·)
  bits : ∀ fd, t.origin_set fd = true ↔ fd ∈ t.fds
  greatest : IsGreatest {fd | fd ∈ t.fds} t.max_fd

theorem Sets.Wf.nodup {t : Sets} (h : t.Wf) : t.fds.Nodup := h.sorted.imp ne_of_lt

theorem mem_insertFd {fd x : Fd} {l : List Fd} : x ∈ insertFd fd l ↔ x = fd ∨ x ∈ l := by
  unfold insertFd
  split
  · rename_i h
    constructor
    · exact .inr
    · rintro (rfl | hx)
      · exact h
      · exact hx
  · exact List.mem_orderedInsert _

theorem sorted_insertFd {fd : Fd} {l : List Fd} (h : l.Pairwise (· < ·)) :
    (insertFd fd l).Pairwise (· < ·) := by
  unfold insertFd
  split
  · exact h
  · rename_i hm
    have hle : (l.orderedInsert (· ≤ ·) fd).Pairwise (· ≤ ·) :=
      (h.imp le_of_lt).orderedInsert fd l
    have hnd : (l.orderedInsert (· ≤ ·) fd).Nodup :=
      (l.perm_orderedInsert (· ≤ ·) fd).nodup_iff.mpr (List.nodup_cons.mpr ⟨hm, h.imp ne_of_lt⟩)
    exact (hle.and hnd).imp fun h => lt_of_le_of_ne h.1 h.2

theorem isGreatest_getLast {l : List Fd} {x : Fd} (h : l.Pairwise (· < ·))
    (hx : l.getLast? = some x) : IsGreatest {fd | fd ∈ l} x := by
  obtain ⟨ys, rfl⟩ := List.getLast?_eq_some_iff.mp hx
  refine ⟨by simp, fun y hy => ?_⟩
  rcases List.mem_append.mp hy with hy | hy
  · exact le_of_lt ((List.pairwise_append.mp h).2.2 y hy x (List.mem_singleton_self x))
  · exact le_of_eq (List.mem_singleton.mp hy)

theorem addFd_max_fd (t : Sets) (fd : Fd) : (AddFd t fd).max_fd = max t.max_fd fd := by
  show (if t.max_fd < fd then fd else t.max_fd) = max t.max_fd fd
  split
  · rename_i h
    exact (max_eq_right (le_of_lt h)).symm
  · rename_i h
    exact (max_eq_left (not_lt.mp h)).symm

theorem bits_addFd {t : Sets} (h : ∀ x, t.origin_set x = true ↔ x ∈ t.fds) (fd x : Fd) :
    (AddFd t fd).origin_set x = true ↔ x ∈ (AddFd t fd).fds := by
  simp only [AddFd, mem_insertFd, Function.update_apply]
  split
  · simp [*]
  · simp [*]

theorem bits_removeFd {t : Sets} (hs : t.fds.Pairwise (· < ·))
    (h : ∀ x, t.origin_set x = true ↔ x ∈ t.fds) (fd x : Fd) :
    (RemoveFd t fd).1.origin_set x = true ↔ x ∈ (RemoveFd t fd).1.fds := by
  have hnd : t.fds.Nodup := hs.imp ne_of_lt
  simp only [RemoveFd, Function.update_apply, hnd.mem_erase_iff]
  split
  · simp [*]
  · simp [*]

theorem wf_addFd {t : Sets} (h : t.Wf) (fd : Fd) : (AddFd t fd).Wf where
  sorted := sorted_insertFd h.sorted
  bits := bits_addFd h.bits fd
  greatest := by
    obtain ⟨hmem, hub⟩ := h.greatest
    rw [addFd_max_fd]
    constructor
    · show max t.max_fd fd ∈ insertFd fd t.fds
      rw [mem_insertFd]
      rcases le_total t.max_fd fd with hle | hle
      · exact .inl (max_eq_right hle)
      · exact .inr (by rw [max_eq_left hle]; exact hmem)
    · intro x hx
      rcases mem_insertFd.mp hx with rfl | hx
      · exact le_max_right ..
      · exact (hub hx).trans (le_max_left ..)

theorem wf_addFd_empty (fd : Fd) : (AddFd ⟨fun _ => false, [], 0⟩ fd).Wf where
  sorted := by simp [AddFd, insertFd]
  bits x := by simp [AddFd, insertFd, Function.update_apply]
  greatest := by
    rw [addFd_max_fd]
    exact ⟨by simp [AddFd, insertFd], fun x hx => by simp [AddFd, insertFd] at hx; simp [hx]⟩

/-- `max_fd` is looked for again only when the greatest goes. -/
theorem wf_removeFd {t : Sets} {fd other : Fd} (h : t.Wf) (ho : other ∈ t.fds) (hne : other ≠ fd) :
    (RemoveFd t fd).1.Wf where
  sorted := h.sorted.sublist List.erase_sublist
  bits := bits_removeFd h.sorted h.bits fd
  greatest := by
    obtain ⟨hmem, hub⟩ := h.greatest
    simp only [RemoveFd]
    split
    · have hs : (t.fds.erase fd).Pairwise (· < ·) := h.sorted.sublist List.erase_sublist
      cases hl : (t.fds.erase fd).getLast? with
      | none =>
        rw [List.getLast?_eq_none_iff] at hl
        have : other ∈ t.fds.erase fd := h.nodup.mem_erase_iff.mpr ⟨hne, ho⟩
        simp [hl] at this
      | some x => exact isGreatest_getLast hs hl
    · rename_i hlt
      refine ⟨h.nodup.mem_erase_iff.mpr ⟨?_, hmem⟩, fun x hx => hub (List.mem_of_mem_erase hx)⟩
      rintro rfl
      exact hlt le_rfl

/-! ## The invariant -/

section Step

variable {sfd : Fd} {s s' : State} {a : Act}

/-- At each call the iterator stands at the descriptor of the call. -/
def AtPoint (sfd : Fd) (s : State) : Prop :=
  match s.point with
  | .accept => s.iter = some sfd
  | .recv | .send _ => ∃ fd, s.iter = some fd ∧ fd ≠ sfd
  | .close fd => fd ≠ sfd
  | _ => True

structure Inv (sfd : Fd) (s : State) : Prop where
  sets : s.sets.Wf
  mem : ∀ fd, fd ∈ s.sets.fds ↔ s.table.Open sfd fd ∧ s.point ≠ .close fd
  free : s.table.files sfd = none
  iter : ∀ fd, s.iter = some fd → fd ∈ s.sets.fds
  point : AtPoint sfd s

theorem init_point (sfd : Fd) : (init sfd).point = .select ∨ (init sfd).point = .undefined := by
  unfold init
  split
  · exact .inl rfl
  · exact .inr rfl

theorem init_inv (sfd : Fd) : Inv sfd (init sfd) where
  sets := wf_addFd_empty sfd
  mem fd := by
    have hm : fd ∈ (init sfd).sets.fds ↔ (init sfd).table.Open sfd fd := by
      simp [init, AddFd, insertFd, Table.Open, Table.empty]
    rcases init_point sfd with hp | hp <;> simp [hm, hp]
  free := rfl
  iter fd h := by cases h
  point := by rcases init_point sfd with hp | hp <;> simp [AtPoint, hp]

theorem mem_of_nextFd {fd x : Fd} {l : List Fd} (h : nextFd fd l = some x) : x ∈ l ∧ fd < x :=
  ⟨List.mem_of_find?_eq_some h, by simpa using List.find?_some h⟩

/-- A step that leaves the records and the table alone. -/
theorem inv_goto (h : Inv sfd s) {rd : FdSet} {iter : Option Fd} {pt : Point} {log : List Call}
    (hc : ∀ fd, s.point ≠ .close fd) (hpt : ∀ fd, pt ≠ .close fd)
    (hi : ∀ fd, iter = some fd → fd ∈ s.sets.fds)
    (hat : AtPoint sfd { s with readfds := rd, iter := iter, point := pt, log := log }) :
    Inv sfd { s with readfds := rd, iter := iter, point := pt, log := log } where
  sets := h.sets
  mem fd := by
    rw [h.mem]
    simp [hc fd, hpt fd]
  free := h.free
  iter := hi
  point := hat

theorem inv_accept (h : Inv sfd s) {fd cfd : Fd} (hp : s.point = .accept) (hne : cfd ≠ sfd) :
    Inv sfd (({ (s.call (.accept (some cfd))) with
      table := s.table.accept cfd, sets := AddFd s.sets cfd } : State).next fd) where
  sets := wf_addFd h.sets cfd
  mem x := by
    show x ∈ insertFd cfd s.sets.fds ↔ (s.table.accept cfd).Open sfd x ∧ Point.loop ≠ .close x
    rw [mem_insertFd, Table.open_accept, h.mem]
    simp [hp]
  free := by
    show Function.update s.table.files cfd _ sfd = none
    rw [Function.update_of_ne hne.symm]
    exact h.free
  iter x hx := (mem_of_nextFd hx).1
  point := trivial

/-- The connection is still open when its descriptor is out of the records. -/
theorem inv_removeFd (h : Inv sfd s) {fd : Fd} {log : List Call} (hp : s.point = .recv)
    (hne : fd ≠ sfd) :
    Inv sfd { s with
      sets := (RemoveFd s.sets fd).1, iter := (RemoveFd s.sets fd).2, point := .close fd
      log := log } := by
  have hnd := h.sets.nodup
  refine ⟨wf_removeFd h.sets ((h.mem sfd).mpr ⟨.inl rfl, by simp [hp]⟩) hne.symm, fun x => ?_,
    h.free, fun x hx => ?_, hne⟩
  · show x ∈ s.sets.fds.erase fd ↔ s.table.Open sfd x ∧ Point.close fd ≠ .close x
    rw [hnd.mem_erase_iff, h.mem]
    simp only [hp, ne_eq, reduceCtorEq, not_false_eq_true, and_true, Point.close.injEq]
    rw [and_comm, eq_comm]
  · obtain ⟨hm, hlt⟩ := mem_of_nextFd hx
    exact hnd.mem_erase_iff.mpr ⟨ne_of_gt hlt, hm⟩

theorem inv_close (h : Inv sfd s) {fd : Fd} {log : List Call} (hp : s.point = .close fd)
    (hne : fd ≠ sfd) :
    Inv sfd { s with table := s.table.close fd, point := .loop, log := log } where
  sets := h.sets
  mem x := by
    rw [h.mem, Table.open_close hne, hp]
    simp [eq_comm]
  free := by
    show Function.update s.table.files fd none sfd = none
    rw [Function.update_of_ne hne.symm]
    exact h.free
  iter := h.iter
  point := trivial

/-- **Every step keeps the three records together**, as long as `FD_SET` has a bit to set. -/
theorem inv_step (h : Inv sfd s) (hs : step sfd s a = some s') (hu : s'.point ≠ .undefined) :
    Inv sfd s' := by
  have hpt := h.point
  cases outcome_of_step hs with
  | select hp hr =>
    exact inv_goto h (by simp [hp]) (by simp) (fun fd hfd => List.mem_of_mem_head? hfd) trivial
  | timeout => exact h
  | fail hp => exact inv_goto h (by simp [hp]) (by simp) h.iter trivial
  | passEnd hp => exact inv_goto h (by simp [hp]) (by simp) h.iter trivial
  | skip hp hi =>
    exact inv_goto h (by simp [hp]) (by simp) (fun _ hx => (mem_of_nextFd hx).1) trivial
  | listening hp hi => exact inv_goto h (by simp [hp]) (by simp) h.iter hi
  | client hp hi hr hne => exact inv_goto h (by simp [hp]) (by simp) h.iter ⟨_, hi, hne⟩
  | acceptFail hp =>
    exact inv_goto h (by simp [hp]) (by simp) (fun _ hx => (mem_of_nextFd hx).1) trivial
  | accept hp hi hfree hne => exact inv_accept h hp hne
  | overflow => exact absurd rfl hu
  | recvData hp hi =>
    simp only [AtPoint, hp] at hpt
    exact inv_goto h (by simp [hp]) (by simp) h.iter hpt
  | recvStop hp hi =>
    simp only [AtPoint, hp, hi, Option.some.injEq, exists_eq_left'] at hpt
    exact inv_removeFd h hp hpt
  | send hp => exact inv_goto h (by simp [hp]) (by simp) (fun _ hx => (mem_of_nextFd hx).1) trivial
  | close hp =>
    simp only [AtPoint, hp] at hpt
    exact inv_close h hp hpt

theorem step_of_undefined (hp : s.point = .undefined) : step sfd s a = none := by
  cases a <;> simp [step, hp]

end Step

/-! ## Whole runs -/

theorem inv_of_run {sfd : Fd} {as : List Act} {s : State} (h : Run (step sfd) free (init sfd) as s)
    (hp : s.point ≠ .undefined) : Inv sfd s := by
  refine h.invariant (I := fun s => s.point ≠ .undefined → Inv sfd s) (fun _ => init_inv sfd)
    (fun s a s' hi _ hs hu => ?_) hp
  refine inv_step (hi fun hu' => ?_) hs hu
  rw [step_of_undefined hu'] at hs
  cases hs

/-- **The bookkeeping of the select server.**  At the head of the outer loop the bits of
`origin_set`, the elements of `fds`, and the listening socket with the connections that are accepted
and not closed are the same set, and `max_fd` is its greatest element. -/
theorem bookkeeping {sfd : Fd} {as : List Act} {s : State}
    (h : Run (step sfd) free (init sfd) as s) (hp : s.point = .select) :
    {fd | s.sets.origin_set fd = true} = {fd | fd ∈ s.sets.fds} ∧
    {fd | fd ∈ s.sets.fds} = {fd | fd = sfd ∨ (s.table.files fd).isSome} ∧
    IsGreatest {fd | fd ∈ s.sets.fds} s.sets.max_fd := by
  have hi := inv_of_run h (by simp [hp])
  refine ⟨Set.ext hi.sets.bits, Set.ext fun fd => ?_, hi.sets.greatest⟩
  simp [hi.mem, hp, Table.Open]

/-- Two clients, and the one with the greatest number leaves. -/
def leaveRun : List Act := [.select [3], .dispatch, .accept (some 4), .dispatch, .dispatch,
  .select [3], .dispatch, .accept (some 5), .dispatch, .dispatch, .dispatch,
  .select [5], .dispatch, .dispatch, .dispatch, .recv .eof, .close, .dispatch]

theorem bookkeeping_leave : ∃ s, Run (step 3) free (init 3) leaveRun s ∧ s.sets.fds = [3, 4] ∧
    {fd | s.sets.origin_set fd = true} = {fd | fd ∈ s.sets.fds} ∧
    IsGreatest {fd | fd ∈ s.sets.fds} s.sets.max_fd := by
  obtain ⟨s, hr, hp, hl⟩ : ∃ s, Run (step 3) free (init 3) leaveRun s ∧
      s.point = .select ∧ s.sets.fds = [3, 4] := Run.exists_of_exec _ _ (by decide)
  obtain ⟨hb, -, hg⟩ := bookkeeping hr hp
  exact ⟨s, hr, hl, hb, hg⟩

end PracticeCode.SelectServer
