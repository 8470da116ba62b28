import PracticeCode.SelectServer.Bookkeeping

/-!
# `utils.h` on its own

Any sequence of `AddFd` and `RemoveFd`, from the empty records on.  The bits are always the elements
of `fds`, and `RemoveFd` always leaves the iterator at the next larger one.  `max_fd` is another
matter: `RemoveFd` of the last element leaves it as it was, and `AddFd` only takes it up, so that a
smaller descriptor that comes next is not the maximum that is recorded.

`setsAgree_iff`: the records agree all along exactly if this does not happen.
-/

namespace PracticeCode.SelectServer

open Lib Linux

/-- `FD_ZERO(&origin_set)`, no element and `max_fd = 0`. -/
def Sets.empty : Sets := ⟨fun _ => false, [], 0⟩

inductive SetsOp where
  | add (fd : Fd)
  | remove (iter : Fd)
  deriving DecidableEq

/-- `AddFd` of a number that an `fd_set` has a bit for, `RemoveFd` at an element. -/
def setsStep (t : Sets) : SetsOp → Option Sets
  | .add fd => if fd < FD_SETSIZE then some (AddFd t fd) else none
  | .remove iter => if iter ∈ t.fds then some (RemoveFd t iter).1 else none

/-- The three records say the same, and `RemoveFd` would leave the iterator at the next larger
element of those that remain, or at the end. -/
structure Sets.Agree (t : Sets) : Prop where
  bits : ∀ fd, t.origin_set fd = true ↔ fd ∈ t.fds
  next : ∀ iter ∈ t.fds, ∀ x, (RemoveFd t iter).2 = some x ↔
    IsLeast {y | y ∈ (RemoveFd t iter).1.fds ∧ iter < y} x
  greatest : t.fds ≠ [] → IsGreatest {fd | fd ∈ t.fds} t.max_fd

/-- What is added to the empty set is not below the maximum that was left behind. -/
def notBelow (t : Sets) : SetsOp → Prop
  | .add fd => t.fds = [] → t.max_fd ≤ fd
  | .remove _ => True

instance (t : Sets) (op : SetsOp) : Decidable (notBelow t op) := by
  cases op using SetsOp.casesOn <;> unfold notBelow <;> infer_instance

section Step

variable {t t' : Sets} {op : SetsOp} {ops : List SetsOp}

theorem step_add {fd : Fd} :
    setsStep t (.add fd) = some t' ↔ fd < FD_SETSIZE ∧ t' = AddFd t fd := by
  rw [setsStep, Option.ite_none_right_eq_some, Option.some.injEq, @eq_comm _ t']

theorem step_remove {iter : Fd} :
    setsStep t (.remove iter) = some t' ↔ iter ∈ t.fds ∧ t' = (RemoveFd t iter).1 := by
  rw [setsStep, Option.ite_none_right_eq_some, Option.some.injEq, @eq_comm _ t']

/-- The two records that are right after every operation. -/
structure Sets.Bits (t : Sets) : Prop where
  sorted : t.fds.Pairwise (· < ·)
  bits : ∀ fd, t.origin_set fd = true ↔ fd ∈ t.fds

theorem bits_empty : Sets.empty.Bits := ⟨List.Pairwise.nil, fun fd => by simp [Sets.empty]⟩

theorem bits_step (h : t.Bits) (hs : setsStep t op = some t') : t'.Bits := by
  cases op with
  | add fd =>
    obtain ⟨-, rfl⟩ := step_add.mp hs
    exact ⟨sorted_insertFd h.sorted, bits_addFd h.bits fd⟩
  | remove iter =>
    obtain ⟨-, rfl⟩ := step_remove.mp hs
    exact ⟨h.sorted.sublist List.erase_sublist, bits_removeFd h.sorted h.bits iter⟩

theorem bits_of_run {G : Sets → SetsOp → Prop} (h : Run setsStep G .empty ops t) : t.Bits :=
  h.invariant bits_empty fun _ _ _ hb _ hs => bits_step hb hs

/-! ## The iterator -/

theorem nextFd_eq_some_iff {fd x : Fd} {l : List Fd} (h : l.Pairwise (· < ·)) :
    nextFd fd l = some x ↔ IsLeast {y | y ∈ l ∧ fd < y} x := by
  have hleast : ∀ {z}, nextFd fd l = some z → IsLeast {y | y ∈ l ∧ fd < y} z := by
    intro z hz
    refine ⟨mem_of_nextFd hz, fun y hy => ?_⟩
    obtain ⟨-, as, bs, rfl, has⟩ := List.find?_eq_some_iff_append.mp hz
    obtain ⟨hy, hlt⟩ := hy
    rcases List.mem_append.mp hy with hy | hy
    · -- what `find?` passed over is not larger than `fd`
      have := has y hy
      simp [hlt] at this
    · rcases List.mem_cons.mp hy with rfl | hy
      · exact le_rfl
      · exact le_of_lt (List.rel_of_pairwise_cons (List.pairwise_append.mp h).2.1 hy)
  constructor
  · exact hleast
  · intro hx
    cases hz : nextFd fd l with
    | none =>
      have := List.find?_eq_none.mp hz x hx.1.1
      simp [hx.1.2] at this
    | some z => rw [(hleast hz).unique hx]

theorem Sets.Bits.next (h : t.Bits) {iter x : Fd} : (RemoveFd t iter).2 = some x ↔
    IsLeast {y | y ∈ (RemoveFd t iter).1.fds ∧ iter < y} x := by
  have hrest : {y | y ∈ (RemoveFd t iter).1.fds ∧ iter < y} = {y | y ∈ t.fds ∧ iter < y} := by
    ext y
    refine and_congr_left fun hlt => ?_
    exact List.mem_erase_of_ne (ne_of_gt hlt)
  rw [hrest]
  exact nextFd_eq_some_iff h.sorted

/-! ## `max_fd` -/

/-- With an element in `fds`, agreement is what the select server has all along. -/
theorem Sets.Bits.wf (h : t.Bits) (hg : t.fds ≠ [] → IsGreatest {fd | fd ∈ t.fds} t.max_fd)
    (hne : t.fds ≠ []) : t.Wf := ⟨h.sorted, h.bits, hg hne⟩

theorem Sets.Bits.iff_greatest (h : t.Bits) :
    t.Agree ↔ (t.fds ≠ [] → IsGreatest {fd | fd ∈ t.fds} t.max_fd) :=
  ⟨Sets.Agree.greatest, fun hg => ⟨h.bits, fun _ _ _ => h.next, hg⟩⟩

/-- The first element is the maximum exactly if it is not below the one that was left behind. -/
theorem greatest_addFd_nil {fd : Fd} (hnil : t.fds = []) :
    IsGreatest {x | x ∈ (AddFd t fd).fds} (AddFd t fd).max_fd ↔ t.max_fd ≤ fd := by
  have hfds : {x | x ∈ (AddFd t fd).fds} = {fd} := by
    ext x
    simp [AddFd, mem_insertFd, hnil]
  rw [hfds, addFd_max_fd, ← sup_eq_right]
  constructor
  · intro h
    exact h.1
  · intro h
    rw [h]
    exact isGreatest_singleton

/-- **A step keeps the agreement** exactly if it meets the guard. -/
theorem agree_step (hb : t.Bits) (h : t.Agree) (hs : setsStep t op = some t') :
    t'.Agree ↔ notBelow t op := by
  rw [(bits_step hb hs).iff_greatest]
  cases op with
  | add fd =>
    obtain ⟨-, rfl⟩ := step_add.mp hs
    have hne : (AddFd t fd).fds ≠ [] := List.ne_nil_of_mem (mem_insertFd.mpr (.inl rfl))
    rw [forall_prop_of_true hne]
    by_cases hnil : t.fds = []
    · rw [greatest_addFd_nil hnil]
      exact ⟨fun hle _ => hle, fun hg => hg hnil⟩
    · exact iff_of_true (wf_addFd (hb.wf h.greatest hnil) fd).greatest fun e => absurd e hnil
  | remove iter =>
    obtain ⟨hm, rfl⟩ := step_remove.mp hs
    refine iff_of_true (fun hne => ?_) trivial
    -- `max_fd` is looked for again, if something remains
    obtain ⟨other, ho⟩ := List.exists_mem_of_ne_nil _ hne
    have hnd : t.fds.Nodup := hb.sorted.imp ne_of_lt
    obtain ⟨hoi, ho⟩ := hnd.mem_erase_iff.mp ho
    exact (wf_removeFd (hb.wf h.greatest (List.ne_nil_of_mem hm)) ho hoi).greatest

theorem agree_empty : Sets.empty.Agree := bits_empty.iff_greatest.mpr fun h => absurd rfl h

/-- **When the records agree after every operation**: exactly if no descriptor that is added to the
empty set is below the last one that was removed. -/
theorem setsAgree_iff (h : Run setsStep free .empty ops t) :
    (∀ ops' t', ops' <+: ops → Run setsStep free .empty ops' t' → t'.Agree) ↔
      Run setsStep notBelow .empty ops t := by
  rw [← h.guarded_iff agree_empty fun _ _ _ _ hr ha _ hs => agree_step (bits_of_run hr) ha hs]
  constructor <;> exact Run.mono fun _ _ hg => by simpa [free] using hg

end Step

/-- The set gets empty, and what comes then is larger. -/
def refill : List SetsOp :=
  [.add 3, .add 5, .remove 5, .add 4, .remove 3, .remove 4, .add 7, .add 6]

theorem agree_refill : ∃ t, Run setsStep free .empty refill t ∧ t.fds = [6, 7] ∧ t.Agree := by
  obtain ⟨t, hr, hfds⟩ : ∃ t, Run setsStep notBelow .empty refill t ∧ t.fds = [6, 7] :=
    Run.exists_of_exec _ _ (by decide)
  have hr' : Run setsStep free .empty refill t := hr.mono fun _ _ _ => trivial
  exact ⟨t, hr', hfds, (setsAgree_iff hr').mpr hr _ _ List.prefix_rfl hr'⟩

/-- **A smaller descriptor after the set was empty**: `max_fd` is not an element. -/
theorem stale_max_fd : ∃ t, Run setsStep free .empty [.add 5, .remove 5, .add 3] t ∧
    t.fds = [3] ∧ t.max_fd = 5 ∧ ¬ t.Agree := by
  obtain ⟨t, hr, hfds, hmax⟩ : ∃ t, Run setsStep free .empty [.add 5, .remove 5, .add 3] t ∧
      t.fds = [3] ∧ t.max_fd = 5 := Run.exists_of_exec _ _ (by decide)
  refine ⟨t, hr, hfds, hmax, fun h => ?_⟩
  have hmem := (h.greatest (by simp [hfds])).1
  simp [hfds, hmax] at hmem

end PracticeCode.SelectServer
