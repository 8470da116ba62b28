import PracticeCode.Linux.Sockets

/-!
# An epoll instance whose calls may return anything

The first two event servers block in every call and look at no mask, so that only two things of the
kernel matter to them: which numbers are open, and which are on the interest list, with which
`epoll_data`.  Whether a registered number is ready, and what a call returns, is left open; a batch
of `epoll_wait` has each registered number at most once.
-/

namespace PracticeCode.Linux

structure Epoll (α : Type) where
  isOpen : Fd → Bool
  reg : Fd → Option α

namespace Epoll

variable {α : Type}

/-- The process after `main` registered the listening socket `sfd` with the epoll instance `efd`. -/
def boot (efd sfd : Fd) (listen : α) : Epoll α where
  isOpen fd := decide (fd < 3 ∨ fd = efd ∨ fd = sfd)
  reg fd := if fd = sfd then some listen else none

/-- `accept` returns the number `fd`. -/
def accept (k : Epoll α) (fd : Fd) : Epoll α :=
  { k with isOpen := Function.update k.isOpen fd true }

/-- `EPOLL_CTL_ADD` that succeeds. -/
def add (k : Epoll α) (fd : Fd) (data : α) : Option (Epoll α) :=
  if k.isOpen fd = true ∧ k.reg fd = none then
    some { k with reg := Function.update k.reg fd (some data) }
  else none

/-- `EPOLL_CTL_DEL` that succeeds. -/
def del (k : Epoll α) (fd : Fd) : Option (Epoll α) :=
  if (k.reg fd).isSome then some { k with reg := Function.update k.reg fd none } else none

def close (k : Epoll α) (fd : Fd) : Epoll α where
  isOpen := Function.update k.isOpen fd false
  reg := Function.update k.reg fd none

/-- `epoll_wait` reports the numbers `fds`: the data of the array it fills. -/
def wait (k : Epoll α) (maxevents : ℕ) (fds : List Fd) : Option (List α) :=
  if fds ≠ [] ∧ fds.length ≤ maxevents ∧ fds.Nodup ∧ ∀ fd ∈ fds, (k.reg fd).isSome then
    some (fds.filterMap k.reg)
  else none

section

variable {k k' : Epoll α} {fd : Fd} {data : α}

theorem add_eq_some (h : k.add fd data = some k') : k.isOpen fd = true ∧ k.reg fd = none ∧
    k' = { k with reg := Function.update k.reg fd (some data) } := by
  simp only [add, Option.ite_none_right_eq_some, Option.some.injEq] at h
  exact ⟨h.1.1, h.1.2, h.2.symm⟩

theorem del_eq_some (h : k.del fd = some k') :
    k' = { k with reg := Function.update k.reg fd none } := by
  simp only [del, Option.ite_none_right_eq_some, Option.some.injEq] at h
  exact h.2.symm

theorem wait_eq_some {n : ℕ} {fds : List Fd} {evs : List α} (h : k.wait n fds = some evs) :
    fds.Nodup ∧ (∀ fd ∈ fds, (k.reg fd).isSome) ∧ evs = fds.filterMap k.reg := by
  simp only [wait, Option.ite_none_right_eq_some, Option.some.injEq] at h
  exact ⟨h.1.2.2.1, h.1.2.2.2, h.2.symm⟩

/-- What a batch points to is registered. -/
theorem exists_of_mem_wait {n : ℕ} {fds : List Fd} {evs : List α} (h : k.wait n fds = some evs)
    (hd : data ∈ evs) : ∃ fd ∈ fds, k.reg fd = some data := by
  obtain ⟨-, -, rfl⟩ := wait_eq_some h
  exact List.mem_filterMap.mp hd

end

/-- The instance that has each number itself for its `epoll_data`. -/
def numbers (k : Epoll α) : Epoll Fd where
  isOpen := k.isOpen
  reg fd := (k.reg fd).map fun _ => fd

section

variable (k : Epoll α) (fd : Fd)

theorem numbers_reg_isSome : (k.numbers.reg fd).isSome = (k.reg fd).isSome := by
  simp [numbers]

/-- A number whose data is replaced, as a number. -/
theorem numbers_update (o : Option α) :
    (fun fd' => (Function.update k.reg fd o fd').map fun _ => fd') =
      Function.update k.numbers.reg fd (o.map fun _ => fd) := by
  funext fd'
  simp only [Function.update_apply]
  split
  · rename_i e
    rw [e]
  · rfl

theorem numbers_add (data : α) : (k.add fd data).map numbers = k.numbers.add fd fd := by
  have hreg : k.numbers.reg fd = none ↔ k.reg fd = none := Option.map_eq_none_iff
  unfold add
  by_cases h : k.isOpen fd = true ∧ k.reg fd = none
  · rw [if_pos h, if_pos ⟨h.1, hreg.mpr h.2⟩, Option.map_some, numbers, numbers_update]
    rfl
  · rw [if_neg h, if_neg fun h' => h ⟨h'.1, hreg.mp h'.2⟩, Option.map_none]

theorem numbers_del : (k.del fd).map numbers = k.numbers.del fd := by
  unfold del
  rw [numbers_reg_isSome]
  split
  · rw [Option.map_some, numbers, numbers_update]
    rfl
  · rfl

theorem numbers_close : (k.close fd).numbers = k.numbers.close fd := by
  rw [close, numbers, numbers_update]
  rfl

/-- The batch of the numbers is the list of them. -/
theorem numbers_wait (n : ℕ) (fds : List Fd) :
    k.numbers.wait n fds = (k.wait n fds).map fun _ => fds := by
  unfold wait
  simp only [numbers_reg_isSome]
  split
  · rename_i h
    refine congrArg some (Eq.trans (List.filterMap_congr fun fd hfd => ?_) List.filterMap_some)
    obtain ⟨d, hd⟩ := Option.isSome_iff_exists.mp (h.2.2.2 fd hfd)
    simp [numbers, hd]
  · rfl

end

/-- The calls of a server, with their results. -/
inductive Call where
  | accept (lfd : Fd) (res : Option Fd)
  | ctlAdd (fd : Fd) (ok : Bool)
  | ctlDel (fd : Fd) (ok : Bool)
  | recv (fd : Fd) (res : Recv)
  | send (fd : Fd) (buf : List UInt8) (res : Option ℕ)
  | close (fd : Fd)
  deriving DecidableEq

end Epoll

end PracticeCode.Linux
