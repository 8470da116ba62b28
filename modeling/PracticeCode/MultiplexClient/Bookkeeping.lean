import PracticeCode.Lib.Lifetime
import PracticeCode.MultiplexClient.LockStep

/-!
# The sockets of the select client and the poll client

Every call of a run is on a socket that is open at that moment, and none comes after its `close`.
When a client waits, what it waits for are its open sockets, all of them.

The poll client is looked at first (`Inv`), and the select client keeps the same sockets.
-/

namespace PracticeCode.MultiplexClient

open Lib Linux

/-! ## The log and the table -/

/-- The sockets that are open, and those to come. -/
def live (table : Table) : Set Conn := {c | ∃ fd, table.files fd = some c}

def fresh (table : Table) : Set Conn := {c | table.made ≤ c}

/-- The table accounts for what the calls opened and closed. -/
structure Accounted (log : List Call) (table : Table) : Prop where
  tied : Tied Call.target Call.closes log (live table) (fresh table)
  wf : table.Wf

section Accounted

variable {log : List Call} {table : Table} {fd : Fd} {c : Conn} {x : Call}

theorem accounted_nil : Accounted [] .empty where
  tied := tied_nil
  wf := Table.wf_empty

/-- A call on an open socket. -/
theorem Accounted.call (h : Accounted log table) (hf : (table.files fd).isSome)
    (ht : x.target = some (table.files fd)) (hx : x.closes = none) :
    Accounted (log ++ [x]) table where
  tied := by
    obtain ⟨c, hc⟩ := Option.isSome_iff_exists.mp hf
    refine h.tied.call (fun o ho => ⟨c, ⟨fd, hc⟩, ?_⟩) hx
    rw [ht, hc] at ho
    exact (Option.some.inj ho).symm
  wf := h.wf

theorem Accounted.socketFail (h : Accounted log table) :
    Accounted (log ++ [.socket none]) table where
  tied := h.tied.call (fun o ho => by cases ho) rfl
  wf := h.wf

theorem Accounted.socket (h : Accounted log table) :
    Accounted (log ++ [.socket (some fd)]) (table.accept fd) where
  tied := by
    refine (h.tied.call (fun o ho => by cases ho) rfl).mono ?_ ?_
    · rintro c ⟨x, hx⟩
      rw [Table.files_accept] at hx
      split at hx
      · exact .inr (Nat.le_of_eq (Option.some.inj hx))
      · exact .inl ⟨x, hx⟩
    · intro c hc
      exact .inr (Nat.le_of_succ_le hc)
  wf := h.wf.accept fd

theorem Accounted.close (h : Accounted log table) (hf : (table.files fd).isSome) :
    Accounted (log ++ [.close fd (table.files fd)]) (table.close fd) where
  tied := by
    obtain ⟨c, hc⟩ := Option.isSome_iff_exists.mp hf
    rw [hc]
    have hold : c ∉ fresh table := fun hm => absurd (h.wf.made hc) (not_lt.mpr hm)
    refine (h.tied.release rfl rfl ⟨fd, hc⟩ hold).mono ?_ ?_
    · rintro d ⟨x, hx⟩
      obtain ⟨hne, hx⟩ := Table.files_close_eq_some.mp hx
      refine .inl ⟨⟨x, hx⟩, ?_⟩
      rintro rfl
      exact hne (h.wf.inj hx hc)
    · exact fun d hd => .inr hd
  wf := h.wf.close fd

theorem isSome_accept {y : Fd} :
    ((table.accept fd).files y).isSome ↔ y = fd ∨ (table.files y).isSome := by
  rw [Table.files_accept]
  split <;> simp [*]

theorem isSome_close {y : Fd} :
    ((table.close fd).files y).isSome ↔ (table.files y).isSome ∧ y ≠ fd := by
  rw [Table.files_close]
  split <;> simp [*]

end Accounted

/-! ## The poll client -/

section Poll

variable {inherited : List Fd} {t t' : State (List PollFd) ℕ} {a : Act} {fd : Fd} {i : ℕ}

structure Inv (t : State (List PollFd) ℕ) : Prop where
  accounted : Accounted t.log t.table
  nodup : (t.regs.map PollFd.fd).Nodup
  /-- A socket leaves the vector before it is closed. -/
  mem : ∀ fd, fd ∈ t.regs.map PollFd.fd ↔
    (t.table.files fd).isSome ∧ ∀ i, t.point ≠ .close fd i
  connect : ∀ fd left, t.point = .connect fd left → (t.table.files fd).isSome
  close : ∀ fd i, t.point = .close fd i → (t.table.files fd).isSome

theorem inv_init : Inv (init pollRegistry) where
  accounted := accounted_nil
  nodup := .nil
  mem fd := by simp [init, pollRegistry, Table.empty]
  connect fd left h := by cases h
  close fd i h := by cases h

/-- The socket that an iterator stands at is open. -/
theorem Inv.isSome (h : Inv t) (hi : pollRegistry.fd t.regs i = some fd) :
    (t.table.files fd).isSome := by
  obtain ⟨e, he, rfl⟩ := Option.map_eq_some_iff.mp hi
  exact ((h.mem _).mp (List.mem_map_of_mem (List.mem_of_getElem? he))).1

/-- A step that leaves the vector and the table alone. -/
theorem Inv.goto (h : Inv t) {p : Point ℕ} {log : List Call} (hlog : Accounted log t.table)
    (hc : ∀ fd i, t.point ≠ .close fd i) (hp : ∀ fd i, p ≠ .close fd i)
    (hn : ∀ fd left, p ≠ .connect fd left) : Inv ⟨t.table, t.regs, p, log⟩ where
  accounted := hlog
  nodup := h.nodup
  mem fd := by
    rw [h.mem]
    exact and_congr_right fun _ => ⟨fun _ => hp fd, fun _ => hc fd⟩
  connect fd left e := absurd e (hn fd left)
  close fd i e := absurd e (hp fd i)

theorem Inv.socket (h : Inv t) {left : ℕ} (hp : t.point = .socket (left + 1))
    (hl : t.lowest inherited fd) :
    Inv ⟨t.table.accept fd, t.regs ++ [⟨fd, false, false⟩], .connect fd left,
      t.log ++ [.socket (some fd)]⟩ where
  accounted := h.accounted.socket
  nodup := by
    rw [List.map_append]
    refine h.nodup.append (List.nodup_singleton fd) (List.disjoint_singleton.mpr fun hm => ?_)
    exact hl.1 (.inr ((h.mem fd).mp hm).1)
  mem x := by
    have hm : x ∈ t.regs.map PollFd.fd ↔ (t.table.files x).isSome := by
      rw [h.mem, hp]
      simp
    rw [List.map_append, List.mem_append, hm, isSome_accept]
    simp [or_comm]
  connect x l e := by
    cases e
    exact isSome_accept.mpr (.inl rfl)
  close x i e := by cases e

theorem map_eraseIdx {p : List PollFd} (h : (p.map PollFd.fd).Nodup) (hlt : i < p.length) :
    (p.eraseIdx i).map PollFd.fd = (p.map PollFd.fd).erase p[i].fd := by
  have hlt' : i < (p.map PollFd.fd).length := by simpa using hlt
  have herase := h.erase_getElem i hlt'
  rw [List.getElem_map] at herase
  rw [herase, List.eraseIdx_map]

/-- The end of a stream: the socket leaves the vector. -/
theorem Inv.eof (h : Inv t) (hp : t.point = .read i) (hi : pollRegistry.fd t.regs i = some fd) :
    Inv ⟨t.table, t.regs.eraseIdx i, .close fd i, t.log ++ [.recv fd (t.table.files fd) .eof]⟩ := by
  have hopen := h.isSome hi
  obtain ⟨e, he, rfl⟩ := Option.map_eq_some_iff.mp hi
  obtain ⟨hlt, rfl⟩ := List.getElem?_eq_some_iff.mp he
  have hx := map_eraseIdx h.nodup hlt
  constructor
  · exact h.accounted.call hopen rfl rfl
  · rw [hx]
    exact h.nodup.sublist List.erase_sublist
  · intro x
    rw [hx, h.nodup.mem_erase_iff, h.mem, hp]
    simp only [ne_eq, reduceCtorEq, not_false_eq_true, implies_true, and_true, Point.close.injEq,
      not_and]
    constructor
    · rintro ⟨hne, ho⟩
      exact ⟨ho, fun j e => absurd e.symm hne⟩
    · rintro ⟨ho, hne⟩
      exact ⟨fun e => hne i e.symm rfl, ho⟩
  · intro x l e
    cases e
  · intro x j e
    cases e
    exact hopen

theorem Inv.closed (h : Inv t) (hp : t.point = .close fd i) :
    Inv ⟨t.table.close fd, t.regs, .read i, t.log ++ [.close fd (t.table.files fd)]⟩ where
  accounted := h.accounted.close (h.close fd i hp)
  nodup := h.nodup
  mem x := by
    rw [h.mem, isSome_close, hp]
    simp only [ne_eq, Point.close.injEq, not_and, reduceCtorEq, not_false_eq_true, implies_true,
      and_true, and_congr_right_iff]
    intro _
    constructor
    · intro hne e
      exact hne i e.symm rfl
    · intro hne j e
      exact absurd e.symm hne
  connect x l e := by cases e
  close x j e := by cases e

theorem inv_step (h : Inv t) (hs : PollClient inherited t a = some t') : Inv t' := by
  cases outcome_of_client hs with
  | socketFail hp =>
    exact h.goto h.accounted.socketFail (by simp [hp]) (by simp) (by simp)
  | socket hp hl hadd =>
    obtain rfl := Option.some.inj hadd
    exact h.socket hp hl
  | overflow hp hadd => cases hadd
  | @connect fd left hp =>
    exact h.goto (h.accounted.call (h.connect fd left hp) rfl rfl) (by simp [hp]) (by simp)
      (by simp)
  | opened hp | waitFail hp | writeEnd hp _ | writeSkip hp _ _ | readEnd hp _ | readSkip hp _ _ =>
    exact h.goto h.accounted (by simp [hp]) (by simp) (by simp)
  | timeout _ hl => cases hl
  | wait hp hr =>
    simp only [pollRegistry, Option.ite_none_right_eq_some, Option.some.injEq] at hr
    obtain ⟨-, rfl⟩ := hr
    have hg := h.goto (p := .write 0) h.accounted (by simp [hp]) (by simp) (by simp)
    refine ⟨h.accounted, ?_, ?_, by simp, by simp⟩
    · simpa [Function.comp_def] using h.nodup
    · simpa [Function.comp_def] using hg.mem
  | getsockopt hp hi _ =>
    refine h.goto (h.accounted.call (h.isSome hi) rfl rfl) (by simp [hp]) ?_ ?_
    · intro fd i
      split <;> simp
    · intro fd left
      split <;> simp
  | send hp hi | recv hp hi _ _ _ =>
    exact h.goto (h.accounted.call (h.isSome hi) rfl rfl) (by simp [hp]) (by simp) (by simp)
  | eof hp hi _ => exact h.eof hp hi
  | close hp => exact h.closed hp

theorem inv_of_run {as : List Act} (h : Run (PollClient inherited) free (init pollRegistry) as t) :
    Inv t :=
  h.invariant (I := Inv) inv_init fun _ _ _ hI _ hs => inv_step hI hs

/-- What `poll` is given are the open sockets. -/
theorem Inv.polled (h : Inv t) (hp : t.point = .wait) :
    fd ∈ t.regs.map PollFd.fd ↔ (t.table.files fd).isSome := by
  rw [h.mem, hp]
  simp

end Poll

/-! ## The select client -/

section Select

variable {inherited : List Fd} {s : State SelectRegs (Option Fd)} {as : List Act}

/-- The poll client that goes with a select client whose numbers are small. -/
theorem exists_agree (h : Run (SelectClient inherited) free (init selectRegistry) as s)
    (hp : s.point ≠ .undefined) : ∃ t, Agree inherited s t ∧ Inv t := by
  obtain ⟨t, ht, hst⟩ := agree_of_select (H := free) (small_of_run h hp) agree_init
    (fun _ _ _ _ _ => trivial) h
  exact ⟨t, hst, inv_of_run ht⟩

theorem accounted_of_run (h : Run (SelectClient inherited) free (init selectRegistry) as s) :
    Accounted s.log s.table := by
  by_cases hp : s.point = .undefined
  · -- the number behind the `fd_set` was returned by the last call
    cases h with
    | nil => cases hp
    | snoc h _ hs =>
      cases outcome_of_client hs with
      | overflow hps hadd =>
        obtain ⟨t, hst, hI⟩ := exists_agree h (by simp [hps])
        have hacc := hI.accounted
        rw [← hst.log, ← hst.table] at hacc
        exact hacc.socket
      | timeout hps _ => simp [hps] at hp
      | getsockopt _ _ _ =>
        simp only [State.call] at hp
        split at hp <;> cases hp
      | _ => cases hp
  · obtain ⟨t, hst, hI⟩ := exists_agree h hp
    rw [hst.log, hst.table]
    exact hI.accounted

/-- **The sockets of the select client.**  Every call is on an open socket, none is on a closed one,
and when the client waits, the set, the bits and the open sockets are the same, below `max_fd`. -/
theorem selectClient_sockets
    (h : Run (SelectClient inherited) free (init selectRegistry) as s) :
    Orderly Call.target Call.closes s.log ∧
      (s.point = .wait → ∀ fd,
        (fd ∈ s.regs.sets.fds ↔ (s.table.files fd).isSome) ∧
        (s.regs.sets.origin_set fd = true ↔ (s.table.files fd).isSome) ∧
        ((s.table.files fd).isSome → fd ≤ s.regs.sets.max_fd)) := by
  refine ⟨(accounted_of_run h).tied.orderly, fun hp fd => ?_⟩
  obtain ⟨t, hst, hI⟩ := exists_agree h (by simp [hp])
  have htp : t.point = .wait := hst.point.wait_iff.mp hp
  have hm : fd ∈ s.regs.sets.fds ↔ (s.table.files fd).isSome := by
    rw [hst.regs.fds, hst.table]
    exact hI.polled htp
  refine ⟨hm, ?_, fun ho => hst.regs.below fd (hm.mpr ho)⟩
  rw [hst.regs.bits, hm]

theorem selectClient_sockets_two : ∃ s, Run (SelectClient [0, 1, 2]) free (init selectRegistry)
    twoSockets s ∧ s.log.length = 11 ∧ Orderly Call.target Call.closes s.log ∧
      (s.regs.sets.origin_set 4 = true ↔ (s.table.files 4).isSome) := by
  obtain ⟨s, h, hlen, hp⟩ : ∃ s, Run (SelectClient [0, 1, 2]) free (init selectRegistry)
      twoSockets s ∧ s.log.length = 11 ∧ s.point = .wait :=
    Run.exists_of_exec _ _ (by decide)
  obtain ⟨ho, hw⟩ := selectClient_sockets h
  exact ⟨s, h, hlen, ho, (hw hp 4).2.1⟩

end Select

end PracticeCode.MultiplexClient
