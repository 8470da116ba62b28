import PracticeCode.MultiplexClient.Defs
import Mathlib.Data.List.InsertIdx

/-!
# The select client and the poll client

`socket` gives the lowest free number, so the vector of the poll client is in the numeric order of
the set of the select client, and the two iterators stand at the same descriptor.  `RegsAgree` ties
the two records together, `Agree` the two clients.

`selectClient_iff_pollClient`: with numbers that have a bit in an `fd_set`, the two clients can do
the same steps, but for the timeouts of `select`, and make the same calls.
-/

namespace PracticeCode.MultiplexClient

open Lib Linux
open SelectServer (FD_SETSIZE FdSet Sets AddFd RemoveFd nextFd)

/-! ## Options that agree -/

section Rel

variable {α β γ δ : Type*} {R : α → β → Prop} {S : γ → δ → Prop} {o : Option α} {o' : Option β}
  {x : α} {y : β}

theorem exists_right (h : Option.Rel R (some x) o') : ∃ y, o' = some y ∧ R x y := by
  cases h with
  | some h => exact ⟨_, rfl, h⟩

theorem exists_left (h : Option.Rel R o (some y)) : ∃ x, o = some x ∧ R x y := by
  cases h with
  | some h => exact ⟨_, rfl, h⟩

theorem rel_map {f : α → γ} {g : β → δ} (h : Option.Rel R o o')
    (hfg : ∀ x y, R x y → S (f x) (g y)) : Option.Rel S (o.map f) (o'.map g) := by
  cases h with
  | none => exact .none
  | some h => exact .some (hfg _ _ h)

end Rel

/-! ## The two records -/

/-- The elements of the set are those of the vector, in this order. -/
structure RegsAgree (r : SelectRegs) (p : List PollFd) : Prop where
  fds : r.sets.fds = p.map PollFd.fd
  sorted : r.sets.fds.Pairwise (· < ·)
  bits : ∀ fd, r.sets.origin_set fd = true ↔ fd ∈ r.sets.fds
  below : ∀ fd ∈ r.sets.fds, fd ≤ r.sets.max_fd

/-- What was reported is the same. -/
def FlagsAgree (r : SelectRegs) (p : List PollFd) : Prop :=
  ∀ e ∈ p, r.read_set e.fd = e.pollin ∧ r.write_set e.fd = e.pollout

section Regs

variable {r r' : SelectRegs} {p p' : List PollFd} {fd : Fd} {i : ℕ} {e : PollFd}

theorem regsAgree_empty : RegsAgree selectRegistry.empty pollRegistry.empty where
  fds := rfl
  sorted := .nil
  bits fd := by simp [selectRegistry]
  below fd h := by simp [selectRegistry] at h

/-- The element behind `x` in a sorted list. -/
theorem nextFd_of_getElem? {l : List Fd} {x : Fd} (hl : l.Pairwise (· < ·))
    (hi : l[i]? = some x) : nextFd x l = l[i + 1]? := by
  induction l generalizing i with
  | nil => cases hi
  | cons y l ih =>
    obtain ⟨hy, hl⟩ := List.pairwise_cons.mp hl
    cases i with
    | zero =>
      obtain rfl : y = x := Option.some.inj hi
      have hlt : ∀ z ∈ l, decide (y < z) = true := fun z hz => decide_eq_true (hy z hz)
      cases l with
      | nil => simp [nextFd]
      | cons z l => simp [nextFd, hy z]
    | succ i =>
      have hm : x ∈ l := List.mem_of_getElem? hi
      have hyx : ¬ x < y := (hy x hm).not_gt
      rw [nextFd, List.find?_cons_of_neg (by simpa using hyx)]
      exact ih hl hi

/-- A number above all others goes to the end. -/
theorem insertFd_of_forall_lt {l : List Fd} (h : ∀ x ∈ l, x < fd) :
    SelectServer.insertFd fd l = l ++ [fd] := by
  have hm : fd ∉ l := fun hm => lt_irrefl _ (h fd hm)
  rw [SelectServer.insertFd, if_neg hm]
  induction l with
  | nil => rfl
  | cons y l ih =>
    have hy : ¬ fd ≤ y := (h y List.mem_cons_self).not_ge
    rw [List.orderedInsert_cons, if_neg hy, List.cons_append,
      ih (fun x hx => h x (List.mem_cons_of_mem y hx)) fun hx => hm (List.mem_cons_of_mem y hx)]

theorem RegsAgree.add (h : RegsAgree r p) (hlt : ∀ x ∈ p.map PollFd.fd, x < fd) :
    RegsAgree { r with sets := AddFd r.sets fd } (p ++ [⟨fd, false, false⟩]) where
  fds := by
    rw [List.map_append, ← h.fds]
    exact insertFd_of_forall_lt (h.fds ▸ hlt)
  sorted := SelectServer.sorted_insertFd h.sorted
  bits := SelectServer.bits_addFd h.bits fd
  below x hx := by
    change x ≤ (AddFd r.sets fd).max_fd
    rw [SelectServer.addFd_max_fd]
    rcases SelectServer.mem_insertFd.mp hx with rfl | hx
    · exact le_max_right _ _
    · exact (h.below x hx).trans (le_max_left _ _)

theorem result_of_mem (h : RegsAgree r p) {ready : List Fd} (hm : fd ∈ p.map PollFd.fd) :
    r.result ready fd = ready.contains fd := by
  rw [SelectRegs.result, if_pos (h.below fd (h.fds ▸ hm))]

/-- The same reports are possible, and leave the same flags. -/
theorem RegsAgree.report (h : RegsAgree r p) (rs ws : List Fd) :
    Option.Rel (fun r p => RegsAgree r p ∧ FlagsAgree r p)
      (selectRegistry.report r rs ws) (pollRegistry.report p rs ws) := by
  have hiff : (∀ fd ∈ rs ++ ws, r.sets.origin_set fd = true ∧ fd ≤ r.sets.max_fd) ↔
      ∀ fd ∈ rs ++ ws, fd ∈ p.map PollFd.fd := by
    refine forall₂_congr fun fd _ => ?_
    rw [h.bits, ← h.fds]
    exact ⟨And.left, fun hm => ⟨hm, h.below fd hm⟩⟩
  by_cases hok : ∀ fd ∈ rs ++ ws, fd ∈ p.map PollFd.fd
  · simp only [selectRegistry, pollRegistry, if_pos hok, if_pos (hiff.mpr hok)]
    refine .some ⟨⟨?_, h.sorted, h.bits, h.below⟩, ?_⟩
    · rw [h.fds, List.map_map]
      rfl
    · intro e he
      obtain ⟨d, hd, rfl⟩ := List.mem_map.mp he
      have hm : d.fd ∈ p.map PollFd.fd := List.mem_map_of_mem hd
      exact ⟨result_of_mem h hm, result_of_mem h hm⟩
  · simp only [selectRegistry, pollRegistry, if_neg hok, if_neg (mt hiff.mp hok)]
    exact .none

theorem RegsAgree.head (h : RegsAgree r p) : r.sets.fds.head? = p[0]?.map PollFd.fd := by
  rw [h.fds, List.head?_map, List.head?_eq_getElem?]

theorem RegsAgree.next (h : RegsAgree r p) (hi : p[i]? = some e) :
    nextFd e.fd r.sets.fds = p[i + 1]?.map PollFd.fd := by
  have hx : r.sets.fds[i]? = some e.fd := by rw [h.fds, List.getElem?_map, hi]; rfl
  rw [nextFd_of_getElem? h.sorted hx, h.fds, List.getElem?_map]

theorem RegsAgree.erase (h : RegsAgree r p) (hi : p[i]? = some e) :
    RegsAgree { r with sets := (RemoveFd r.sets e.fd).1 } (p.eraseIdx i) where
  fds := by
    have hx : r.sets.fds[i]? = some e.fd := by rw [h.fds, List.getElem?_map, hi]; rfl
    obtain ⟨hlt, he⟩ := List.getElem?_eq_some_iff.mp hx
    have hnd : r.sets.fds.Nodup := h.sorted.imp ne_of_lt
    change r.sets.fds.erase e.fd = (p.eraseIdx i).map PollFd.fd
    rw [← he, hnd.erase_getElem, h.fds, List.eraseIdx_map]
  sorted := h.sorted.sublist List.erase_sublist
  bits := SelectServer.bits_removeFd h.sorted h.bits e.fd
  below x hx := by
    change x ≤ if r.sets.max_fd ≤ e.fd then (r.sets.fds.erase e.fd).getLast?.getD r.sets.max_fd
      else r.sets.max_fd
    have hm : x ∈ r.sets.fds := List.mem_of_mem_erase hx
    have hs : (r.sets.fds.erase e.fd).Pairwise (· < ·) := h.sorted.sublist List.erase_sublist
    split
    · cases hl : (r.sets.fds.erase e.fd).getLast? with
      | none => exact h.below x hm
      | some y => exact (SelectServer.isGreatest_getLast hs hl).2 hx
    · exact h.below x hm

theorem FlagsAgree.erase (h : FlagsAgree r p) {t : Sets} :
    FlagsAgree { r with sets := t } (p.eraseIdx i) :=
  fun e he => h e (List.mem_of_mem_eraseIdx he)

end Regs

/-! ## The two clients -/

/-- The clients are at the same point, and their iterators at the same descriptor.  `packed` holds
while sockets are opened, and `flags` while the walks look at what was reported. -/
inductive PointAgree (packed flags : Prop) (p : List PollFd) :
    Point (Option Fd) → Point ℕ → Prop
  | socket {left} : packed → PointAgree packed flags p (.socket left) (.socket left)
  | connect {fd left} : packed → PointAgree packed flags p (.connect fd left) (.connect fd left)
  | wait : PointAgree packed flags p .wait .wait
  | write {i} : flags → PointAgree packed flags p (.write (p[i]?.map PollFd.fd)) (.write i)
  | send {i} : flags → PointAgree packed flags p (.send (p[i]?.map PollFd.fd)) (.send i)
  | read {i} : flags → PointAgree packed flags p (.read (p[i]?.map PollFd.fd)) (.read i)
  | close {fd i} : flags →
      PointAgree packed flags p (.close fd (p[i]?.map PollFd.fd)) (.close fd i)
  | exited : PointAgree packed flags p .exited .exited

theorem PointAgree.wait_iff {packed flags : Prop} {p : List PollFd} {x : Point (Option Fd)}
    {y : Point ℕ} (h : PointAgree packed flags p x y) : x = .wait ↔ y = .wait := by
  cases h <;> simp

/-- No number up to one of the descriptors is free. -/
def Packed (inherited : List Fd) (t : State (List PollFd) ℕ) : Prop :=
  ∀ fd ∈ t.regs.map PollFd.fd, ∀ x ≤ fd, t.taken inherited x

structure Agree (inherited : List Fd) (s : State SelectRegs (Option Fd))
    (t : State (List PollFd) ℕ) : Prop where
  table : s.table = t.table
  log : s.log = t.log
  regs : RegsAgree s.regs t.regs
  point : PointAgree (Packed inherited t) (FlagsAgree s.regs t.regs) t.regs s.point t.point

section Step

variable {inherited : List Fd} {s : State SelectRegs (Option Fd)} {t : State (List PollFd) ℕ}

theorem agree_init : Agree inherited (init selectRegistry) (init pollRegistry) where
  table := rfl
  log := rfl
  regs := regsAgree_empty
  point := .socket fun fd h => by simp [init, pollRegistry] at h

/-- A new socket has a number above the others. -/
theorem Packed.lt (h : Packed inherited t) {fd x : Fd} (hl : t.lowest inherited fd)
    (hx : x ∈ t.regs.map PollFd.fd) : x < fd := by
  by_contra hlt
  exact hl.1 (h x hx fd (not_lt.mp hlt))

theorem Packed.accept (h : Packed inherited t) {fd : Fd} (hl : t.lowest inherited fd)
    {p : Point ℕ} {log : List Call} :
    Packed inherited ⟨t.table.accept fd, t.regs ++ [⟨fd, false, false⟩], p, log⟩ := by
  have hmono : ∀ x, t.taken inherited x → x ∈ inherited ∨ ((t.table.accept fd).files x).isSome := by
    intro x hx
    rw [Table.files_accept]
    split
    · exact .inr rfl
    · exact hx
  intro y hy x hxy
  rw [List.map_append] at hy
  rcases List.mem_append.mp hy with hy | hy
  · exact hmono x (h y hy x hxy)
  · obtain rfl : y = fd := List.mem_singleton.mp hy
    rcases hxy.lt_or_eq with hlt | rfl
    · exact hmono x (hl.2 x hlt)
    · refine .inr ?_
      rw [Table.files_accept, if_pos rfl]
      rfl

theorem Agree.socket (h : Agree inherited s t) {res : Option Fd}
    (hsmall : ∀ fd, res = some fd → fd < FD_SETSIZE) :
    Option.Rel (Agree inherited) (SelectClient inherited s (.socket res))
      (PollClient inherited t (.socket res)) := by
  obtain ⟨table, regs, point, log⟩ := s
  obtain ⟨table', p, point', log'⟩ := t
  obtain ⟨rfl, rfl, hr, hp⟩ := h
  simp only at hr hp
  simp only [SelectClient, PollClient, client]
  cases hp with
  | @socket left hpk =>
    cases left with
    | zero => exact .none
    | succ left =>
      cases res with
      | none => exact .some ⟨rfl, rfl, hr, .socket hpk⟩
      | some fd =>
        by_cases hl : (⟨table, p, .socket (left + 1), log⟩ :
            State (List PollFd) ℕ).lowest inherited fd
        · have hl' : (⟨table, regs, .socket (left + 1), log⟩ :
            State SelectRegs (Option Fd)).lowest inherited fd := hl
          have hadd := RegsAgree.add hr fun x hx => hpk.lt hl hx
          simp only [selectRegistry, pollRegistry, if_pos hl, if_pos hl', if_pos (hsmall fd rfl)]
          exact .some ⟨rfl, rfl, hadd, .connect (hpk.accept hl)⟩
        · have hl' : ¬ (⟨table, regs, .socket (left + 1), log⟩ :
            State SelectRegs (Option Fd)).lowest inherited fd := hl
          simp only [if_neg hl, if_neg hl']
          exact .none
  | _ => exact .none

theorem Agree.wait (h : Agree inherited s t) (rs ws : List Fd) :
    Option.Rel (Agree inherited) (SelectClient inherited s (.wait rs ws))
      (PollClient inherited t (.wait rs ws)) := by
  obtain ⟨table, regs, point, log⟩ := s
  obtain ⟨table', p, point', log'⟩ := t
  obtain ⟨rfl, rfl, hr, hp⟩ := h
  simp only at hr hp
  simp only [SelectClient, PollClient, client]
  cases hp with
  | wait =>
    refine rel_map (hr.report rs ws) fun regs' p' hrep => ⟨rfl, rfl, hrep.1, ?_⟩
    change PointAgree _ _ p' (.write regs'.sets.fds.head?) (.write 0)
    rw [hrep.1.head]
    exact .write hrep.2
  | _ => exact .none

theorem Agree.dispatch (h : Agree inherited s t) :
    Option.Rel (Agree inherited) (SelectClient inherited s .dispatch)
      (PollClient inherited t .dispatch) := by
  obtain ⟨table, regs, point, log⟩ := s
  obtain ⟨table', p, point', log'⟩ := t
  obtain ⟨rfl, rfl, hr, hp⟩ := h
  simp only at hr hp
  simp only [SelectClient, PollClient, client]
  cases hp with
  | @socket left hpk =>
    cases left with
    | zero => exact .some ⟨rfl, rfl, hr, .wait⟩
    | succ left => exact .none
  | @write i hf =>
    cases hi : p[i]? with
    | none =>
      simp only [selectRegistry, pollRegistry, hi, Option.map_none]
      rw [hr.head]
      exact .some ⟨rfl, rfl, hr, .read hf⟩
    | some e =>
      have he := (hf e (List.mem_of_getElem? hi)).2
      have hnext := hr.next hi
      simp only [selectRegistry, pollRegistry, hi, Option.map_some, Option.any_some, he,
        Option.bind_some, hnext]
      split
      · exact .none
      · exact .some ⟨rfl, rfl, hr, .write hf⟩
  | @read i hf =>
    cases hi : p[i]? with
    | none =>
      simp only [selectRegistry, pollRegistry, hi, Option.map_none]
      exact .some ⟨rfl, rfl, hr, .wait⟩
    | some e =>
      have he := (hf e (List.mem_of_getElem? hi)).1
      have hnext := hr.next hi
      simp only [selectRegistry, pollRegistry, hi, Option.map_some, Option.any_some, he,
        Option.bind_some, hnext]
      split
      · exact .none
      · exact .some ⟨rfl, rfl, hr, .read hf⟩
  | _ => exact .none

theorem Agree.getsockopt (h : Agree inherited s t) (res : Option ℕ) :
    Option.Rel (Agree inherited) (SelectClient inherited s (.getsockopt res))
      (PollClient inherited t (.getsockopt res)) := by
  obtain ⟨table, regs, point, log⟩ := s
  obtain ⟨table', p, point', log'⟩ := t
  obtain ⟨rfl, rfl, hr, hp⟩ := h
  simp only at hr hp
  simp only [SelectClient, PollClient, client]
  cases hp with
  | @write i hf =>
    cases hi : p[i]? with
    | none =>
      simp only [selectRegistry, pollRegistry, hi, Option.map_none]
      exact .none
    | some e =>
      have he := (hf e (List.mem_of_getElem? hi)).2
      have hnext := hr.next hi
      simp only [selectRegistry, pollRegistry, hi, Option.map_some, Option.any_some, he,
        Option.bind_some, hnext]
      split
      · refine .some ⟨rfl, rfl, hr, ?_⟩
        simp only [State.call]
        split
        · rw [← Option.map_some, ← hi]
          exact .send hf
        · exact .write hf
      · exact .none
  | _ => exact .none

theorem Agree.send (h : Agree inherited s t) (res : Option ℕ) :
    Option.Rel (Agree inherited) (SelectClient inherited s (.send res))
      (PollClient inherited t (.send res)) := by
  obtain ⟨table, regs, point, log⟩ := s
  obtain ⟨table', p, point', log'⟩ := t
  obtain ⟨rfl, rfl, hr, hp⟩ := h
  simp only at hr hp
  simp only [SelectClient, PollClient, client]
  cases hp with
  | @send i hf =>
    cases hi : p[i]? with
    | none =>
      simp only [selectRegistry, pollRegistry, hi, Option.map_none]
      exact .none
    | some e =>
      have hnext := hr.next hi
      simp only [selectRegistry, pollRegistry, hi, Option.map_some, Option.bind_some, hnext]
      exact .some ⟨rfl, rfl, hr, .write hf⟩
  | _ => exact .none

theorem Agree.recv (h : Agree inherited s t) (res : Recv) :
    Option.Rel (Agree inherited) (SelectClient inherited s (.recv res))
      (PollClient inherited t (.recv res)) := by
  obtain ⟨table, regs, point, log⟩ := s
  obtain ⟨table', p, point', log'⟩ := t
  obtain ⟨rfl, rfl, hr, hp⟩ := h
  simp only at hr hp
  simp only [SelectClient, PollClient, client]
  cases hp with
  | @read i hf =>
    cases hi : p[i]? with
    | none =>
      simp only [selectRegistry, pollRegistry, hi, Option.map_none]
      exact .none
    | some e =>
      have he := (hf e (List.mem_of_getElem? hi)).1
      have hnext := hr.next hi
      simp only [selectRegistry, pollRegistry, hi, Option.map_some, Option.any_some, he,
        Option.bind_some, hnext]
      split
      · split
        · obtain ⟨hlt, -⟩ := List.getElem?_eq_some_iff.mp hi
          have hafter : (p.eraseIdx i)[i]? = p[i + 1]? := by
            rw [List.getElem?_eraseIdx_of_ge (le_refl i)]
          refine .some ⟨rfl, rfl, hr.erase hi, ?_⟩
          change PointAgree _ _ _ (.close e.fd (nextFd e.fd regs.sets.fds)) (.close e.fd i)
          rw [hnext, ← hafter]
          exact .close hf.erase
        · exact .some ⟨rfl, rfl, hr, .read hf⟩
      · exact .none
  | _ => exact .none

/-- **The step lemma.** -/
theorem agree_step (h : Agree inherited s t) {a : Act} (hne : a ≠ .timeout)
    (hsmall : ∀ fd, a = .socket (some fd) → fd < FD_SETSIZE) :
    Option.Rel (Agree inherited) (SelectClient inherited s a) (PollClient inherited t a) := by
  cases a with
  | socket res => exact h.socket fun fd hfd => hsmall fd (by rw [hfd])
  | wait rs ws => exact h.wait rs ws
  | dispatch => exact h.dispatch
  | getsockopt res => exact h.getsockopt res
  | send res => exact h.send res
  | recv res => exact h.recv res
  | connect =>
    obtain ⟨table, regs, point, log⟩ := s
    obtain ⟨table', p, point', log'⟩ := t
    obtain ⟨rfl, rfl, hr, hp⟩ := h
    simp only at hr hp
    cases hp with
    | connect hpk => exact .some ⟨rfl, rfl, hr, .socket hpk⟩
    | _ => exact .none
  | timeout => exact absurd rfl hne
  | waitFail =>
    obtain ⟨table, regs, point, log⟩ := s
    obtain ⟨table', p, point', log'⟩ := t
    obtain ⟨rfl, rfl, hr, hp⟩ := h
    simp only at hr hp
    cases hp with
    | wait => exact .some ⟨rfl, rfl, hr, .exited⟩
    | _ => exact .none
  | close =>
    obtain ⟨table, regs, point, log⟩ := s
    obtain ⟨table', p, point', log'⟩ := t
    obtain ⟨rfl, rfl, hr, hp⟩ := h
    simp only at hr hp
    cases hp with
    | close hf => exact .some ⟨rfl, rfl, hr, .read hf⟩
    | _ => exact .none

end Step

/-! ## Whole runs -/

/-- The numbers of the sockets have a bit in an `fd_set`. -/
def Small (as : List Act) : Prop := ∀ fd, .socket (some fd) ∈ as → fd < FD_SETSIZE

/-- The steps without the timeouts of `select`. -/
def awake (as : List Act) : List Act := as.filter (· ≠ .timeout)

section Runs

variable {inherited : List Fd} {as : List Act} {s : State SelectRegs (Option Fd)}
  {t : State (List PollFd) ℕ}

/-- Without a timeout, the poll client follows. -/
theorem agree_of_step {a : Act} {s' : State SelectRegs (Option Fd)} (h : Agree inherited s t)
    (hne : a ≠ .timeout) (hsmall : ∀ fd, a = .socket (some fd) → fd < FD_SETSIZE)
    (hs : SelectClient inherited s a = some s') :
    ∃ t', PollClient inherited t a = some t' ∧ Agree inherited s' t' := by
  have hrel := agree_step h hne hsmall
  rw [hs] at hrel
  exact exists_right hrel

theorem agree_of_select (hsmall : Small as) {s₀ : State SelectRegs (Option Fd)}
    {t₀ : State (List PollFd) ℕ} {G : State SelectRegs (Option Fd) → Act → Prop}
    {H : State (List PollFd) ℕ → Act → Prop} (h0 : Agree inherited s₀ t₀)
    (hGH : ∀ s t a, Agree inherited s t → G s a → H t a)
    (h : Run (SelectClient inherited) G s₀ as s) :
    ∃ t, Run (PollClient inherited) H t₀ (awake as) t ∧ Agree inherited s t := by
  induction h with
  | nil => exact ⟨t₀, .nil, h0⟩
  | @snoc as s s' a _ hg hs ih =>
    obtain ⟨t, ht, hst⟩ := ih fun fd hm => hsmall fd (List.mem_append_left _ hm)
    by_cases hne : a = .timeout
    · -- the client waits again
      subst hne
      cases outcome_of_client hs with
      | timeout _ _ => exact ⟨t, by simpa [awake] using ht, hst⟩
    · obtain ⟨t', hp, hst'⟩ := agree_of_step hst hne (fun fd e => hsmall fd (by simp [e])) hs
      have hawake : awake (as ++ [a]) = awake as ++ [a] := by simp [awake, hne]
      exact ⟨t', hawake ▸ ht.snoc (hGH s t a hst hg) hp, hst'⟩

theorem agree_of_poll (hsmall : Small as)
    (h : Run (PollClient inherited) free (init pollRegistry) as t) :
    ∃ s, Run (SelectClient inherited) free (init selectRegistry) as s ∧ Agree inherited s t := by
  induction h with
  | nil => exact ⟨_, .nil, agree_init⟩
  | @snoc as t t' a _ _ ht ih =>
    obtain ⟨s, hs, hst⟩ := ih fun fd hm => hsmall fd (List.mem_append_left _ hm)
    have hne : a ≠ .timeout := by
      rintro rfl
      cases outcome_of_client ht with
      | timeout _ hl => cases hl
    have hrel := agree_step hst hne fun fd e => hsmall fd (by simp [e])
    rw [ht] at hrel
    obtain ⟨s', hp, hst'⟩ := exists_left hrel
    exact ⟨s', hs.snoc trivial hp, hst'⟩

/-- A client that has not written behind an `fd_set` has only small numbers. -/
theorem small_of_run {G : State SelectRegs (Option Fd) → Act → Prop}
    {s₀ : State SelectRegs (Option Fd)} (h : Run (SelectClient inherited) G s₀ as s)
    (hp : s.point ≠ .undefined) : Small as := by
  induction h with
  | nil => exact fun fd hm => by cases hm
  | @snoc as s s' a _ _ hs ih =>
    have ho := outcome_of_client hs
    have hold : s.point ≠ .undefined := by
      intro e
      cases ho <;> simp_all
    intro fd hm
    rcases List.mem_append.mp hm with hm | hm
    · exact ih hold fd hm
    · obtain rfl := List.mem_singleton.mp hm
      cases ho with
      | socket _ _ hadd =>
        simp only [selectRegistry, Option.ite_none_right_eq_some] at hadd
        exact hadd.1
      | overflow _ _ => exact absurd rfl hp

/-- **The select client and the poll client are interchangeable**: what the select client does, the
poll client does without the timeouts, and what the poll client does, the select client does too;
they then have made the same calls, with the same sockets behind them and the same open at the
end. -/
theorem selectClient_iff_pollClient (hsmall : Small as) :
    ((∃ s, Run (SelectClient inherited) free (init selectRegistry) as s) →
      ∃ t, Run (PollClient inherited) free (init pollRegistry) (awake as) t) ∧
    ((∃ t, Run (PollClient inherited) free (init pollRegistry) as t) →
      ∃ s, Run (SelectClient inherited) free (init selectRegistry) as s) ∧
    ∀ s t, Run (SelectClient inherited) free (init selectRegistry) as s →
      Run (PollClient inherited) free (init pollRegistry) (awake as) t →
      s.log = t.log ∧ s.table = t.table := by
  refine ⟨?_, ?_, ?_⟩
  · rintro ⟨s, hs⟩
    obtain ⟨t, ht, -⟩ := agree_of_select (H := free) hsmall agree_init (fun _ _ _ _ _ => trivial) hs
    exact ⟨t, ht⟩
  · rintro ⟨t, ht⟩
    obtain ⟨s, hs, -⟩ := agree_of_poll hsmall ht
    exact ⟨s, hs⟩
  · intro s t hs ht
    obtain ⟨t', ht', hst⟩ :=
      agree_of_select (H := free) hsmall agree_init (fun _ _ _ _ _ => trivial) hs
    obtain rfl := ht.unique ht'
    exact ⟨hst.log, hst.table⟩

/-- Two sockets; `select` times out once, then the first becomes writable and the second is closed
by the server. -/
def twoSockets : List Act :=
  [.socket (some 3), .connect, .socket none, .socket (some 4), .connect, .socket none, .socket none,
    .dispatch, .timeout, .wait [4] [3], .getsockopt (some 0), .send (some 1024), .dispatch,
    .dispatch, .dispatch, .recv .eof, .close, .dispatch]

theorem twoSockets_small : Small twoSockets := by
  intro fd hm
  simp [twoSockets] at hm
  rcases hm with rfl | rfl <;> decide

theorem selectClient_iff_pollClient_two : ∃ s t,
    Run (SelectClient [0, 1, 2]) free (init selectRegistry) twoSockets s ∧
    Run (PollClient [0, 1, 2]) free (init pollRegistry) (awake twoSockets) t ∧ s.log = t.log ∧
      s.regs.sets.fds = [3] := by
  obtain ⟨s, hs, hr⟩ : ∃ s, Run (SelectClient [0, 1, 2]) free (init selectRegistry) twoSockets s ∧
      s.regs.sets.fds = [3] := Run.exists_of_exec _ _ (by decide)
  obtain ⟨hpoll, -, hagree⟩ := @selectClient_iff_pollClient [0, 1, 2] _ twoSockets_small
  obtain ⟨t, ht⟩ := hpoll ⟨s, hs⟩
  exact ⟨s, t, hs, ht, (hagree s t hs ht).1, hr⟩

end Runs

end PracticeCode.MultiplexClient
