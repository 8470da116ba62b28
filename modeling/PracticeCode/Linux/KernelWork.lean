import PracticeCode.Linux.KernelWf
import Mathlib.Algebra.Order.BigOperators.Group.Finset
import Mathlib.Data.Set.Card

/-!
# What the kernel has still to hand over

A process has finitely many numbers open, and an edge is on a registered one (`Bounded`).  So the
edges that `epoll_wait` has not returned can be counted (`edges`), and so can the bytes that are
unread (`unread`) and the units of the eventfds (`units`).  The calls that hand something over take
these counts down; of the calls of a server only `EPOLL_CTL_ADD`, which may raise one edge, and a
`write` to an eventfd, which adds a unit, take them up.
-/

namespace PracticeCode.Linux.Kernel

variable {α : Type} {k k' : Kernel α} {fd : Fd} {c : Conn} {f : File} {n : ℕ}

structure Bounded (k : Kernel α) : Prop where
  finite : {fd | k.files fd ≠ none}.Finite
  edge_reg : ∀ {fd}, k.edge fd = true → (k.reg fd).isSome

/-- The edges that `epoll_wait` has not returned. -/
noncomputable def edges (k : Kernel α) : ℕ := {fd | k.edge fd = true}.ncard

/-- The bytes that the server has not read. -/
def unread (k : Kernel α) : ℕ := ∑ c ∈ Finset.range k.conns, (k.inbox c).length

/-- The units that the eventfds count. -/
def units (k : Kernel α) : ℕ := ∑ c ∈ Finset.range k.conns, k.counter c

/-! ## Every call keeps the table finite -/

theorem boot_bounded (efd sfd : Fd) (listen : α) : (boot efd sfd listen).Bounded where
  finite := by
    refine Set.Finite.subset ((Set.finite_lt_nat 3).union ((Set.finite_singleton efd).union
      (Set.finite_singleton sfd))) fun fd hfd => ?_
    simp only [boot, Set.mem_ofPred_eq] at hfd
    simp only [Set.mem_union, Set.mem_ofPred_eq, Set.mem_singleton_iff]
    grind
  edge_reg h := by cases h

theorem Bounded.congr (h : k.Bounded) (hf : k'.files = k.files) (hr : k'.reg = k.reg)
    (he : k'.edge = k.edge) : k'.Bounded := by
  constructor
  · rw [hf]
    exact h.finite
  · intro fd hfd
    rw [hr]
    rw [he] at hfd
    exact h.edge_reg hfd

/-- Something arrives, and edges are raised. -/
theorem Bounded.arrival (h : k.Bounded) (hf : k'.files = k.files) (hr : k'.reg = k.reg)
    (he : k'.edge = k.edge) : (k'.raise f).Bounded := by
  have h' := h.congr hf hr he
  refine ⟨h'.finite, fun hfd => ?_⟩
  simp only [Kernel.raise, Bool.or_eq_true, Bool.and_eq_true] at hfd
  rcases hfd with hfd | ⟨-, hfd⟩
  · exact h'.edge_reg hfd
  · exact hfd

theorem Bounded.connect (h : k.Bounded) : k.connect.Bounded := h.arrival rfl rfl rfl

theorem Bounded.clientSend {bytes : List UInt8} (h : k.Bounded)
    (hs : k.clientSend c bytes = some k') : k'.Bounded := by
  obtain ⟨-, -, rfl⟩ := clientSend_eq_some hs
  exact h.arrival rfl rfl rfl

theorem Bounded.clientClose (h : k.Bounded) (hs : k.clientClose c = some k') : k'.Bounded := by
  obtain ⟨-, -, rfl⟩ := clientClose_eq_some hs
  exact h.arrival rfl rfl rfl

theorem finite_update (h : {fd | k.files fd ≠ none}.Finite) (fd : Fd) (o : Option File) :
    {fd' | Function.update k.files fd o fd' ≠ none}.Finite := by
  refine (h.insert fd).subset fun fd' hfd => ?_
  by_cases e : fd' = fd
  · exact Set.mem_insert_iff.mpr (.inl e)
  · refine Set.mem_insert_of_mem _ ?_
    simpa [Function.update_of_ne e] using hfd

theorem Bounded.accept {lfd : Fd} {p : Conn × Kernel α} (h : k.Bounded)
    (ha : k.accept lfd fd = some p) : p.2.Bounded := by
  obtain ⟨rest, -, -, hp⟩ := accept_eq_some ha
  rw [hp]
  exact ⟨finite_update h.finite fd _, h.edge_reg⟩

theorem Bounded.recv (h : k.Bounded) {r : RecvResult} (hr : k.recv fd n = (r, k')) :
    k'.Bounded := by
  obtain rfl : k' = (k.recv fd n).2 := by rw [hr]
  refine h.congr (by simp) (by simp) ?_
  unfold Kernel.recv
  grind

theorem Bounded.eventfd (h : k.Bounded) (he : k.eventfd fd c = some k') : k'.Bounded := by
  obtain ⟨-, rfl⟩ := eventfd_eq_some he
  exact ⟨finite_update h.finite fd _, h.edge_reg⟩

theorem Bounded.readU64 (h : k.Bounded) (fd : Fd) : (k.readU64 fd).2.Bounded :=
  h.congr readU64_files readU64_reg readU64_edge

theorem Bounded.writeU64 (h : k.Bounded) (fd : Fd) : (k.writeU64 fd).Bounded := by
  unfold Kernel.writeU64
  split
  · split
    · exact h.arrival rfl rfl rfl
    · exact h
  · exact h

theorem update_edge_reg (h : k.Bounded) (fd : Fd) {fd' : Fd}
    (hfd : Function.update k.edge fd false fd' = true) :
    (Function.update k.reg fd none fd').isSome := by
  rw [Function.update_apply] at hfd ⊢
  split at hfd
  · cases hfd
  · rw [if_neg ‹_›]
    exact h.edge_reg hfd

theorem Bounded.close (h : k.Bounded) (fd : Fd) : (k.close fd).Bounded where
  finite := finite_update h.finite fd none
  edge_reg hfd := update_edge_reg h fd hfd

theorem Bounded.ctlDel (h : k.Bounded) (hk : k.ctlDel fd = some k') : k'.Bounded := by
  obtain ⟨-, rfl⟩ := ctlDel_eq_some hk
  exact ⟨h.finite, fun hfd => update_edge_reg h fd hfd⟩

theorem Bounded.ctlAdd {data : α} (h : k.Bounded) (hk : k.ctlAdd fd data = some k') :
    k'.Bounded := by
  obtain ⟨-, -, rfl⟩ := ctlAdd_eq_some hk
  refine ⟨h.finite, fun {fd'} hfd => ?_⟩
  simp only [Function.update_apply] at hfd ⊢
  split
  · rfl
  · rw [if_neg ‹_›] at hfd
    exact h.edge_reg hfd

theorem Bounded.epollWait {m : ℕ} {fds : List Fd} {p : List (α × Bool) × Kernel α}
    (h : k.Bounded) (hk : k.epollWait m fds = some p) : p.2.Bounded := by
  obtain ⟨-, -, -, hp⟩ := epollWait_eq_some hk
  rw [hp]
  refine ⟨h.finite, fun hfd => h.edge_reg ?_⟩
  rw [Bool.and_eq_true] at hfd
  exact hfd.1

theorem exit_bounded (k : Kernel α) : k.exit.Bounded where
  finite := by simp [exit]
  edge_reg h := by cases h

@[simp] theorem exit_edges (k : Kernel α) : k.exit.edges = 0 := by
  simp [edges, exit]

@[simp] theorem exit_unread (k : Kernel α) : k.exit.unread = k.unread := rfl

@[simp] theorem exit_units (k : Kernel α) : k.exit.units = k.units := rfl

@[simp] theorem exit_backlog (k : Kernel α) : k.exit.backlog = k.backlog := rfl

/-- There is always a number to give. -/
theorem Bounded.exists_lowestFree (h : k.Bounded) : ∃ fd, k.LowestFree fd := by
  have hex : ∃ fd, k.files fd = none := by
    obtain ⟨fd, hfd⟩ := h.finite.exists_notMem
    exact ⟨fd, by simpa using hfd⟩
  classical
  exact ⟨Nat.find hex, Nat.find_spec hex, fun m hm => Nat.find_min hex hm⟩

/-! ## Edges -/

theorem Bounded.finite_edges (h : k.Bounded) (hk : k.Wf) : {fd | k.edge fd = true}.Finite := by
  refine h.finite.subset fun fd hfd hnone => ?_
  have hreg := h.edge_reg hfd
  rw [hk.reg_open hnone] at hreg
  cases hreg

/-- `epoll_wait` hands over the edges it returns. -/
theorem edges_epollWait {m : ℕ} {fds : List Fd} {p : List (α × Bool) × Kernel α} (h : k.Bounded)
    (hk : k.Wf) (hw : k.epollWait m fds = some p) :
    p.1.length + p.2.edges ≤ k.edges ∧ p.2.edges < k.edges := by
  have hne : fds ≠ [] := by
    simp only [Kernel.epollWait, Option.ite_none_right_eq_some] at hw
    exact hw.1.1
  obtain ⟨hnd, hedge, hevs, hp⟩ := epollWait_eq_some hw
  have hfin := h.finite_edges hk
  have hset : {fd | p.2.edge fd = true} = {fd | k.edge fd = true} \ (fds.toFinset : Set Fd) := by
    ext fd
    simp [hp]
  have hsub : (fds.toFinset : Set Fd) ⊆ {fd | k.edge fd = true} := fun fd hfd =>
    hedge fd (by simpa using hfd)
  have hcard : p.2.edges + fds.length = k.edges := by
    unfold edges
    rw [hset, ← List.toFinset_card_of_nodup hnd, ← Set.ncard_coe_finset]
    exact Set.ncard_sdiff_add_ncard_of_subset hsub hfin
  have hlen : p.1.length ≤ fds.length := by
    rw [hevs]
    exact List.length_filterMap_le _ _
  have := List.length_pos_of_ne_nil hne
  omega

/-- Where there is no edge, `epoll_wait` waits. -/
theorem epollWait_of_quiet (h : ∀ fd, k.edge fd = false) (m : ℕ) (fds : List Fd) :
    k.epollWait m fds = none := by
  refine if_neg fun hw => ?_
  obtain ⟨fd, hfd⟩ := List.exists_mem_of_ne_nil fds hw.1
  exact Bool.false_ne_true ((h fd).symm.trans (hw.2.2.2 fd hfd))

theorem edges_update_false (h : k.Bounded) (hk : k.Wf) (fd : Fd) :
    {fd' | Function.update k.edge fd false fd' = true}.ncard ≤ k.edges := by
  refine Set.ncard_le_ncard (fun fd' hfd => ?_) (h.finite_edges hk)
  by_cases e : fd' = fd
  · simp [e] at hfd
  · simpa [Function.update_of_ne e] using hfd

theorem edges_close_le (h : k.Bounded) (hk : k.Wf) (fd : Fd) : (k.close fd).edges ≤ k.edges :=
  edges_update_false h hk fd

theorem edges_ctlDel_le (h : k.Bounded) (hk : k.Wf) (hd : k.ctlDel fd = some k') :
    k'.edges ≤ k.edges := by
  obtain ⟨-, rfl⟩ := ctlDel_eq_some hd
  exact edges_update_false h hk fd

theorem edges_ctlAdd_le {data : α} (h : k.Bounded) (hk : k.Wf) (ha : k.ctlAdd fd data = some k') :
    k'.edges ≤ k.edges + 1 := by
  obtain ⟨-, -, rfl⟩ := ctlAdd_eq_some ha
  have hsub : {fd' | Function.update k.edge fd (k.readyFd fd) fd' = true} ⊆
      insert fd {fd | k.edge fd = true} := by
    intro fd' hfd
    by_cases e : fd' = fd
    · exact Set.mem_insert_iff.mpr (.inl e)
    · exact Set.mem_insert_of_mem _ (by simpa [Function.update_of_ne e] using hfd)
  exact (Set.ncard_le_ncard hsub ((h.finite_edges hk).insert fd)).trans (Set.ncard_insert_le _ _)

/-- A `write` raises the edge of the one number that refers to the eventfd. -/
theorem edges_writeU64_le (h : k.Bounded) (hk : k.Wf) (fd : Fd) :
    (k.writeU64 fd).edges ≤ k.edges + 1 := by
  unfold writeU64
  split
  · rename_i c hf
    split
    · have hsub : {fd' | (raise { k with
          counter := Function.update k.counter c (k.counter c + 1) } (.event c)).edge fd' = true} ⊆
          insert fd {fd | k.edge fd = true} := by
        intro fd' hfd
        simp only [raise, Set.mem_ofPred_eq, Bool.or_eq_true, Bool.and_eq_true,
          decide_eq_true_eq] at hfd
        rcases hfd with hfd | ⟨hf', -⟩
        · exact Set.mem_insert_of_mem _ hfd
        · exact Set.mem_insert_iff.mpr (.inl (hk.event_inj hf' hf))
      exact (Set.ncard_le_ncard hsub ((h.finite_edges hk).insert fd)).trans
        (Set.ncard_insert_le _ _)
    · exact Nat.le_succ _
  · exact Nat.le_succ _

/-! ## Unread bytes -/

theorem unread_drop (hc : c < k.conns) (hn : 0 < n) (hne : k.inbox c ≠ []) :
    ∑ d ∈ Finset.range k.conns, (Function.update k.inbox c ((k.inbox c).drop n) d).length <
      k.unread := by
  have hlen := List.length_pos_of_ne_nil hne
  refine Finset.sum_lt_sum (fun d _ => ?_) ⟨c, Finset.mem_range.mpr hc, ?_⟩
  · rw [Function.update_apply]
    split
    · rename_i e
      rw [e, List.length_drop]
      exact Nat.sub_le _ _
    · exact le_refl _
  · rw [Function.update_self, List.length_drop]
    omega

theorem unread_recv {chunk : List UInt8} (hk : k.Wf) (hr : k.recv fd n = (.data c chunk, k'))
    (hne : chunk ≠ []) : k'.unread < k.unread := by
  obtain ⟨hf, hne', hchunk, rfl⟩ := recv_eq_data hr
  have hn : 0 < n := by
    rw [Nat.pos_iff_ne_zero]
    rintro rfl
    exact hne hchunk
  exact unread_drop (hk.conn_lt hf) hn hne'

/-! ## Units -/

theorem units_eventfd_le (he : k.eventfd fd c = some k') : k'.units ≤ k.units := by
  obtain ⟨-, rfl⟩ := eventfd_eq_some he
  refine Finset.sum_le_sum fun d _ => ?_
  simp only [Function.update_apply]
  split
  · exact Nat.zero_le _
  · exact le_refl _

theorem units_writeU64_le (fd : Fd) : (k.writeU64 fd).units ≤ k.units + 1 := by
  unfold writeU64
  split
  · rename_i c hf
    split
    · have hsum : ∀ d, Function.update k.counter c (k.counter c + 1) d =
          k.counter d + if d = c then 1 else 0 := by
        intro d
        rw [Function.update_apply]
        split
        · rename_i e
          rw [e]
        · rfl
      change ∑ d ∈ Finset.range k.conns, Function.update k.counter c (k.counter c + 1) d ≤ _
      simp only [hsum, Finset.sum_add_distrib, Finset.sum_ite_eq', units]
      split <;> omega
    · exact Nat.le_succ _
  · exact Nat.le_succ _

/-- A `read` of an eventfd takes a unit, and one of a socket takes bytes. -/
theorem taken_readU64 (hk : k.Wf) (hlt : ∀ {fd} {c : ℕ}, k.files fd = some (.event c) → c < k.conns)
    {r : ReadResult} (hr : k.readU64 fd = (r, k')) : k'.unread ≤ k.unread ∧ k'.units ≤ k.units ∧
      (r = .ok → k'.unread + k'.units < k.unread + k.units) := by
  unfold readU64 at hr
  split at hr
  · rename_i c hf
    split at hr
    · rename_i hpos
      obtain ⟨rfl, rfl⟩ := Prod.mk.inj hr
      have hunits : (∑ d ∈ Finset.range k.conns, Function.update k.counter c (k.counter c - 1) d) <
          k.units := by
        refine Finset.sum_lt_sum (fun d _ => ?_) ⟨c, Finset.mem_range.mpr (hlt hf), ?_⟩
        · rw [Function.update_apply]
          split
          · rename_i e
            rw [e]
            exact Nat.sub_le _ _
          · exact le_refl _
        · rw [Function.update_self]
          omega
      exact ⟨le_refl _, hunits.le, fun _ => Nat.add_lt_add_left hunits _⟩
    · obtain ⟨rfl, rfl⟩ := Prod.mk.inj hr
      exact ⟨le_refl _, le_refl _, nofun⟩
  · rename_i c hf
    split at hr
    · rename_i hne
      obtain ⟨rfl, rfl⟩ := Prod.mk.inj hr
      have hunread := unread_drop (hk.conn_lt hf) (Nat.succ_pos 7) hne
      exact ⟨hunread.le, le_refl _, fun _ => Nat.add_lt_add_right hunread _⟩
    · split at hr <;>
      · obtain ⟨rfl, rfl⟩ := Prod.mk.inj hr
        exact ⟨le_refl _, le_refl _, nofun⟩
  · obtain ⟨rfl, rfl⟩ := Prod.mk.inj hr
    exact ⟨le_refl _, le_refl _, nofun⟩

end PracticeCode.Linux.Kernel
