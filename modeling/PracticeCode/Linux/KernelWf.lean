import PracticeCode.Linux.Kernel

/-!
# What the system calls keep

`Kernel.Wf` is the consistency of the descriptor table, the backlog and the interest list; every
system call keeps it.  The frame lemmas say which parts a call leaves alone, and each call that
changes the table or the interest list has one lemma (`accept_eq_some`, `ctlAdd_eq_some`, …) that
says everything it did.
-/

namespace PracticeCode.Linux.Kernel

variable {α : Type} {k k' : Kernel α} {fd fd' : Fd} {c : Conn} {f : File} {n : ℕ}

/-! ## Frames -/

@[simp] theorem raise_counter : (k.raise f).counter = k.counter := rfl

/-- An edge that is there stays. -/
theorem raise_edge_of_edge (h : k.edge fd = true) : (k.raise f).edge fd = true := by
  simp [raise, h]

/-- The arrival raises the edge of a registered descriptor of the file. -/
theorem raise_edge_self (hf : k.files fd = some f) (hr : (k.reg fd).isSome) :
    (k.raise f).edge fd = true := by
  simp [raise, hf, hr]

@[simp] theorem recv_files : (k.recv fd n).2.files = k.files := by unfold recv; grind
@[simp] theorem recv_backlog : (k.recv fd n).2.backlog = k.backlog := by unfold recv; grind
@[simp] theorem recv_conns : (k.recv fd n).2.conns = k.conns := by unfold recv; grind
@[simp] theorem recv_reg : (k.recv fd n).2.reg = k.reg := by unfold recv; grind

@[simp] theorem readU64_files : (k.readU64 fd).2.files = k.files := by unfold readU64; grind
@[simp] theorem readU64_backlog : (k.readU64 fd).2.backlog = k.backlog := by unfold readU64; grind
@[simp] theorem readU64_conns : (k.readU64 fd).2.conns = k.conns := by unfold readU64; grind
@[simp] theorem readU64_reg : (k.readU64 fd).2.reg = k.reg := by unfold readU64; grind
@[simp] theorem readU64_eof : (k.readU64 fd).2.eof = k.eof := by unfold readU64; grind
@[simp] theorem readU64_edge : (k.readU64 fd).2.edge = k.edge := by unfold readU64; grind

@[simp] theorem writeU64_files : (k.writeU64 fd).files = k.files := by
  unfold writeU64; grind [raise]
@[simp] theorem writeU64_backlog : (k.writeU64 fd).backlog = k.backlog := by
  unfold writeU64; grind [raise]
@[simp] theorem writeU64_conns : (k.writeU64 fd).conns = k.conns := by
  unfold writeU64; grind [raise]
@[simp] theorem writeU64_eof : (k.writeU64 fd).eof = k.eof := by unfold writeU64; grind [raise]
@[simp] theorem writeU64_reg : (k.writeU64 fd).reg = k.reg := by unfold writeU64; grind [raise]

/-! ## What a call did -/

/-- A `read` returns 8 bytes on an eventfd with a unit left, or on a socket. -/
theorem readU64_eq_ok (h : k.readU64 fd = (.ok, k')) :
    (∃ c, k.files fd = some (.event c) ∧ 0 < k.counter c ∧
      k' = { k with counter := Function.update k.counter c (k.counter c - 1) }) ∨
    ∃ c, k.files fd = some (.sock c) := by
  unfold readU64 at h
  split at h
  · rename_i c hf
    split at h
    · rename_i hc
      cases h
      exact .inl ⟨c, hf, hc, rfl⟩
    · cases h
  · rename_i c hf
    exact .inr ⟨c, hf⟩
  · cases h

/-- `read` takes at most one unit of a counter. -/
theorem readU64_counter_le (c : Conn) : (k.readU64 fd).2.counter c ≤ k.counter c := by
  unfold readU64
  split
  · split
    · dsimp only
      rw [Function.update_apply]
      split
      · rename_i e
        rw [e]
        exact Nat.sub_le ..
      · exact Nat.le_refl _
    · exact Nat.le_refl _
  · split
    · exact Nat.le_refl _
    · split <;> exact Nat.le_refl _
  · exact Nat.le_refl _

theorem writeU64_edge_of_edge (h : k.edge fd' = true) : (k.writeU64 fd).edge fd' = true := by
  unfold writeU64
  split
  · split
    · exact raise_edge_of_edge h
    · exact h
  · exact h

/-- Only the counter of the eventfd that `fd` refers to is raised. -/
theorem writeU64_counter_lt (h : k.counter c < (k.writeU64 fd).counter c) :
    k.files fd = some (.event c) := by
  unfold writeU64 at h
  split at h
  · rename_i c' hf
    split at h
    · simp only [raise_counter, Function.update_apply] at h
      split at h
      · rename_i e
        rw [hf, e]
      · exact absurd h (Nat.lt_irrefl _)
    · exact absurd h (Nat.lt_irrefl _)
  · exact absurd h (Nat.lt_irrefl _)

theorem accept_eq_some {lfd : Fd} {p : Conn × Kernel α} (h : k.accept lfd fd = some p) :
    ∃ rest, k.backlog = p.1 :: rest ∧ k.files fd = none ∧
      p.2 = { k with backlog := rest, files := Function.update k.files fd (some (.sock p.1)) } := by
  unfold accept at h
  split at h
  · cases h
  · rename_i c rest hb
    split at h
    · rename_i hf
      cases h
      exact ⟨rest, hb, hf.2, rfl⟩
    · cases h

theorem accept_listening {lfd : Fd} {p : Conn × Kernel α} (h : k.accept lfd fd = some p) :
    k.files lfd = some .listening := by
  unfold accept at h
  split at h
  · cases h
  · split at h
    · rename_i hf
      exact hf.1
    · cases h

theorem eventfd_eq_some (h : k.eventfd fd c = some k') :
    k.files fd = none ∧ k' = { k with
      files := Function.update k.files fd (some (.event c))
      counter := Function.update k.counter c 0 } := by
  unfold eventfd at h
  split at h
  · rename_i hf
    cases h
    exact ⟨hf, rfl⟩
  · cases h

theorem ctlAdd_eq_some {data : α} (h : k.ctlAdd fd data = some k') :
    k.files fd ≠ none ∧ k.reg fd = none ∧ k' = { k with
      reg := Function.update k.reg fd (some data)
      edge := Function.update k.edge fd (k.readyFd fd) } := by
  unfold ctlAdd at h
  split at h
  · rename_i hf
    cases h
    exact ⟨hf.1, Option.isNone_iff_eq_none.mp hf.2, rfl⟩
  · cases h

theorem ctlDel_eq_some (h : k.ctlDel fd = some k') :
    k.files fd ≠ none ∧ k' = { k with
      reg := Function.update k.reg fd none
      edge := Function.update k.edge fd false } := by
  unfold ctlDel at h
  split at h
  · rename_i hf
    cases h
    exact ⟨hf.1, rfl⟩
  · cases h

theorem epollWait_eq_some {m : ℕ} {fds : List Fd} {p : List (α × Bool) × Kernel α}
    (h : k.epollWait m fds = some p) :
    fds.Nodup ∧ (∀ fd ∈ fds, k.edge fd = true) ∧ p.1 = fds.filterMap k.report ∧
      p.2 = { k with edge := fun fd => k.edge fd && decide (fd ∉ fds) } := by
  unfold epollWait at h
  split at h
  · rename_i hf
    cases h
    exact ⟨hf.2.2.1, hf.2.2.2, rfl, rfl⟩
  · cases h

theorem clientSend_eq_some {bytes : List UInt8} (h : k.clientSend c bytes = some k') :
    c < k.conns ∧ k.eof c = false ∧
      k' = { k with inbox := Function.update k.inbox c (k.inbox c ++ bytes) }.raise (.sock c) := by
  unfold clientSend at h
  split at h
  · rename_i hc
    cases h
    exact ⟨hc.1, hc.2.1, rfl⟩
  · cases h

theorem clientClose_eq_some (h : k.clientClose c = some k') :
    c < k.conns ∧ k.eof c = false ∧
      k' = { k with eof := Function.update k.eof c true }.raise (.sock c) := by
  unfold clientClose at h
  split at h
  · rename_i hc
    cases h
    exact ⟨hc.1, hc.2, rfl⟩
  · cases h

theorem recv_eq_data {chunk : List UInt8} (h : k.recv fd n = (.data c chunk, k')) :
    k.files fd = some (.sock c) ∧ k.inbox c ≠ [] ∧ chunk = (k.inbox c).take n ∧
      k' = { k with inbox := Function.update k.inbox c ((k.inbox c).drop n) } := by
  unfold recv at h
  split at h
  · rename_i c' hf
    split at h
    · rename_i hne
      cases h
      exact ⟨hf, hne, rfl, rfl⟩
    · split at h <;> cases h
  · cases h

/-- `EAGAIN` means that nothing is unread and the client has not closed. -/
theorem recv_eq_again (h : k.recv fd n = (.again, k')) :
    k' = k ∧ ∃ c, k.files fd = some (.sock c) ∧ k.inbox c = [] ∧ k.eof c = false := by
  unfold recv at h
  split at h
  · rename_i c hf
    split at h
    · cases h
    · rename_i hne
      split at h
      · cases h
      · rename_i he
        cases h
        exact ⟨rfl, c, hf, by simpa using hne, by simpa using he⟩
  · cases h

/-! ## Consistency -/

structure Wf (k : Kernel α) : Prop where
  reg_open : ∀ {fd}, k.files fd = none → k.reg fd = none
  sock_inj : ∀ {fd fd' c}, k.files fd = some (.sock c) → k.files fd' = some (.sock c) → fd = fd'
  event_inj : ∀ {fd fd' c}, k.files fd = some (.event c) → k.files fd' = some (.event c) → fd = fd'
  conn_lt : ∀ {fd} {c : ℕ}, k.files fd = some (.sock c) → c < k.conns
  backlog_lt : ∀ {c : ℕ}, c ∈ k.backlog → c < k.conns
  backlog_nodup : k.backlog.Nodup
  backlog_new : ∀ {fd c}, c ∈ k.backlog → k.files fd ≠ some (.sock c)

/-- A call that only moves bytes, counters and edges keeps the consistency. -/
theorem Wf.congr (h : k.Wf) (hf : k'.files = k.files) (hr : k'.reg = k.reg)
    (hb : k'.backlog = k.backlog) (hc : k'.conns = k.conns) : k'.Wf := by
  constructor <;> simp only [hf, hr, hb, hc]
  · exact h.reg_open
  · exact h.sock_inj
  · exact h.event_inj
  · exact h.conn_lt
  · exact h.backlog_lt
  · exact h.backlog_nodup
  · exact h.backlog_new

theorem Wf.raise (h : k.Wf) (f : File) : (k.raise f).Wf := h.congr rfl rfl rfl rfl

theorem boot_wf (efd sfd : Fd) (listen : α) : (boot efd sfd listen).Wf := by
  have hsock : ∀ {fd c}, (boot efd sfd listen).files fd ≠ some (.sock c) := by
    intro fd c; simp only [boot]; grind
  have hevent : ∀ {fd c}, (boot efd sfd listen).files fd ≠ some (.event c) := by
    intro fd c; simp only [boot]; grind
  refine ⟨?_, fun h => absurd h hsock, fun h => absurd h hevent, fun h => absurd h hsock, ?_,
    List.nodup_nil, ?_⟩
  · intro fd h
    simp only [boot] at h ⊢
    grind
  · intro c h; simp [boot] at h
  · intro fd c h; simp [boot] at h

theorem Wf.connect (h : k.Wf) : k.connect.Wf := by
  have hpush : Wf { k with backlog := k.backlog ++ [k.conns], conns := k.conns + 1 } := by
    refine ⟨h.reg_open, h.sock_inj, h.event_inj, ?_, ?_, ?_, ?_⟩
    · intro fd c hf
      have := h.conn_lt hf
      show c < k.conns + 1
      omega
    · intro c hc
      show c < k.conns + 1
      rcases List.mem_append.mp hc with hc | hc
      · have := h.backlog_lt hc
        omega
      · have := List.mem_singleton.mp hc
        omega
    · have hm : k.conns ∉ k.backlog := fun hm => Nat.lt_irrefl _ (h.backlog_lt hm)
      exact h.backlog_nodup.append (List.nodup_singleton _) (List.disjoint_singleton.mpr hm)
    · intro fd c hc hf
      rcases List.mem_append.mp hc with hc | hc
      · exact h.backlog_new hc hf
      · rw [List.mem_singleton.mp hc] at hf
        exact absurd (h.conn_lt hf) (Nat.lt_irrefl _)
  exact hpush.raise _

theorem Wf.clientSend {bytes : List UInt8} (h : k.Wf) (hs : k.clientSend c bytes = some k') :
    k'.Wf := by
  obtain ⟨-, -, rfl⟩ := clientSend_eq_some hs
  exact h.congr rfl rfl rfl rfl

theorem Wf.clientClose (h : k.Wf) (hs : k.clientClose c = some k') : k'.Wf := by
  obtain ⟨-, -, rfl⟩ := clientClose_eq_some hs
  exact h.congr rfl rfl rfl rfl

theorem Wf.recv (h : k.Wf) (fd : Fd) (n : ℕ) : (k.recv fd n).2.Wf := h.congr (by simp) (by simp)
  (by simp) (by simp)

theorem Wf.readU64 (h : k.Wf) (fd : Fd) : (k.readU64 fd).2.Wf := h.congr (by simp) (by simp)
  (by simp) (by simp)

theorem Wf.writeU64 (h : k.Wf) (fd : Fd) : (k.writeU64 fd).Wf := h.congr (by simp) (by simp)
  (by simp) (by simp)

theorem Wf.accept {lfd : Fd} {p : Conn × Kernel α} (h : k.Wf) (ha : k.accept lfd fd = some p) :
    p.2.Wf := by
  obtain ⟨rest, hb, hfd, hp⟩ := accept_eq_some ha
  rw [hp]
  have hmem : p.1 ∈ k.backlog := by simp [hb]
  have hnew : ∀ fd', k.files fd' ≠ some (.sock p.1) := fun fd' => h.backlog_new hmem
  have hrest : ∀ {c}, c ∈ rest → c ∈ k.backlog := fun hc => by simp [hb, hc]
  have hnd := h.backlog_nodup
  rw [hb, List.nodup_cons] at hnd
  refine ⟨?_, ?_, ?_, ?_, fun hc => h.backlog_lt (hrest hc), hnd.2, ?_⟩
  · intro fd' hf
    by_cases e : fd' = fd
    · subst e; exact h.reg_open hfd
    · exact h.reg_open (by simpa [e] using hf)
  · intro a b c ha hb
    simp only [Function.update_apply] at ha hb
    grind [h.sock_inj]
  · intro a b c ha hb
    simp only [Function.update_apply] at ha hb
    grind [h.event_inj]
  · intro a c ha
    simp only [Function.update_apply] at ha
    split at ha
    · cases ha
      exact h.backlog_lt hmem
    · exact h.conn_lt ha
  · intro a c hc ha
    simp only [Function.update_apply] at ha
    grind [h.backlog_new]

theorem Wf.eventfd (h : k.Wf) (hnew : ∀ fd, k.files fd ≠ some (.event c))
    (he : k.eventfd fd c = some k') : k'.Wf := by
  obtain ⟨hfd, rfl⟩ := eventfd_eq_some he
  refine ⟨?_, ?_, ?_, ?_, h.backlog_lt, h.backlog_nodup, ?_⟩
  · intro fd' hf
    by_cases e : fd' = fd
    · subst e; exact h.reg_open hfd
    · exact h.reg_open (by simpa [e] using hf)
  · intro a b c ha hb
    simp only [Function.update_apply] at ha hb
    grind [h.sock_inj]
  · intro a b c ha hb
    simp only [Function.update_apply] at ha hb
    grind [h.event_inj]
  · intro a c ha
    simp only [Function.update_apply] at ha
    split at ha
    · cases ha
    · exact h.conn_lt ha
  · intro a c hc ha
    simp only [Function.update_apply] at ha
    grind [h.backlog_new]

theorem Wf.close (h : k.Wf) (fd : Fd) : (k.close fd).Wf := by
  have hle : ∀ {a f}, (k.close fd).files a = some f → k.files a = some f := by
    intro a f ha
    simp only [Kernel.close, Function.update_apply] at ha
    grind
  refine ⟨?_, fun ha hb => h.sock_inj (hle ha) (hle hb), fun ha hb => h.event_inj (hle ha) (hle hb),
    fun ha => h.conn_lt (hle ha), h.backlog_lt, h.backlog_nodup,
    fun hc ha => h.backlog_new hc (hle ha)⟩
  intro a ha
  simp only [Kernel.close, Function.update_apply] at ha ⊢
  split
  · rfl
  · rename_i e
    exact h.reg_open (by simpa [e] using ha)

theorem Wf.exit (h : k.Wf) : k.exit.Wf := by
  refine ⟨fun _ => rfl, ?_, ?_, ?_, h.backlog_lt, h.backlog_nodup, ?_⟩ <;> simp [Kernel.exit]

theorem Wf.ctlAdd {data : α} (h : k.Wf) (ha : k.ctlAdd fd data = some k') : k'.Wf := by
  obtain ⟨hf, -, rfl⟩ := ctlAdd_eq_some ha
  refine ⟨?_, h.sock_inj, h.event_inj, h.conn_lt, h.backlog_lt, h.backlog_nodup, h.backlog_new⟩
  intro a ha
  have e : a ≠ fd := by rintro rfl; exact hf ha
  simpa [e] using h.reg_open ha

theorem Wf.ctlDel (h : k.Wf) (ha : k.ctlDel fd = some k') : k'.Wf := by
  obtain ⟨-, rfl⟩ := ctlDel_eq_some ha
  refine ⟨?_, h.sock_inj, h.event_inj, h.conn_lt, h.backlog_lt, h.backlog_nodup, h.backlog_new⟩
  intro a ha
  simp only [Function.update_apply]
  split
  · rfl
  · exact h.reg_open ha

theorem Wf.epollWait {m : ℕ} {fds : List Fd} {p : List (α × Bool) × Kernel α} (h : k.Wf)
    (he : k.epollWait m fds = some p) : p.2.Wf := by
  obtain ⟨-, -, -, hp⟩ := epollWait_eq_some he
  rw [hp]
  exact h.congr rfl rfl rfl rfl

/-! ## Accepted connections -/

/-- The connection `c` was taken from the backlog. -/
def Accepted (k : Kernel α) (c : ℕ) : Prop := c < k.conns ∧ c ∉ k.backlog

theorem Wf.accepted_of_open (h : k.Wf) (hf : k.files fd = some (.sock c)) : k.Accepted c :=
  ⟨h.conn_lt hf, fun hc => h.backlog_new hc hf⟩

theorem Accepted.connect (h : k.Accepted c) : k.connect.Accepted c := by
  refine ⟨Nat.lt_succ_of_lt h.1, fun hc => ?_⟩
  rcases List.mem_append.mp hc with hc | hc
  · exact h.2 hc
  · exact Nat.ne_of_lt h.1 (List.mem_singleton.mp hc)

theorem Accepted.accept {lfd : Fd} {p : Conn × Kernel α} (h : k.Accepted c)
    (ha : k.accept lfd fd = some p) : p.2.Accepted c := by
  obtain ⟨rest, hb, -, hp⟩ := accept_eq_some ha
  rw [hp]
  exact ⟨h.1, fun hc => h.2 (by rw [hb]; exact List.mem_cons_of_mem _ hc)⟩

/-- The connection `accept` returns was not accepted before. -/
theorem not_accepted_of_accept {lfd : Fd} {p : Conn × Kernel α} (ha : k.accept lfd fd = some p) :
    ¬ k.Accepted p.1 := by
  obtain ⟨rest, hb, -, -⟩ := accept_eq_some ha
  exact fun h => h.2 (by simp [hb])

end PracticeCode.Linux.Kernel
