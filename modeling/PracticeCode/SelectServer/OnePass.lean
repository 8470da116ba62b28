import PracticeCode.SelectServer.Bits

/-!
# One pass of the select server

The walk over `fds` inserts and erases while it goes, and asks a `readfds` that is older than what
it finds.  `PassOk` says what a pass should do after `select` returned: end, `recv` once from each
client that is readable, and from nobody else, not from the owner of a number that was closed and
given out again either.

`Walking` is the invariant: what was received and what is still in front of the iterator make up
what `select` reported.  It holds as long as `FD_SET` is defined (`passOk_iff`).
-/

namespace PracticeCode.SelectServer

open Lib Linux

/-- The calls of `recv`: the number, and the connection it referred to. -/
def recvs (calls : List Call) : List (Fd × Option Conn) :=
  calls.filterMap fun
    | .recv fd target _ => some (fd, target)
    | _ => none

section Pass

variable (used : Fd → Prop) (sfd : Fd)

/-- The steps of a pass; `accept` returns the lowest free number. -/
def inPass (s : State) (a : Act) : Prop := s.point ≠ .select ∧ lowestFree used sfd s a

/-- After `select` returned with `ready` in `s`, the pass comes to `t`, and makes these calls. -/
def Comes (s : State) (ready : List Fd) (t : State) (calls : List Call) : Prop :=
  (∃ as, Run (step sfd) (inPass used sfd) (s.begin ready) as t) ∧ t.log = s.log ++ calls

/-- **The contract of a pass.** -/
structure PassOk (s : State) (ready : List Fd) : Prop where
  bounded : ∃ N, ∀ as t, Run (step sfd) (inPass used sfd) (s.begin ready) as t → as.length ≤ N
  /-- The walk is never stuck before its end. -/
  ends : ∀ t calls, Comes used sfd s ready t calls →
    t.point = .select ∨ ∃ a t', inPass used sfd t a ∧ step sfd t a = some t'
  once : ∀ t calls, Comes used sfd s ready t calls → t.point = .select →
    ∀ fd ∈ ready, fd ≠ sfd → ((recvs calls).map Prod.fst).count fd = 1
  /-- At every moment of the pass. -/
  only : ∀ t calls, Comes used sfd s ready t calls → ∀ r ∈ recvs calls,
    r.1 ∈ ready ∧ r.1 ≠ sfd ∧ s.sets.origin_set r.1 = true
  /-- The connection is the one that the number referred to when `select` was called, and was
  accepted before. -/
  old : ∀ t calls, Comes used sfd s ready t calls → ∀ r ∈ recvs calls,
    r.2 = s.table.files r.1 ∧ ∃ c < s.table.made, r.2 = some c

end Pass

variable {used : Fd → Prop} {sfd : Fd}

/-! ## What the server waits with -/

section Reach

variable {s s' : State} {a : Act}

theorem low_step (hl : ∀ fd ∈ s.sets.fds, sfd ≤ fd) (hg : lowestFree used sfd s a)
    (hs : step sfd s a = some s') : ∀ fd ∈ s'.sets.fds, sfd ≤ fd := by
  intro fd hfd
  rcases fds_of_step hs hfd with hfd | rfl
  · exact hl fd hfd
  · exact le_of_lt hg.1

theorem tableWf_step (hw : s.table.Wf) (hs : step sfd s a = some s') : s'.table.Wf := by
  cases outcome_of_step hs with
  | accept | overflow => exact hw.accept _
  | close => exact hw.close _
  | _ => exact hw

theorem waiting_of_run {as : List Act} (h : Run (step sfd) (lowestFree used sfd) (init sfd) as s)
    (hp : s.point = .select) : Waiting sfd s ∧ s.table.Wf := by
  have hlow := h.invariant (I := fun s => (∀ fd ∈ s.sets.fds, sfd ≤ fd) ∧ s.table.Wf)
    ⟨fun fd hfd => by simp [init, AddFd, insertFd] at hfd; exact le_of_eq hfd.symm,
      Table.wf_empty⟩
    fun _ _ _ hi hg hs => ⟨low_step hi.1 hg hs, tableWf_step hi.2 hs⟩
  exact ⟨⟨hp, inv_of_run (h.mono fun _ _ _ => trivial) (by simp [hp]), hlow.1⟩, hlow.2⟩

end Reach

/-! ## The walk -/

/-- What the iterator still comes to. -/
def State.ahead (t : State) : List Fd :=
  match t.point with
  | .send _ => t.rest.tail
  | .select => []
  | _ => t.rest

/-- The calls of `recv` for these descriptors. -/
def todo (sfd : Fd) (s : State) (ready l : List Fd) : List (Fd × Option Conn) :=
  (l.filter fun fd => fd ∈ ready ∧ fd ≠ sfd).map fun fd => (fd, s.table.files fd)

/-- What each place of the pass knows. -/
def Reads (sfd : Fd) (ready : List Fd) (t : State) : Prop :=
  match t.point with
  | .accept => sfd ∈ ready
  | .recv => ∀ fd, t.iter = some fd → fd ∈ ready
  | .close _ => t.iter ≠ some sfd
  | .exited | .undefined => False
  | _ => True

/-- Between `select` in `s` and the end of the pass. -/
structure Walking (sfd : Fd) (s : State) (ready : List Fd) (t : State) (calls : List Call) :
    Prop where
  inv : Inv sfd t
  low : ∀ fd ∈ t.sets.fds, sfd ≤ fd
  readfds : t.readfds = ready.contains
  point : Reads sfd ready t
  log : t.log = s.log ++ calls
  parts : recvs calls ++ todo sfd s ready t.ahead = todo sfd s ready s.sets.fds
  /-- What is still to be received from is what it was. -/
  same : ∀ fd ∈ t.ahead, fd ∈ ready → fd ≠ sfd → t.table.files fd = s.table.files fd
  /-- At the listening socket nothing has happened yet. -/
  first : t.iter = some sfd → t.table = s.table ∧ recvs calls = []

section Walk

variable {s t t' : State} {ready : List Fd} {calls : List Call} {a : Act} {fd : Fd}

theorem recvs_append (calls calls' : List Call) :
    recvs (calls ++ calls') = recvs calls ++ recvs calls' :=
  List.filterMap_append ..

theorem todo_cons_of_not {l : List Fd} (h : fd ∉ ready ∨ fd = sfd) :
    todo sfd s ready (fd :: l) = todo sfd s ready l := by
  have hn : ¬ (fd ∈ ready ∧ fd ≠ sfd) := by
    rintro ⟨h1, h2⟩
    exact h.elim (fun h => h h1) fun h => h2 h
  simp [todo, hn]

theorem todo_cons_of_mem {l : List Fd} (h : fd ∈ ready) (hne : fd ≠ sfd) :
    todo sfd s ready (fd :: l) = (fd, s.table.files fd) :: todo sfd s ready l := by
  simp [todo, h, hne]

theorem rest_of_iter (h : t.iter = some fd) : t.rest = fd :: t.sets.fds.filter (fd < ·) := by
  simp [State.rest, h]

theorem walking_begin (h : Waiting sfd s) : Walking sfd s ready (s.begin ready) [] := by
  have hrest : (s.begin ready).rest = s.sets.fds := by
    have hfds := List.cons_head?_tail h.head
    have hs := h.inv.sets.sorted
    rw [← hfds] at hs
    have hall : ∀ fd ∈ s.sets.fds.tail, sfd < fd := (List.pairwise_cons.mp hs).1
    have hfilter : s.sets.fds.filter (sfd < ·) = s.sets.fds.tail := by
      conv_lhs => rw [← hfds]
      rw [List.filter_cons_of_neg (by simp),
        List.filter_eq_self.mpr fun fd hfd => decide_eq_true (hall fd hfd)]
    rw [rest_of_iter (t := s.begin ready) h.head]
    show sfd :: s.sets.fds.filter (sfd < ·) = s.sets.fds
    rw [hfilter, hfds]
  have hs : Inv sfd (s.begin ready) :=
    inv_goto h.inv (by simp [h.point]) (by simp) (fun fd hfd => List.mem_of_mem_head? hfd) trivial
  refine ⟨hs, h.low, rfl, trivial, (List.append_nil _).symm, ?_, fun _ _ _ _ => rfl,
    fun _ => ⟨rfl, rfl⟩⟩
  show todo sfd s ready (s.begin ready).rest = _
  rw [hrest]

theorem ne_of_nextFd {l : List Fd} (hle : sfd ≤ fd) : nextFd fd l ≠ some sfd := fun h =>
  absurd (mem_of_nextFd h).2 (not_lt.mpr hle)

/-- The iterator goes on from `fd`. -/
theorem walking_next (hinv : Inv sfd (t.next fd)) (hlow : ∀ x ∈ t.sets.fds, sfd ≤ x)
    (hle : sfd ≤ fd) (hrd : t.readfds = ready.contains) (hlog : t.log = s.log ++ calls)
    (hparts : recvs calls ++ todo sfd s ready (t.sets.fds.filter (fd < ·)) =
      todo sfd s ready s.sets.fds)
    (hsame : ∀ x ∈ t.sets.fds.filter (fd < ·), x ∈ ready → x ≠ sfd →
      t.table.files x = s.table.files x) : Walking sfd s ready (t.next fd) calls := by
  have hahead : (t.next fd).ahead = t.sets.fds.filter (fd < ·) := rest_next hinv.sets.sorted
  refine ⟨hinv, hlow, hrd, trivial, hlog, ?_, ?_, fun hf => ?_⟩
  · rw [hahead]
    exact hparts
  · rw [hahead]
    exact hsame
  · exact absurd hf (ne_of_nextFd hle)

theorem Walking.mem_ready (h : Walking sfd s ready t calls) :
    t.readfds fd = decide (fd ∈ ready) := by
  rw [h.readfds, List.contains_eq_mem]

/-- The number that comes in is no client that `select` reported. -/
theorem Walking.not_ready (h : Walking sfd s ready t calls) (hw : Waiting sfd s)
    (hr : ∀ fd ∈ ready, s.sets.origin_set fd = true) (hi : t.iter = some sfd) {cfd : Fd}
    (hfree : t.table.files cfd = none) (hne : cfd ≠ sfd) : cfd ∉ ready := by
  intro hm
  have hopen := ((hw.inv.mem cfd).mp ((hw.inv.sets.bits cfd).mp (hr cfd hm))).1
  rcases hopen with rfl | hsome
  · exact hne rfl
  · rw [← (h.first hi).1, hfree] at hsome
    cases hsome

theorem filter_orderedInsert_of_not {p : Fd → Bool} {l : List Fd} (h : p fd = false) :
    (l.orderedInsert (· ≤ ·) fd).filter p = l.filter p := by
  induction l with
  | nil => simp [h]
  | cons x l ih =>
    rw [List.orderedInsert_cons]
    split
    · rw [List.filter_cons_of_neg (by simp [h])]
    · rw [List.filter_cons, List.filter_cons, ih]

theorem todo_insertFd {l : List Fd} {x : Fd} (h : fd ∉ ready) :
    todo sfd s ready ((insertFd fd l).filter (x < ·)) = todo sfd s ready (l.filter (x < ·)) := by
  unfold insertFd
  split
  · rfl
  · unfold todo
    rw [List.filter_filter, List.filter_filter, filter_orderedInsert_of_not (by simp [h])]

theorem Walking.ahead_mem (h : Walking sfd s ready t calls) (hfd : fd ∈ t.ahead) :
    fd ∈ t.sets.fds := by
  have hrest : fd ∈ t.rest → fd ∈ t.sets.fds := fun hm => by
    unfold State.rest at hm
    split at hm
    · cases hm
    · rename_i x hi
      rcases List.mem_cons.mp hm with rfl | hm
      · exact h.inv.iter fd hi
      · exact (List.mem_filter.mp hm).1
  unfold State.ahead at hfd
  split at hfd
  · exact hrest (List.mem_of_mem_tail hfd)
  · cases hfd
  · exact hrest hfd

/-- The call of `recv` is the next one to do. -/
theorem Walking.receive (h : Walking sfd s ready t calls) (hp : t.point = .recv)
    (hi : t.iter = some fd) :
    fd ≠ sfd ∧ fd ∈ ready ∧
    recvs calls ++ [(fd, t.table.files fd)] ++ todo sfd s ready (t.sets.fds.filter (fd < ·)) =
      todo sfd s ready s.sets.fds ∧
    ∀ x ∈ t.sets.fds.filter (fd < ·), x ∈ ready → x ≠ sfd →
      t.table.files x = s.table.files x := by
  have hne : fd ≠ sfd := by
    have hpt := h.inv.point
    simp only [AtPoint, hp, hi, Option.some.injEq, exists_eq_left'] at hpt
    exact hpt
  have hfd : fd ∈ ready := by
    have hpt := h.point
    simp only [Reads, hp] at hpt
    exact hpt fd hi
  have hahead : t.ahead = fd :: t.sets.fds.filter (fd < ·) := by
    simp [State.ahead, hp, rest_of_iter hi]
  have hparts := h.parts
  have hsame := h.same
  rw [hahead] at hparts hsame
  rw [todo_cons_of_mem hfd hne, ← hsame fd (List.mem_cons_self ..) hfd hne] at hparts
  refine ⟨hne, hfd, ?_, fun x hx => hsame x (List.mem_cons_of_mem _ hx)⟩
  rw [List.append_assoc]
  exact hparts

/-- What is behind an element that nothing is received from. -/
theorem Walking.behind {l : List Fd} (h : Walking sfd s ready t calls) (hahead : t.ahead = fd :: l)
    (hn : fd ∉ ready ∨ fd = sfd) :
    recvs calls ++ todo sfd s ready l = todo sfd s ready s.sets.fds ∧
      ∀ x ∈ l, x ∈ ready → x ≠ sfd → t.table.files x = s.table.files x := by
  have hparts := h.parts
  have hsame := h.same
  rw [hahead] at hparts hsame
  rw [todo_cons_of_not hn] at hparts
  exact ⟨hparts, fun x hx => hsame x (List.mem_cons_of_mem _ hx)⟩

/-- The walk comes to another point of the body, with the same iterator. -/
theorem Walking.goto (h : Walking sfd s ready t calls) {pt : Point}
    (hinv : Inv sfd { t with point := pt })
    (hahead : ({ t with point := pt } : State).ahead = t.ahead)
    (hrd : Reads sfd ready { t with point := pt }) :
    Walking sfd s ready { t with point := pt } calls := by
  refine ⟨hinv, h.low, h.readfds, hrd, h.log, ?_, ?_, h.first⟩
  · rw [hahead]
    exact h.parts
  · rw [hahead]
    exact h.same

theorem Walking.log_call (h : Walking sfd s ready t calls) (c : Call) :
    (t.call c).log = s.log ++ (calls ++ [c]) := by
  show t.log ++ [c] = _
  rw [h.log, List.append_assoc]

/-- A call that is no `recv`. -/
theorem recvs_snoc_of_nil {c : Call} (hc : recvs [c] = []) :
    recvs (calls ++ [c]) = recvs calls := by
  rw [recvs_append, hc, List.append_nil]

/-- **Every step of a pass keeps the walk**, when `FD_SET` is defined for the number that `accept`
returns. -/
theorem walking_step (hw : Waiting sfd s) (hr : ∀ fd ∈ ready, s.sets.origin_set fd = true)
    (hfit : sfd ∈ ready → ∀ cfd, LowestFree used sfd s cfd → cfd < FD_SETSIZE)
    (h : Walking sfd s ready t calls) (hg : inPass used sfd t a) (hs : step sfd t a = some t') :
    ∃ calls', Walking sfd s ready t' calls' := by
  have hpt := h.inv.point
  -- at the head of the body and at `accept` the iterator is the first that is ahead
  have hcons : ∀ fd, t.iter = some fd → (t.point = .loop ∨ t.point = .accept) →
      t.ahead = fd :: t.sets.fds.filter (fd < ·) := by
    rintro fd hi (hp | hp) <;> simp [State.ahead, hp, rest_of_iter hi]
  cases outcome_of_step hs with
  | select hp | timeout hp | fail hp => exact absurd hp hg.1
  | passEnd hp hi =>
    have hrest : t.ahead = [] := by simp [State.ahead, hp, State.rest, hi]
    have hparts := h.parts
    rw [hrest] at hparts
    refine ⟨calls, inv_step h.inv hs (by simp), h.low, h.readfds, trivial, h.log, hparts,
      fun fd hfd => ?_, fun hf => ?_⟩
    · cases hfd
    · rw [hi] at hf
      cases hf
  | @skip fd hp hi hrd =>
    have hle := h.low fd (h.inv.iter fd hi)
    have hn : fd ∉ ready := by simpa [h.mem_ready] using hrd
    obtain ⟨hparts, hsame⟩ := h.behind (hcons fd hi (.inl hp)) (.inl hn)
    have hinv := inv_step h.inv hs (by simp [State.next])
    exact ⟨calls, walking_next hinv h.low hle h.readfds h.log hparts hsame⟩
  | listening hp hi hrd =>
    have hahead : ({ t with point := .accept } : State).ahead = t.ahead := by
      simp [State.ahead, hp, State.rest]
    have hm : sfd ∈ ready := by simpa [h.mem_ready] using hrd
    exact ⟨calls, h.goto (inv_step h.inv hs (by simp)) hahead hm⟩
  | @client fd hp hi hrd hne =>
    have hahead : ({ t with point := .recv } : State).ahead = t.ahead := by
      simp [State.ahead, hp, State.rest]
    have hm : ∀ x, t.iter = some x → x ∈ ready := fun x hx => by
      rw [hi] at hx
      obtain rfl := Option.some.inj hx
      simpa [h.mem_ready] using hrd
    exact ⟨calls, h.goto (inv_step h.inv hs (by simp)) hahead hm⟩
  | @acceptFail fd hp hi =>
    have hfd : fd = sfd := by
      simp only [AtPoint, hp, hi] at hpt
      exact Option.some.inj hpt
    subst hfd
    obtain ⟨hparts, hsame⟩ := h.behind (hcons fd hi (.inr hp)) (.inr rfl)
    have hinv := inv_step h.inv hs (by simp [State.next])
    refine ⟨calls ++ [.accept none], walking_next hinv h.low le_rfl h.readfds
      (h.log_call _) ?_ hsame⟩
    rw [recvs_snoc_of_nil rfl]
    exact hparts
  | @accept fd cfd hp hi hfree hne hlt =>
    have hfd : fd = sfd := by
      simp only [AtPoint, hp, hi] at hpt
      exact Option.some.inj hpt
    subst hfd
    have hn : cfd ∉ ready := h.not_ready hw hr hi hfree hne
    obtain ⟨hparts, -⟩ := h.behind (hcons fd hi (.inr hp)) (.inr rfl)
    have hlow := low_step h.low hg.2 hs
    have hinv := inv_step h.inv hs (by simp [State.next])
    refine ⟨calls ++ [.accept (some cfd)], walking_next hinv hlow le_rfl h.readfds
      (h.log_call _) ?_ fun x hx hxr hxne => ?_⟩
    · rw [recvs_snoc_of_nil rfl]
      show recvs calls ++ todo fd s ready ((insertFd cfd t.sets.fds).filter (fd < ·)) = _
      rw [todo_insertFd hn]
      exact hparts
    · have hxc : x ≠ cfd := fun e => hn (e ▸ hxr)
      show (t.table.accept cfd).files x = _
      rw [Table.files_accept, if_neg hxc, (h.first hi).1]
  | @overflow cfd hp hle =>
    have hi : t.iter = some sfd := by simpa only [AtPoint, hp] using hpt
    have hlow : LowestFree used sfd s cfd := by
      have hlf : LowestFree used sfd t cfd := hg.2
      unfold LowestFree InUse at hlf ⊢
      rwa [(h.first hi).1] at hlf
    have hm : sfd ∈ ready := by simpa only [Reads, hp] using h.point
    exact absurd (hfit hm cfd hlow) (not_lt.mpr hle)
  | @recvData fd bytes hp hi hcan =>
    obtain ⟨hne, hfd, hparts, hsame⟩ := h.receive hp hi
    refine ⟨calls ++ [.recv fd (t.table.files fd) (.data bytes)], inv_step h.inv hs (by simp),
      h.low, h.readfds, trivial, h.log_call _, ?_, ?_, fun hf => ?_⟩
    · rw [recvs_append]
      show recvs calls ++ [(fd, t.table.files fd)] ++ todo sfd s ready t.rest.tail = _
      rw [rest_of_iter hi, List.tail_cons]
      exact hparts
    · show ∀ x ∈ t.rest.tail, _
      rw [rest_of_iter hi, List.tail_cons]
      exact hsame
    · exact absurd (Option.some.inj (hi.symm.trans hf)) hne
  | @recvStop fd res hp hi hres =>
    obtain ⟨hne, hfd, hparts, hsame⟩ := h.receive hp hi
    have hle := h.low fd (h.inv.iter fd hi)
    have hahead : ({ (t.call (.recv fd (t.table.files fd) res)) with
        sets := (RemoveFd t.sets fd).1, iter := (RemoveFd t.sets fd).2,
        point := .close fd } : State).ahead = t.sets.fds.filter (fd < ·) :=
      rest_removeFd h.inv.sets.sorted
    have hnext : (RemoveFd t.sets fd).2 ≠ some sfd := ne_of_nextFd hle
    have hlow := low_step h.low hg.2 hs
    refine ⟨calls ++ [.recv fd (t.table.files fd) res], inv_step h.inv hs (by simp), hlow,
      h.readfds, hnext, h.log_call _, ?_, ?_, fun hf => absurd hf hnext⟩
    · rw [recvs_append, hahead]
      exact hparts
    · rw [hahead]
      exact hsame
  | @send fd buf res hp hi =>
    have hle := h.low fd (h.inv.iter fd hi)
    have hahead : t.ahead = t.sets.fds.filter (fd < ·) := by
      simp [State.ahead, hp, rest_of_iter hi]
    have hparts := h.parts
    have hsame := h.same
    rw [hahead] at hparts hsame
    have hinv := inv_step h.inv hs (by simp [State.next])
    refine ⟨calls ++ [.send fd (t.table.files fd) buf res], walking_next hinv
      h.low hle h.readfds (h.log_call _) ?_ hsame⟩
    rw [recvs_snoc_of_nil rfl]
    exact hparts
  | @close fd hp =>
    have hrest : ({ (t.call (.close fd (t.table.files fd))) with
        table := t.table.close fd, point := .loop } : State).ahead = t.ahead := by
      simp [State.ahead, hp, State.rest, State.call]
    have hi : t.iter ≠ some sfd := by simpa only [Reads, hp] using h.point
    refine ⟨calls ++ [.close fd (t.table.files fd)], inv_step h.inv hs (by simp), h.low, h.readfds,
      trivial, h.log_call _, ?_, fun x hx hxr hxne => ?_, fun hf => absurd hf hi⟩
    · rw [hrest, recvs_snoc_of_nil rfl]
      exact h.parts
    · rw [hrest] at hx
      -- the element was erased before it is closed
      have hxf : x ≠ fd := fun e =>
        ((h.inv.mem x).mp (h.ahead_mem hx)).2 (e ▸ hp)
      show (t.table.close fd).files x = _
      rw [Table.files_close, if_neg hxf]
      exact h.same x hx hxr hxne

/-! ## The end of the walk -/

/-- What a pass can still do. -/
def State.weight (sfd : Fd) (t : State) : ℕ :=
  match t.point with
  | .loop => 4 * t.rest.length + if t.iter = some sfd then 5 else 1
  | .accept => 4 * t.rest.length + 4
  | .recv => 4 * t.rest.length
  | .send _ => 4 * t.rest.length - 1
  | .close _ => 4 * t.rest.length + 2
  | _ => 0

theorem weight_next (hs : t.sets.fds.Pairwise (· < ·)) (hle : sfd ≤ fd) :
    (t.next fd).weight sfd = 4 * (t.sets.fds.filter (fd < ·)).length + 1 := by
  have hi : (t.next fd).iter ≠ some sfd := ne_of_nextFd hle
  show 4 * (t.next fd).rest.length + (if (t.next fd).iter = some sfd then 5 else 1) = _
  rw [rest_next hs, if_neg hi]

theorem length_insertFd {l : List Fd} {p : Fd → Bool} :
    ((insertFd fd l).filter p).length ≤ (l.filter p).length + 1 := by
  unfold insertFd
  split
  · exact Nat.le_succ _
  · rw [((l.perm_orderedInsert (· ≤ ·) fd).filter p).length_eq, List.filter_cons]
    split
    · exact le_refl _
    · exact Nat.le_succ _

/-- **Every step of a pass takes the weight down.** -/
theorem weight_step (h : Walking sfd s ready t calls) (hg : inPass used sfd t a)
    (hs : step sfd t a = some t') : t'.weight sfd < t.weight sfd := by
  have hsorted := h.inv.sets.sorted
  have hlow : ∀ {fd}, t.iter = some fd → sfd ≤ fd := fun hi => h.low _ (h.inv.iter _ hi)
  have hlen : ∀ {fd}, t.iter = some fd →
      t.rest.length = (t.sets.fds.filter (fd < ·)).length + 1 := fun hi => by
    rw [rest_of_iter hi, List.length_cons]
  have hpt := h.inv.point
  cases outcome_of_step hs with
  | select hp | timeout hp | fail hp => exact absurd hp hg.1
  | passEnd hp hi =>
    show 0 < t.weight sfd
    simp [State.weight, hp, hi]
  | @skip fd hp hi hrd =>
    have hw : 4 * t.rest.length + 1 ≤ t.weight sfd := by
      simp only [State.weight, hp]
      split <;> omega
    rw [weight_next hsorted (hlow hi)]
    have := hlen hi
    omega
  | listening hp hi hrd =>
    show 4 * t.rest.length + 4 < t.weight sfd
    simp [State.weight, hp, hi]
  | @client fd hp hi hrd hne =>
    show 4 * t.rest.length < t.weight sfd
    simp only [State.weight, hp]
    split <;> omega
  | @acceptFail fd hp hi =>
    have hw : t.weight sfd = 4 * t.rest.length + 4 := by simp [State.weight, hp]
    have := hlen hi
    rw [hw, weight_next (t := t.call (.accept none)) hsorted (hlow hi)]
    show 4 * (t.sets.fds.filter (fd < ·)).length + 1 < _
    omega
  | @accept fd cfd hp hi hfree hne hlt =>
    have hw : t.weight sfd = 4 * t.rest.length + 4 := by simp [State.weight, hp]
    have hins : ((insertFd cfd t.sets.fds).filter (fd < ·)).length ≤
        (t.sets.fds.filter (fd < ·)).length + 1 := length_insertFd
    have := hlen hi
    rw [hw, weight_next (sorted_insertFd hsorted) (hlow hi)]
    show 4 * ((insertFd cfd t.sets.fds).filter (fd < ·)).length + 1 < _
    omega
  | overflow hp hle =>
    show 0 < t.weight sfd
    simp [State.weight, hp]
  | @recvData fd bytes hp hi hcan =>
    have := hlen hi
    show 4 * t.rest.length - 1 < t.weight sfd
    simp only [State.weight, hp]
    omega
  | @recvStop fd res hp hi hres =>
    have hrest : ({ (t.call (.recv fd (t.table.files fd) res)) with
        sets := (RemoveFd t.sets fd).1, iter := (RemoveFd t.sets fd).2,
        point := .close fd } : State).rest = t.sets.fds.filter (fd < ·) := rest_removeFd hsorted
    have := hlen hi
    show 4 * _ + 2 < t.weight sfd
    rw [hrest]
    simp only [State.weight, hp]
    omega
  | @send fd buf res hp hi =>
    have hw : t.weight sfd = 4 * t.rest.length - 1 := by simp [State.weight, hp]
    have := hlen hi
    rw [hw, weight_next (t := t.call (.send fd (t.table.files fd) buf res)) hsorted (hlow hi)]
    show 4 * (t.sets.fds.filter (fd < ·)).length + 1 < _
    omega
  | @close fd hp =>
    have hi : t.iter ≠ some sfd := by simpa only [Reads, hp] using h.point
    show 4 * t.rest.length + (if t.iter = some sfd then 5 else 1) < t.weight sfd
    rw [if_neg hi]
    simp only [State.weight, hp]
    omega

/-- A pass that is not at its end can go on. -/
theorem Walking.goes_on (h : Walking sfd s ready t calls) (hp : t.point ≠ .select) :
    ∃ a, inPass used sfd t a ∧ (step sfd t a).isSome = true := by
  have hpt := h.inv.point
  cases hpc : t.point with
  | select => exact absurd hpc hp
  | loop =>
    refine ⟨.dispatch, ⟨hp, trivial⟩, ?_⟩
    cases hi : t.iter with
    | none => simp [step, hpc, hi]
    | some fd =>
      simp only [step, hpc, hi]
      split
      · rfl
      · split <;> rfl
  | accept =>
    simp only [AtPoint, hpc] at hpt
    exact ⟨.accept none, ⟨hp, trivial⟩, by simp [step, hpc, hpt]⟩
  | recv =>
    simp only [AtPoint, hpc] at hpt
    obtain ⟨fd, hi, -⟩ := hpt
    exact ⟨.recv .fail, ⟨hp, trivial⟩, by simp [step, hpc, hi, Table.CanRecv]⟩
  | send buf =>
    simp only [AtPoint, hpc] at hpt
    obtain ⟨fd, hi, -⟩ := hpt
    exact ⟨.send none, ⟨hp, trivial⟩, by simp [step, hpc, hi]⟩
  | close fd => exact ⟨.close, ⟨hp, trivial⟩, by simp [step, hpc]⟩
  | exited =>
    have hpt := h.point
    simp only [Reads, hpc] at hpt
  | undefined =>
    have hpt := h.point
    simp only [Reads, hpc] at hpt

theorem walking_of_run {as : List Act} (hw : Waiting sfd s)
    (hr : ∀ fd ∈ ready, s.sets.origin_set fd = true)
    (hfit : sfd ∈ ready → ∀ cfd, LowestFree used sfd s cfd → cfd < FD_SETSIZE)
    (h : Run (step sfd) (inPass used sfd) (s.begin ready) as t) :
    ∃ calls, Walking sfd s ready t calls :=
  h.invariant (I := fun t => ∃ calls, Walking sfd s ready t calls) ⟨[], walking_begin hw⟩
    fun _ _ _ ⟨_, hi⟩ hg hs => walking_step hw hr hfit hi hg hs

theorem mem_todo {l : List Fd} {r : Fd × Option Conn} (h : r ∈ todo sfd s ready l) :
    r.1 ∈ l ∧ r.1 ∈ ready ∧ r.1 ≠ sfd ∧ r.2 = s.table.files r.1 := by
  obtain ⟨fd, hfd, rfl⟩ := List.mem_map.mp h
  obtain ⟨hl, hp⟩ := List.mem_filter.mp hfd
  obtain ⟨hm, hne⟩ := of_decide_eq_true hp
  exact ⟨hl, hm, hne, rfl⟩

/-- What was received from is what `select` reported. -/
theorem Walking.mem_recvs (h : Walking sfd s ready t calls) {r : Fd × Option Conn}
    (hm : r ∈ recvs calls) : r ∈ todo sfd s ready s.sets.fds := by
  rw [← h.parts]
  exact List.mem_append_left _ hm

/-- At the end of the pass nothing is left. -/
theorem Walking.count (h : Walking sfd s ready t calls) (hw : Waiting sfd s)
    (hr : ∀ fd ∈ ready, s.sets.origin_set fd = true) (hp : t.point = .select) (hfd : fd ∈ ready)
    (hne : fd ≠ sfd) : ((recvs calls).map Prod.fst).count fd = 1 := by
  have hparts := h.parts
  have hahead : t.ahead = [] := by simp [State.ahead, hp]
  rw [hahead] at hparts
  have hfst : (recvs calls).map Prod.fst =
      s.sets.fds.filter fun fd => fd ∈ ready ∧ fd ≠ sfd := by
    have : recvs calls = todo sfd s ready s.sets.fds := by simpa [todo] using hparts
    rw [this, todo, List.map_map]
    exact List.map_id _
  rw [hfst]
  refine List.count_eq_one_of_mem (hw.inv.sets.nodup.filter _) (List.mem_filter.mpr ⟨?_, ?_⟩)
  · exact (hw.inv.sets.bits fd).mp (hr fd hfd)
  · exact decide_eq_true ⟨hfd, hne⟩

end Walk

/-- `FD_SET` of a number that is too great is undefined, in the middle of the pass. -/
theorem not_passOk_of_overflow {s : State} {ready : List Fd} {cfd : Fd} (hw : Waiting sfd s)
    (hm : sfd ∈ ready) (hcfd : LowestFree used sfd s cfd) (hle : FD_SETSIZE ≤ cfd) :
    ¬ PassOk used sfd s ready := by
  intro hok
  have hg : inPass used sfd { s.begin ready with point := .accept } (.accept (some cfd)) :=
    ⟨by simp, hcfd⟩
  have hg₀ : inPass used sfd (s.begin ready) .dispatch := ⟨by simp [State.begin], trivial⟩
  have hrun := (Run.nil.snoc hg₀ (hw.dispatch hm)).snoc hg (hw.overflow ready hcfd hle)
  rcases hok.ends _ _ ⟨⟨_, hrun⟩, rfl⟩ with he | ⟨a, t', -, hs⟩
  · cases he
  · rw [step_of_undefined rfl] at hs
    cases hs

/-- **When a pass does what it should**, from any state the server waits in and with any result of
`select`: as long as no client comes in, or its number is below `FD_SETSIZE`. -/
theorem passOk_iff {as : List Act} {s : State} {ready : List Fd}
    (h : Run (step sfd) (lowestFree used sfd) (init sfd) as s) (hp : s.point = .select)
    (hr : ∀ fd ∈ ready, s.sets.origin_set fd = true) :
    PassOk used sfd s ready ↔
      (sfd ∈ ready → ∀ cfd, LowestFree used sfd s cfd → cfd < FD_SETSIZE) := by
  obtain ⟨hw, hwf⟩ := waiting_of_run h hp
  constructor
  · intro hok hm cfd hcfd
    by_contra hle
    exact not_passOk_of_overflow hw hm hcfd (not_lt.mp hle) hok
  · intro hfit
    have hwalk : ∀ {t calls}, Comes used sfd s ready t calls → Walking sfd s ready t calls := by
      rintro t calls ⟨⟨as, hrun⟩, hlog⟩
      obtain ⟨calls', hc⟩ := walking_of_run hw hr hfit hrun
      obtain rfl := List.append_cancel_left (hlog.symm.trans hc.log)
      exact hc
    refine ⟨⟨(s.begin ready).weight sfd, fun as t hrun => ?_⟩, fun t calls ht => ?_,
      fun t calls ht htp fd hfd hne => (hwalk ht).count hw hr htp hfd hne,
      fun t calls ht r hm => ?_, fun t calls ht r hm => ?_⟩
    · have := hrun.length_le (I := fun t => ∃ calls, Walking sfd s ready t calls)
        ⟨[], walking_begin hw⟩ fun _ _ _ ⟨_, hi⟩ hg hs =>
          ⟨walking_step hw hr hfit hi hg hs, weight_step hi hg hs⟩
      omega
    · by_cases htp : t.point = .select
      · exact .inl htp
      · obtain ⟨a, hg, hs⟩ := (hwalk ht).goes_on htp
        obtain ⟨t', hs⟩ := Option.isSome_iff_exists.mp hs
        exact .inr ⟨a, t', hg, hs⟩
    · obtain ⟨-, hm, hne, -⟩ := mem_todo ((hwalk ht).mem_recvs hm)
      exact ⟨hm, hne, hr _ hm⟩
    · obtain ⟨hfd, -, hne, he⟩ := mem_todo ((hwalk ht).mem_recvs hm)
      have hopen := ((hw.inv.mem _).mp hfd).1.resolve_left hne
      obtain ⟨c, hc⟩ := Option.isSome_iff_exists.mp hopen
      exact ⟨he, c, hwf.made hc, he.trans hc⟩

/-- Two clients are there; one leaves in the pass in which the third comes in. -/
def busyRun : List Act := [.select [3], .dispatch, .accept (some 4), .dispatch, .dispatch,
  .select [3], .dispatch, .accept (some 5), .dispatch, .dispatch, .dispatch]

theorem passOk_busy : ∃ s, Run (step 3) (lowestFree standard 3) (init 3) busyRun s ∧
    s.sets.fds = [3, 4, 5] ∧ PassOk standard 3 s [3, 4] := by
  obtain ⟨s, hr, hp, hfds, hbits, hfree⟩ : ∃ s,
      Run (step 3) (lowestFree standard 3) (init 3) busyRun s ∧ s.point = .select ∧
      s.sets.fds = [3, 4, 5] ∧ (s.sets.origin_set 3 = true ∧ s.sets.origin_set 4 = true) ∧
      ¬ InUse standard 3 s 6 := Run.exists_of_exec _ _ (by decide)
  have hr' : ∀ fd ∈ [3, 4], s.sets.origin_set fd = true := by simpa using hbits
  exact ⟨s, hr, hfds, (passOk_iff hr hp hr').mpr fun _ cfd hcfd =>
    hcfd.lt_iff.mpr ⟨6, by decide, hfree⟩⟩

/-- **A client too many.** -/
theorem not_passOk : ∃ as s, Run (step 3) (lowestFree standard 3) (init 3) as s ∧
    s.point = .select ∧ s.sets.origin_set 3 = true ∧ ¬ PassOk standard 3 s [3] := by
  obtain ⟨as, s, hr, hw, hfree⟩ := crowd_full
  exact ⟨as, s, hr, hw.point, (hw.inv.sets.bits 3).mpr hw.mem,
    not_passOk_of_overflow hw (List.mem_singleton.mpr rfl) hfree le_rfl⟩

end PracticeCode.SelectServer
