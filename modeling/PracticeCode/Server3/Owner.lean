import PracticeCode.Server3.Inv

/-!
# Which connection a worker of server 3 acts on

`data_handler(rev)` keeps the number `rev->client_fd` while other workers may close it and `accept`
may give it to another client.  `OnOwnConnection` says that this does no harm: every call acts on
the connection `rev` was bound for, nothing is called for `rev` after its close, and no bytes go to
another client than they came from.

* `strayRun`: two workers on one connection, one closes it, the number is accepted again, and the
  other sends what it still holds to the new client;
* `onOwnConnection`: this needs a close while the object is still in use.  In every run in which a
  worker closes the descriptor as the last user of its object (`closesAlone`), `OnOwnConnection`
  holds of every state.
-/

namespace PracticeCode.Server3

open Lib Linux

/-! ## What is claimed of the calls -/

def Op.rev : Op → RevPtr
  | .recv rev _ _ | .send rev _ _ _ _ | .ctlDel rev _ | .close rev _ => rev

def Op.target : Op → Option File
  | .recv _ target _ | .send _ target _ _ _ | .ctlDel _ target | .close _ target => target

def Op.isClose : Op → Bool
  | .close .. => true
  | _ => false

/-- **Every call acts on the connection its object was bound for.** -/
structure OnOwnConnection (log : List Op) : Prop where
  own : ∀ o ∈ log, ∃ c, o.rev = .data c ∧ o.target = some (.sock c)
  afterClose : log.Pairwise fun o o' => ¬ (o.isClose = true ∧ o'.rev = o.rev)
  echo : ∀ rev target src buf res, .send rev target src buf res ∈ log → target = some (.sock src)

def Worker.rev : Worker → Option RevPtr
  | .idle => none
  | .run rev _ _ => some rev

/-- The object is in an event of the batch, in a task of the pool or with a worker. -/
def Used (s : State) (rev : RevPtr) : Prop :=
  (rev, true) ∈ s.reactor.batch ∨ rev ∈ s.task_queue ∨ ∃ x ∈ s.workers, x.rev = some rev

instance (s : State) (rev : RevPtr) : Decidable (Used s rev) := by unfold Used; infer_instance

/-- A worker calls `close` when no event, task or other worker uses its object. -/
def closesAlone (s : State) : Act → Prop
  | .close w =>
    match s.workers[w]? with
    | some (.run rev _ _) => ¬ Used (s.setWorker w .idle) rev
    | _ => True
  | _ => True

instance (s : State) (a : Act) : Decidable (closesAlone s a) := by
  induction a using Act.casesOn with
  | close w =>
    unfold closesAlone
    dsimp only
    generalize s.workers[w]? = x
    match x with
    | some (.run ..) => infer_instance
    | some .idle | none => exact isTrue trivial
  | _ => exact isTrue trivial

/-! ## Where the uses of an object come from -/

theorem Used.mono {s s' : State} {rev : RevPtr} (h : Used s' rev)
    (hb : (rev, true) ∈ s'.reactor.batch → Used s rev) (hq : rev ∈ s'.task_queue → Used s rev)
    (hw : ∀ x ∈ s'.workers, x.rev = some rev → Used s rev) : Used s rev := by
  rcases h with h | h | ⟨x, hx, e⟩
  · exact hb h
  · exact hq h
  · exact hw x hx e

theorem Used.of_set {s s' : State} {w : ℕ} {x : Worker} {rev : RevPtr} (h : Used s' rev)
    (hb : s'.reactor.batch = s.reactor.batch) (hq : ∀ rev ∈ s'.task_queue, rev ∈ s.task_queue)
    (hw : s'.workers = s.workers.set w x) (hx : x.rev = some rev → Used s rev) : Used s rev := by
  refine h.mono (fun hm => .inl (hb ▸ hm)) (fun hm => .inr (.inl (hq _ hm))) fun y hy e => ?_
  rw [hw] at hy
  rcases List.mem_or_eq_of_mem_set hy with hy | rfl
  · exact .inr (.inr ⟨y, hy, e⟩)
  · exact hx e

/-- The reactor moves on: the rest of the batch is all it brings. -/
theorem Used.of_batch {s s' : State} {rev : RevPtr} (h : Used s' rev)
    (hb : ∀ e ∈ s'.reactor.batch, e ∈ s.reactor.batch)
    (hq : ∀ rev ∈ s'.task_queue, Used s rev) (hw : s'.workers = s.workers) : Used s rev :=
  h.mono (fun hm => .inl (hb _ hm)) (hq _) fun x hx e => .inr (.inr ⟨x, hw ▸ hx, e⟩)

theorem used_of_slot {s : State} {w : ℕ} {rev : RevPtr} {cfd : Fd} {pt : Point}
    (hw : s.workers[w]? = some (.run rev cfd pt)) : Used s rev :=
  .inr (.inr ⟨_, List.mem_of_getElem? hw, rfl⟩)

/-- **Only `epoll_wait` brings an object into use**, and only one that is registered. -/
theorem used_of_step {s s' : State} {a : Act} {rev : RevPtr} (hs : step s a = some s')
    (h : Used s' rev) : Used s rev ∨ ∃ fd, s.kernel.reg fd = some rev := by
  have hqueue : ∀ rev ∈ s.task_queue, Used s rev := fun _ hm => .inr (.inl hm)
  cases outcome_of_step hs with
  | connect => exact .inl h
  | clientSend => exact .inl h
  | clientClose => exact .inl h
  | @epollWait fds p hr hk =>
    obtain ⟨-, -, hevs, -⟩ := Kernel.epollWait_eq_some hk
    rcases h with h | h
    · right
      replace h : (rev, true) ∈ p.1 := h
      rw [hevs] at h
      obtain ⟨fd, -, hfd⟩ := List.mem_filterMap.mp h
      obtain ⟨rev', hreg, e⟩ := Option.map_eq_some_iff.mp hfd
      obtain ⟨rfl, -⟩ := Prod.mk.inj e
      exact ⟨fd, hreg⟩
    · exact .inl (.inr h)
  | batchEnd hr => exact .inl (h.of_batch nofun hqueue rfl)
  | skip hr => exact .inl (h.of_batch (fun e hm => by rw [hr]; exact .tail _ hm) hqueue rfl)
  | connection hr => exact .inl (h.of_batch (fun e hm => by rw [hr]; exact .tail _ hm) hqueue rfl)
  | @enqueue rev' evs r hr =>
    refine .inl (h.of_batch (fun e hm => by rw [hr]; exact .tail _ hm) (fun rev hm => ?_) rfl)
    rcases List.mem_append.mp hm with hm | hm
    · exact hqueue _ hm
    · rw [List.mem_singleton.mp hm]
      exact .inl (by rw [hr]; exact .head _)
  | accept hr => exact .inl (h.of_batch (fun e hm => by rw [hr]; exact hm) hqueue rfl)
  | acceptAgain hr => exact .inl (h.of_batch (fun e hm => by rw [hr]; exact hm) hqueue rfl)
  | exit => exact .inl (h.mono nofun nofun nofun)
  | ctlAdd hr => exact .inl (h.of_batch (fun e hm => by rw [hr]; exact hm) hqueue rfl)
  | @pop w rev' rest r hw hq =>
    have hsub : ∀ rev ∈ rest, rev ∈ s.task_queue := fun _ hm => by rw [hq]; exact .tail _ hm
    refine .inl (h.of_set rfl hsub rfl fun e => ?_)
    cases e
    exact hqueue _ (by rw [hq]; exact .head _)
  | recvData hw | recvStop hw | send hw | ctlDel hw =>
    refine .inl (h.of_set rfl (fun _ => id) rfl fun e => ?_)
    cases e
    exact used_of_slot hw
  | recvAgain hw | close hw => exact .inl (h.of_set rfl (fun _ => id) rfl nofun)

/-! ## The closes of the log -/

/-- A close in the log was there before, or a worker at its `close` made it just now. -/
theorem close_mem_of_step {s s' : State} {a : Act} {o : Op} (hs : step s a = some s')
    (hm : o ∈ s'.log) (hc : o.isClose = true) : o ∈ s.log ∨
      ∃ (w : ℕ) (cfd : Fd), s.workers[w]? = some (.run o.rev cfd .close) ∧
        s'.kernel = s.kernel.close cfd := by
  have hrecord : ∀ {x : Op}, o ∈ s.log ++ [x] → x.isClose = false → o ∈ s.log := by
    intro x hm hx
    rcases List.mem_append.mp hm with hm | hm
    · exact hm
    · rw [List.mem_singleton.mp hm, hx] at hc
      cases hc
  cases outcome_of_step hs with
  | recvData => exact .inl (hrecord hm rfl)
  | recvAgain => exact .inl (hrecord hm rfl)
  | recvStop => exact .inl (hrecord hm rfl)
  | send => exact .inl (hrecord hm rfl)
  | ctlDel => exact .inl (hrecord hm rfl)
  | close hw =>
    rcases List.mem_append.mp hm with hm | hm
    · exact .inl hm
    · cases List.mem_singleton.mp hm
      exact .inr ⟨_, _, hw, rfl⟩
  | _ => exact .inl hm

/-! ## Runs that close as the last user -/

structure Own (s : State) : Prop where
  used : ∀ {c}, Used s (.data c) → ∃ fd, Bound s.heap (.data c) fd ∧
    s.kernel.files fd = some (.sock c)
  closed : ∀ {o}, o ∈ s.log → o.isClose = true → ∃ c, o.rev = .data c ∧
    s.heap (.data c) ≠ none ∧ ∀ fd, s.kernel.files fd ≠ some (.sock c)
  held : ∀ {rev cfd src buf}, .run rev cfd (.send src buf) ∈ s.workers → rev = .data src
  log : OnOwnConnection s.log

theorem init_own (n : ℕ) : Own (init n) := by
  have hw : ∀ {x}, x ∈ (init n).workers → x = .idle := fun hx => (List.mem_replicate.mp hx).2
  refine ⟨?_, nofun, fun hm => (by cases hw hm), ⟨nofun, .nil, nofun⟩⟩
  rintro c (h | h | ⟨x, hx, e⟩)
  · cases h
  · cases h
  · rw [hw hx] at e
    cases e

theorem OnOwnConnection.append {log : List Op} {o : Op} (h : OnOwnConnection log)
    (hown : ∃ c, o.rev = .data c ∧ o.target = some (.sock c))
    (hafter : ∀ o' ∈ log, o'.isClose = true → o.rev ≠ o'.rev)
    (hecho : ∀ rev target src buf res, o = .send rev target src buf res →
      target = some (.sock src)) : OnOwnConnection (log ++ [o]) := by
  refine ⟨?_, ?_, ?_⟩
  · intro o' hm
    rcases List.mem_append.mp hm with hm | hm
    · exact h.own o' hm
    · rw [List.mem_singleton.mp hm]
      exact hown
  · refine List.pairwise_append.mpr ⟨h.afterClose, List.pairwise_singleton _ _, ?_⟩
    rintro o' hm x hx ⟨hc, e⟩
    rw [List.mem_singleton.mp hx] at e
    exact hafter o' hm hc e
  · intro rev target src buf res hm
    rcases List.mem_append.mp hm with hm | hm
    · exact h.echo _ _ _ _ _ hm
    · exact hecho _ _ _ _ _ (List.mem_singleton.mp hm).symm

section Guarded

variable {s s' : State} {a : Act}

/-- A running worker is on the connection of its object. -/
theorem Own.slot (hi : Inv s) (h : Own s) {w : ℕ} {rev : RevPtr} {cfd : Fd} {pt : Point}
    (hw : s.workers[w]? = some (.run rev cfd pt)) :
    ∃ c, rev = .data c ∧ s.kernel.files cfd = some (.sock c) := by
  have hb := hi.workers (List.mem_of_getElem? hw)
  obtain ⟨c, -, rfl, -, -⟩ := id hb
  obtain ⟨fd, hb', hf⟩ := h.used (used_of_slot hw)
  rw [hb'.unique hb] at hf
  exact ⟨c, rfl, hf⟩

theorem Own.used_step (hi : Inv s) (h : Own s) (hg : closesAlone s a) (hs : step s a = some s')
    {c : Conn} (hu : Used s' (.data c)) :
    ∃ fd, Bound s'.heap (.data c) fd ∧ s'.kernel.files fd = some (.sock c) := by
  obtain ⟨fd, hb, hf⟩ : ∃ fd, Bound s.heap (.data c) fd ∧ s.kernel.files fd = some (.sock c) := by
    rcases used_of_step hs hu with hu | ⟨fd, hreg⟩
    · exact h.used hu
    · rcases hi.reg hreg with ⟨e, -⟩ | ⟨c', e, hb, hf⟩
      · cases e
      · cases e
        exact ⟨fd, hb, hf⟩
  refine ⟨fd, hb.of_step hi hs, ?_⟩
  rcases open_of_step hs hf with hf | rfl | ⟨w, rev, rfl, hw, hworkers, hr, hq⟩
  · exact hf
  · rcases hu with hu | hu | ⟨x, hx, -⟩
    · cases hu
    · cases hu
    · cases hx
  · -- the guard: the object is not in use after its close
    obtain ⟨c', rfl, hf'⟩ := h.slot hi hw
    rw [hf] at hf'
    cases hf'
    simp only [closesAlone, hw] at hg
    refine absurd ?_ hg
    simp only [Used, hr, hq, hworkers] at hu
    exact hu

/-- The call of a running worker extends the log. -/
theorem Own.op (hi : Inv s) (h : Own s) {w : ℕ} {rev : RevPtr} {cfd : Fd} {pt : Point} {o : Op}
    (hw : s.workers[w]? = some (.run rev cfd pt)) (hrev : o.rev = rev)
    (htarget : o.target = s.kernel.files cfd)
    (hecho : ∀ rev' target src buf res, o = .send rev' target src buf res → rev = .data src) :
    OnOwnConnection (s.log ++ [o]) := by
  obtain ⟨c, rfl, hf⟩ := h.slot hi hw
  refine h.log.append ⟨c, hrev, htarget.trans hf⟩ ?_ ?_
  · intro o' hm hc e
    obtain ⟨c', e', -, hclosed⟩ := h.closed hm hc
    rw [hrev, e'] at e
    cases e
    exact hclosed _ hf
  · rintro rev' target src buf res rfl
    cases hecho _ _ _ _ _ rfl
    exact htarget.trans hf

/-- What the step adds to the log keeps the log right. -/
theorem Own.log_step (hi : Inv s) (h : Own s) (hs : step s a = some s') :
    OnOwnConnection s'.log := by
  cases outcome_of_step hs with
  | recvData hw => exact h.op hi hw rfl rfl nofun
  | recvAgain hw => exact h.op hi hw rfl rfl nofun
  | recvStop hw => exact h.op hi hw rfl rfl nofun
  | send hw =>
    refine h.op hi hw rfl rfl fun _ _ _ _ _ e => ?_
    cases e
    exact h.held (List.mem_of_getElem? hw)
  | ctlDel hw => exact h.op hi hw rfl rfl nofun
  | close hw => exact h.op hi hw rfl rfl nofun
  | _ => exact h.log

theorem Own.held_step (hi : Inv s) (h : Own s) (hs : step s a = some s') {rev : RevPtr} {cfd : Fd}
    {src : Conn} {buf : List UInt8} (hm : .run rev cfd (.send src buf) ∈ s'.workers) :
    rev = .data src := by
  rcases send_mem_of_step hs hm with hm | ⟨w, hw, hf⟩
  · exact h.held hm
  · obtain ⟨c, rfl, hf'⟩ := h.slot hi hw
    rw [hf] at hf'
    cases hf'
    rfl

theorem Own.closed_step (hi : Inv s) (h : Own s) (hs : step s a = some s') {o : Op}
    (hm : o ∈ s'.log) (hc : o.isClose = true) : ∃ c, o.rev = .data c ∧
      s'.heap (.data c) ≠ none ∧ ∀ fd, s'.kernel.files fd ≠ some (.sock c) := by
  rcases close_mem_of_step hs hm hc with hm | ⟨w, cfd, hw, hk⟩
  · obtain ⟨c, e, hh, hf⟩ := h.closed hm hc
    obtain ⟨r, hr⟩ := Option.ne_none_iff_exists'.mp hh
    exact ⟨c, e, by rw [heap_of_step hi hs hr]; rintro ⟨⟩, closed_of_step hi hs hh hf⟩
  · obtain ⟨c, e, hf⟩ := h.slot hi hw
    obtain ⟨_, r, -, hr, -⟩ := hi.workers (List.mem_of_getElem? hw)
    rw [e] at hr
    refine ⟨c, e, by rw [heap_of_step hi hs hr]; rintro ⟨⟩, fun fd => ?_⟩
    rw [hk]
    simp only [Kernel.close, Function.update_apply]
    split
    · rintro ⟨⟩
    · rename_i e
      exact fun hf' => e (hi.kernel.sock_inj hf' hf)

theorem own_step (hi : Inv s) (h : Own s) (hg : closesAlone s a) (hs : step s a = some s') :
    Own s' :=
  ⟨h.used_step hi hg hs, h.closed_step hi hs, h.held_step hi hs, h.log_step hi hs⟩

end Guarded

/-- **A worker that closes as the last user of its object acts on its own connection**: in every
run whose closes are all of this kind, for every number of workers and whatever free numbers
`accept` returns. -/
theorem onOwnConnection {n : ℕ} {as : List Act} {s : State}
    (h : Run step closesAlone (init n) as s) : OnOwnConnection s.log := by
  have : Inv s ∧ Own s := h.invariant (I := fun s => Inv s ∧ Own s) ⟨init_inv n, init_own n⟩
    fun _ _ _ hI hg hs => ⟨inv_step hI.1 hs, own_step hI.1 hI.2 hg hs⟩
  exact this.2.log

/-- One client is served, closes, and its number goes to a second client that is served too. -/
def reuseRun : List Act :=
  [.connect, .epollWait [4], .dispatch, .accept 5, .ctlAdd, .acceptAgain, .dispatch,
    .clientSend 0 [1], .epollWait [5], .dispatch, .dispatch, .pop 0, .recv 0 1024,
    .send 0 (some 1024), .recv 0 1024, .clientClose 0, .epollWait [5], .dispatch, .dispatch,
    .pop 0, .recv 0 1024, .ctlDel 0, .close 0,
    .connect, .epollWait [4], .dispatch, .accept 5, .ctlAdd, .acceptAgain, .dispatch,
    .clientSend 1 [2], .epollWait [5], .dispatch, .dispatch, .pop 0, .recv 0 1024,
    .send 0 (some 1024)]

set_option maxRecDepth 8000 in
theorem onOwnConnection_reuse : ∃ s, Run step closesAlone (init 1) reuseRun s ∧
    .send (.data 1) (some (.sock 1)) 1 (fill [2]) (some 1024) ∈ s.log ∧ OnOwnConnection s.log := by
  obtain ⟨s, hr, hp⟩ : ∃ s, Run step closesAlone (init 1) reuseRun s ∧
      .send (.data 1) (some (.sock 1)) 1 (fill [2]) (some 1024) ∈ s.log :=
    Run.exists_of_exec _ _ (by decide)
  exact ⟨s, hr, hp, onOwnConnection hr⟩

/-! ## Without the guard -/

/-- Client 0 sends and closes while worker 0 holds its bytes; worker 1 closes the descriptor,
client 1 gets the number 5, and worker 0 sends client 0's bytes to it. -/
def strayRun : List Act :=
  [.connect, .epollWait [4], .dispatch, .accept 5, .ctlAdd, .acceptAgain, .dispatch,
    .clientSend 0 [1], .epollWait [5], .dispatch, .dispatch, .pop 0, .recv 0 1024,
    .clientClose 0, .epollWait [5], .dispatch, .dispatch, .pop 1, .recv 1 1024, .ctlDel 1, .close 1,
    .connect, .epollWait [4], .dispatch, .accept 5, .ctlAdd, .send 0 (some 1024)]

set_option maxRecDepth 8000 in
/-- **A worker sends one client's bytes to another.** -/
theorem not_onOwnConnection :
    ¬ ∀ n as s, Run step lowestFree (init n) as s → OnOwnConnection s.log := by
  intro h
  obtain ⟨s, hr, hp⟩ : ∃ s, Run step lowestFree (init 2) strayRun s ∧
      .send (.data 0) (some (.sock 1)) 0 (fill [1]) (some 1024) ∈ s.log :=
    Run.exists_of_exec _ _ (by decide)
  have := (h _ _ _ hr).echo _ _ _ _ _ hp
  cases this

end PracticeCode.Server3
