import PracticeCode.Server3.Inv

/-!
# The order of the echoes of server 3

`received` are the chunks the workers took from a connection, `offered` the buffers they handed to
`send` on it, in the order of the calls.

* `swapRun`: a second edge queues a second task, two workers take one chunk each, and the second
  one sends first;
* `offered_inOrder`: this is the only way to lose the order.  In every run in which no worker takes
  a chunk from the connection while another one still holds a chunk of it, and the number of the
  connection was not in the hands of a sending worker when `accept` returned it, the buffers offered
  on the open connection are a prefix of the chunks received from it; and so are the buffers the
  socket accepted, when every `send` accepts the whole buffer.
-/

namespace PracticeCode.Server3

open Lib Linux

/-! ## The chunks and the buffers of one connection -/

/-- The chunk a call took from the connection. -/
def Op.taken (c : Conn) : Op → Option (List UInt8)
  | .recv _ target chunk => if target = some (.sock c) ∧ chunk ≠ [] then some chunk else none
  | _ => none

/-- The buffer a call handed to `send` on the connection. -/
def Op.handed (c : Conn) : Op → Option (List UInt8)
  | .send _ target _ buf _ => if target = some (.sock c) then some buf else none
  | _ => none

/-- The bytes the socket of the connection accepted in a call. -/
def Op.echoed (c : Conn) : Op → Option (List UInt8)
  | .send _ target _ buf (some m) => if target = some (.sock c) then some (buf.take m) else none
  | _ => none

/-- The call is no `send` on the connection, or the socket accepted all of it. -/
def Op.whole (c : Conn) : Op → Prop
  | .send _ target _ buf res => target = some (.sock c) → res = some buf.length
  | _ => True

def received (log : List Op) (c : Conn) : List (List UInt8) := log.filterMap (Op.taken c)

def offered (log : List Op) (c : Conn) : List (List UInt8) := log.filterMap (Op.handed c)

def echoes (log : List Op) (c : Conn) : List (List UInt8) := log.filterMap (Op.echoed c)

/-- **The chunks of `c` are echoed in the order received**: they are offered to `send` in this
order, and accepted by the socket in this order if every `send` accepts its whole buffer. -/
def InOrder (log : List Op) (c : Conn) : Prop :=
  offered log c <+: (received log c).map fill ∧
    ((∀ o ∈ log, o.whole c) → echoes log c <+: (received log c).map fill)

/-- When the socket accepts everything, it accepts what is offered. -/
theorem echoes_eq_offered {log : List Op} {c : Conn} (h : ∀ o ∈ log, o.whole c) :
    echoes log c = offered log c := by
  refine List.filterMap_congr fun o ho => ?_
  have hw := h o ho
  cases o with
  | send rev target src buf res =>
    by_cases ht : target = some (.sock c)
    · have := hw ht
      subst this
      simp [Op.echoed, Op.handed, ht]
    · cases res <;> simp [Op.echoed, Op.handed, ht]
  | _ => rfl

theorem InOrder.of_offered {log : List Op} {c : Conn}
    (h : offered log c <+: (received log c).map fill) : InOrder log c :=
  ⟨h, fun hw => by rw [echoes_eq_offered hw]; exact h⟩

/-! ## The guard -/

/-- The worker is about to send a chunk of `c`. -/
def Worker.holds (c : Conn) : Worker → Bool
  | .run _ _ (.send src _) => src == c
  | _ => false

/-- The worker is about to send on the number `fd`. -/
def Worker.sendsTo (fd : Fd) : Worker → Bool
  | .run _ cfd (.send _ _) => cfd == fd
  | _ => false

/-- No worker takes a chunk of `c` while another one holds one, and `c` does not get a number that
a worker is about to send on. -/
def oneAtATime (c : Conn) (s : State) : Act → Prop
  | .recv w _ =>
    match s.workers[w]? with
    | some (.run _ cfd .recv) =>
      s.kernel.files cfd = some (.sock c) → s.kernel.inbox c ≠ [] →
        ∀ x ∈ s.workers, x.holds c = false
    | _ => True
  | .accept fd => s.kernel.backlog.head? = some c → ∀ x ∈ s.workers, x.sendsTo fd = false
  | _ => True

instance (c : Conn) (s : State) (a : Act) : Decidable (oneAtATime c s a) := by
  induction a using Act.casesOn with
  | recv w n =>
    unfold oneAtATime
    dsimp only
    generalize s.workers[w]? = x
    match x with
    | some (.run rev cfd pt) => induction pt using Point.casesOn <;> infer_instance
    | some .idle | none => exact isTrue trivial
  | accept fd => unfold oneAtATime; infer_instance
  | _ => exact isTrue trivial

/-! ## The invariant -/

/-- Worker `v` is about to send a chunk of `src` on `cfd`. -/
def SendAt (l : List Worker) (v : ℕ) (cfd : Fd) (src : Conn) (buf : List UInt8) : Prop :=
  ∃ rev, l[v]? = some (.run rev cfd (.send src buf))

/-- All chunks are offered, or one worker holds the last one. -/
inductive Pending (s : State) (c : Conn) : Prop
  | none : (received s.log c).map fill = offered s.log c →
      (∀ v cfd buf, ¬ SendAt s.workers v cfd c buf) → Pending s c
  | one {v cfd buf} : SendAt s.workers v cfd c buf →
      (received s.log c).map fill = offered s.log c ++ [buf] →
      (∀ v' cfd' buf', SendAt s.workers v' cfd' c buf' → v' = v) → Pending s c

structure Order (c : Conn) (s : State) : Prop where
  fresh : ¬ s.kernel.Accepted c → received s.log c = [] ∧ offered s.log c = [] ∧
    ∀ v cfd buf, ¬ SendAt s.workers v cfd c buf
  sends : ∀ {fd}, s.kernel.files fd = some (.sock c) → ∀ {v cfd src buf},
    SendAt s.workers v cfd src buf → (src = c ↔ cfd = fd)
  pending : ∀ {fd}, s.kernel.files fd = some (.sock c) → Pending s c

theorem init_order (n : ℕ) (c : Conn) : Order c (init n) := by
  have hs : ∀ v cfd src buf, ¬ SendAt (init n).workers v cfd src buf := by
    rintro v cfd src buf ⟨rev, h⟩
    have := (List.mem_replicate.mp (List.mem_of_getElem? h)).2
    cases this
  exact ⟨fun _ => ⟨rfl, rfl, fun v cfd buf => hs v cfd c buf⟩,
    fun _ _ _ _ _ h => absurd h (hs _ _ _ _), fun _ => .none rfl fun v cfd buf => hs v cfd c buf⟩

section Step

variable {s s' : State} {a : Act} {c : Conn}

theorem sendAt_set {l : List Worker} {w : ℕ} {x y : Worker} (hw : l[w]? = some x) {v : ℕ}
    {cfd : Fd} {src : Conn} {buf : List UInt8} : SendAt (l.set w y) v cfd src buf ↔
      (v = w ∧ ∃ rev, y = .run rev cfd (.send src buf)) ∨ (v ≠ w ∧ SendAt l v cfd src buf) := by
  by_cases e : w = v
  · subst e
    simp only [SendAt, List.getElem?_set_self (List.getElem?_eq_some_iff.mp hw).1, true_and,
      Option.some.injEq, ne_eq, not_true_eq_false, false_and, or_false]
  · simp only [SendAt, List.getElem?_set_ne e, Ne.symm e, false_and, ne_eq, not_false_eq_true,
      true_and, false_or]

/-- Replacing a worker that does not send by one that does not send moves no chunk. -/
theorem sendAt_quiet {l : List Worker} {w : ℕ} {x y : Worker} (hw : l[w]? = some x)
    (hx : ∀ rev cfd src buf, x ≠ .run rev cfd (.send src buf))
    (hy : ∀ rev cfd src buf, y ≠ .run rev cfd (.send src buf)) (v : ℕ) (cfd : Fd) (src : Conn)
    (buf : List UInt8) : SendAt (l.set w y) v cfd src buf ↔ SendAt l v cfd src buf := by
  rw [sendAt_set hw]
  constructor
  · rintro (⟨-, rev, e⟩ | ⟨-, h⟩)
    · exact absurd e (hy _ _ _ _)
    · exact h
  · intro h
    refine .inr ⟨?_, h⟩
    rintro rfl
    obtain ⟨rev, h⟩ := h
    rw [hw] at h
    exact absurd (Option.some.inj h) (hx _ _ _ _)

/-- What was taken and offered is the same, and so are the chunks the workers hold. -/
theorem Pending.same (h : Pending s c) (hrecv : received s'.log c = received s.log c)
    (hoff : offered s'.log c = offered s.log c)
    (hsend : ∀ v cfd buf, SendAt s'.workers v cfd c buf ↔ SendAt s.workers v cfd c buf) :
    Pending s' c := by
  cases h with
  | none e hno =>
    exact .none (by rw [hrecv, hoff, e]) fun v cfd buf hv => hno v cfd buf ((hsend ..).mp hv)
  | one hv e huniq =>
    exact .one ((hsend ..).mpr hv) (by rw [hrecv, hoff, e]) fun v' cfd' buf' hv' =>
      huniq v' cfd' buf' ((hsend ..).mp hv')

/-- A step that moves no chunk of `c`. -/
theorem Order.quiet (h : Order c s) (hs : step s a = some s') (hg : oneAtATime c s a)
    (hrecv : received s'.log c = received s.log c) (hoff : offered s'.log c = offered s.log c)
    (hsend : ∀ v cfd src buf, SendAt s'.workers v cfd src buf ↔ SendAt s.workers v cfd src buf) :
    Order c s' := by
  refine ⟨fun hn => ?_, fun hf v cfd src buf hv => ?_, fun hf => ?_⟩
  · obtain ⟨h1, h2, h3⟩ := h.fresh fun hc => hn (accepted_of_step hs hc)
    exact ⟨hrecv.trans h1, hoff.trans h2, fun v cfd buf hv => h3 v cfd buf ((hsend ..).mp hv)⟩
  · have hv := (hsend ..).mp hv
    rcases opened_of_step hs hf with hf | ⟨rfl, hb, -⟩
    · exact h.sends hf hv
    · -- `c` is accepted now: nothing was taken from it, and the guard keeps its number free
      have hn : ¬ s.kernel.Accepted c := fun hc => hc.2 (List.mem_of_mem_head? hb)
      obtain ⟨rev, hv'⟩ := id hv
      have hg := hg hb _ (List.mem_of_getElem? hv')
      simp only [Worker.sendsTo, beq_eq_false_iff_ne] at hg
      refine ⟨?_, fun e => absurd e hg⟩
      rintro rfl
      exact absurd hv ((h.fresh hn).2.2 _ _ _)
  · have hp : Pending s c := by
      rcases opened_of_step hs hf with hf | ⟨-, hb, -⟩
      · exact h.pending hf
      · obtain ⟨h1, h2, h3⟩ := h.fresh fun hc => hc.2 (List.mem_of_mem_head? hb)
        exact .none (by rw [h1, h2]; rfl) h3
    exact hp.same hrecv hoff fun v cfd buf => hsend v cfd c buf

/-- A worker takes a chunk. -/
theorem Order.recvData (hi : Inv s) (h : Order c s) {w n : ℕ} {rev : RevPtr} {cfd : Fd} {c₀ : Conn}
    {chunk : List UInt8} {k : Kernel RevPtr} (hg : oneAtATime c s (.recv w n))
    (hw : s.workers[w]? = some (.run rev cfd .recv))
    (hk : s.kernel.recv cfd n = (.data c₀ chunk, k)) (hne : chunk ≠ []) :
    Order c (({ s with kernel := k }.setWorker w (.run rev cfd (.send c₀ (fill chunk)))).record
      (.recv rev (s.kernel.files cfd) chunk)) := by
  obtain ⟨hf₀, hinbox, -, rfl⟩ := Kernel.recv_eq_data hk
  have hoff : ∀ log, offered (log ++ [.recv rev (s.kernel.files cfd) chunk]) c = offered log c := by
    intro log; simp [offered, Op.handed]
  have hrecv : received (s.log ++ [.recv rev (s.kernel.files cfd) chunk]) c =
      received s.log c ++ if c₀ = c then [chunk] else [] := by
    by_cases e : c₀ = c
    · simp [received, Op.taken, hf₀, hne, e]
    · simp [received, Op.taken, hf₀, e]
  have hslot : ∀ {v cfd' src buf}, SendAt (s.workers.set w (.run rev cfd (.send c₀ (fill chunk))))
      v cfd' src buf ↔ (v = w ∧ cfd' = cfd ∧ src = c₀ ∧ buf = fill chunk) ∨
        (v ≠ w ∧ SendAt s.workers v cfd' src buf) := by
    intro v cfd' src buf
    rw [sendAt_set hw]
    simp only [Worker.run.injEq, Point.send.injEq, eq_comm]
    simp
  have hnot : ∀ {cfd' src buf}, ¬ SendAt s.workers w cfd' src buf := by
    rintro cfd' src buf ⟨rev', h'⟩
    rw [hw] at h'
    cases h'
  refine ⟨fun hn => ?_, fun {fd} hf {v cfd' src buf} hv => ?_, fun {fd} hf => ?_⟩
  · have hc : c₀ ≠ c := by rintro rfl; exact hn (hi.kernel.accepted_of_open hf₀)
    obtain ⟨h1, h2, h3⟩ := h.fresh hn
    refine ⟨?_, (hoff _).trans h2, fun v cfd' buf hv => ?_⟩
    · show received (s.log ++ _) c = []
      rw [hrecv, h1, if_neg hc]
      rfl
    · rcases hslot.mp hv with ⟨-, -, e, -⟩ | ⟨-, hv⟩
      · exact hc e.symm
      · exact h3 _ _ _ hv
  · rcases hslot.mp hv with ⟨-, rfl, rfl, -⟩ | ⟨-, hv⟩
    · constructor
      · rintro rfl; exact hi.kernel.sock_inj hf₀ hf
      · rintro rfl
        have := hf₀.symm.trans hf
        cases this
        rfl
    · exact h.sends hf hv
  · by_cases e : c₀ = c
    · -- the guard: nobody holds a chunk of `c` yet
      subst e
      simp only [oneAtATime, hw] at hg
      have hno : ∀ v cfd' buf, ¬ SendAt s.workers v cfd' c₀ buf := by
        rintro v cfd' buf ⟨rev', hv⟩
        have := hg hf₀ hinbox _ (List.mem_of_getElem? hv)
        simp [Worker.holds] at this
      have hall : (received s.log c₀).map fill = offered s.log c₀ := by
        cases h.pending hf₀ with
        | none e => exact e
        | one hv => exact absurd hv (hno _ _ _)
      refine .one (hslot.mpr (.inl ⟨rfl, rfl, rfl, rfl⟩)) ?_ ?_
      · show (received (s.log ++ _) c₀).map fill = offered (s.log ++ _) c₀ ++ [fill chunk]
        rw [hrecv, hoff, if_pos rfl, List.map_append, hall]
        rfl
      · intro v' cfd' buf' hv'
        rcases hslot.mp hv' with ⟨e, -⟩ | ⟨-, hv'⟩
        · exact e
        · exact absurd hv' (hno _ _ _)
    · refine (h.pending hf).same ?_ (hoff _) fun v cfd' buf =>
        hslot.trans ⟨?_, fun hv => .inr ⟨?_, hv⟩⟩
      · show received (s.log ++ _) c = received s.log c
        rw [hrecv, if_neg e, List.append_nil]
      · rintro (⟨-, -, e', -⟩ | ⟨-, hv⟩)
        · exact absurd e'.symm e
        · exact hv
      · rintro rfl
        exact hnot hv

/-- A worker sends the buffer it holds. -/
theorem Order.send (hi : Inv s) (h : Order c s) {w : ℕ} {rev : RevPtr} {cfd : Fd} {src : Conn}
    {buf : List UInt8} {res : Option ℕ}
    (hw : s.workers[w]? = some (.run rev cfd (.send src buf))) :
    Order c ((s.setWorker w (.run rev cfd .recv)).record
      (.send rev (s.kernel.files cfd) src buf res)) := by
  have hself : SendAt s.workers w cfd src buf := ⟨rev, hw⟩
  have hrecv : ∀ log, received (log ++ [.send rev (s.kernel.files cfd) src buf res]) c =
      received log c := by intro log; simp [received, Op.taken]
  have hoff : offered (s.log ++ [.send rev (s.kernel.files cfd) src buf res]) c =
      offered s.log c ++ if s.kernel.files cfd = some (.sock c) then [buf] else [] := by
    by_cases e : s.kernel.files cfd = some (.sock c)
    · simp [offered, Op.handed, e]
    · simp [offered, Op.handed, e]
  have hslot : ∀ {v cfd' src' buf'},
      SendAt (s.workers.set w (.run rev cfd .recv)) v cfd' src' buf' ↔
        v ≠ w ∧ SendAt s.workers v cfd' src' buf' := by
    intro v cfd' src' buf'
    rw [sendAt_set hw]
    simp
  refine ⟨fun hn => ?_, fun {fd} hf {v cfd' src' buf'} hv => h.sends hf (hslot.mp hv).2,
    fun {fd} hf => ?_⟩
  · obtain ⟨h1, h2, h3⟩ := h.fresh hn
    have hne : s.kernel.files cfd ≠ some (.sock c) := fun hf => hn (hi.kernel.accepted_of_open hf)
    refine ⟨(hrecv _).trans h1, ?_, fun v cfd' buf' hv => h3 _ _ _ (hslot.mp hv).2⟩
    show offered (s.log ++ _) c = []
    rw [hoff, h2, if_neg hne]
    rfl
  · have hiff := h.sends hf hself
    by_cases e : s.kernel.files cfd = some (.sock c)
    · -- the worker is the one that holds the last chunk of `c`
      have hsrc : src = c := hiff.mpr (hi.kernel.sock_inj e hf)
      subst hsrc
      cases h.pending hf with
      | none _ hno => exact absurd hself (hno _ _ _)
      | @one v cfd' buf' hv h1 huniq =>
        have hvw := huniq _ _ _ hself
        subst hvw
        obtain ⟨rev', hv⟩ := hv
        rw [hw] at hv
        cases hv
        refine .none ?_ fun v' cfd'' buf'' hv' => ?_
        · show (received (s.log ++ _) src).map fill = offered (s.log ++ _) src
          rw [hrecv, hoff, if_pos e, h1]
        · obtain ⟨hne, hv'⟩ := hslot.mp hv'
          exact hne (huniq _ _ _ hv')
    · have hsrc : src ≠ c := fun hs => e (by rw [hiff.mp hs]; exact hf)
      refine (h.pending hf).same (hrecv _) ?_ fun v cfd' buf' =>
        hslot.trans ⟨And.right, fun hv => ⟨?_, hv⟩⟩
      · show offered (s.log ++ _) c = offered s.log c
        rw [hoff, if_neg e, List.append_nil]
      · rintro rfl
        obtain ⟨rev', hv⟩ := hv
        rw [hw] at hv
        cases hv
        exact hsrc rfl

/-- A call that is neither a `send` nor a `recv` with data. -/
theorem Order.record (h : Order c s) {w : ℕ} {x y : Worker} {o : Op} (hs : step s a = some s')
    (hg : oneAtATime c s a) (hw : s.workers[w]? = some x) (hw' : s'.workers = s.workers.set w y)
    (hlog : s'.log = s.log ++ [o]) (ht : o.taken c = none) (hh : o.handed c = none)
    (hx : ∀ rev cfd src buf, x ≠ .run rev cfd (.send src buf))
    (hy : ∀ rev cfd src buf, y ≠ .run rev cfd (.send src buf)) : Order c s' := by
  refine h.quiet hs hg ?_ ?_ ?_
  · rw [hlog]; simp [received, ht]
  · rw [hlog]; simp [offered, hh]
  · intro v cfd src buf
    rw [hw']
    exact sendAt_quiet hw hx hy v cfd src buf

theorem order_step (hi : Inv s) (h : Order c s) (hg : oneAtATime c s a)
    (hs : step s a = some s') : Order c s' := by
  have hs' := outcome_of_step hs
  cases hs' with
  | exit =>
    refine ⟨fun hn => ?_, nofun, nofun⟩
    obtain ⟨h1, h2, -⟩ := h.fresh hn
    exact ⟨h1, h2, nofun⟩
  | pop hw =>
    exact h.quiet hs hg rfl rfl (sendAt_quiet hw nofun nofun)
  | recvData hw hk hne => exact h.recvData hi hg hw hk hne
  | recvAgain hw => exact h.record hs hg hw rfl rfl (by simp [Op.taken]) rfl nofun nofun
  | recvStop hw => exact h.record hs hg hw rfl rfl (by simp [Op.taken]) rfl nofun nofun
  | send hw => exact h.send hi hw
  | ctlDel hw => exact h.record hs hg hw rfl rfl rfl rfl nofun nofun
  | close hw => exact h.record hs hg hw rfl rfl rfl rfl nofun nofun
  | _ => exact h.quiet hs hg rfl rfl fun _ _ _ _ => Iff.rfl

end Step

/-- **The echoes on an open connection are in order** in every run whose steps meet `oneAtATime`. -/
theorem offered_inOrder {n : ℕ} {c : Conn} {as : List Act} {s : State} {fd : Fd}
    (h : Run step (oneAtATime c) (init n) as s) (hf : s.kernel.files fd = some (.sock c)) :
    InOrder s.log c := by
  have hI : Inv s ∧ Order c s := h.invariant (I := fun s => Inv s ∧ Order c s)
    ⟨init_inv n, init_order n c⟩ fun _ _ _ hI hg hs =>
      ⟨inv_step hI.1 hs, order_step hI.1 hI.2 hg hs⟩
  refine .of_offered ?_
  cases hI.2.pending hf with
  | none e => exact ⟨[], by rw [e, List.append_nil]⟩
  | @one v cfd buf _ e => exact ⟨[buf], e.symm⟩

/-- Two chunks, one after the other, echoed by two workers. -/
def turnsRun : List Act :=
  [.connect, .epollWait [4], .dispatch, .accept 5, .ctlAdd, .acceptAgain, .dispatch,
    .clientSend 0 [1], .epollWait [5], .dispatch, .dispatch, .pop 0, .recv 0 1024,
    .clientSend 0 [2], .epollWait [5], .dispatch, .dispatch, .send 0 (some 1024),
    .pop 1, .recv 1 1024, .send 1 (some 1024)]

set_option maxRecDepth 8000 in
theorem offered_inOrder_turns : ∃ s, Run step (oneAtATime 0) (init 2) turnsRun s ∧
    offered s.log 0 = [fill [1], fill [2]] ∧ InOrder s.log 0 := by
  obtain ⟨s, hr, hp, hf⟩ : ∃ s, Run step (oneAtATime 0) (init 2) turnsRun s ∧
      offered s.log 0 = [fill [1], fill [2]] ∧ s.kernel.files 5 = some (.sock 0) :=
    Run.exists_of_exec _ _ (by decide)
  exact ⟨s, hr, hp, offered_inOrder hr hf⟩

/-- Worker 1 takes the second chunk while worker 0 sleeps with the first one, and sends first. -/
def swapRun : List Act :=
  [.connect, .epollWait [4], .dispatch, .accept 5, .ctlAdd, .acceptAgain, .dispatch,
    .clientSend 0 [1], .epollWait [5], .dispatch, .dispatch, .pop 0, .recv 0 1024,
    .clientSend 0 [2], .epollWait [5], .dispatch, .dispatch, .pop 1, .recv 1 1024,
    .send 1 (some 1024)]

set_option maxRecDepth 8000 in
/-- **The echoes of an open connection can be out of order.** -/
theorem not_offered_inOrder : ¬ ∀ n as s c fd, Run step lowestFree (init n) as s →
    s.kernel.files fd = some (.sock c) → offered s.log c <+: (received s.log c).map fill := by
  intro h
  obtain ⟨s, hr, h1, h2, hf⟩ : ∃ s, Run step lowestFree (init 2) swapRun s ∧
      received s.log 0 = [[1], [2]] ∧ offered s.log 0 = [fill [2]] ∧
        s.kernel.files 5 = some (.sock 0) := Run.exists_of_exec _ _ (by decide)
  have := h _ _ _ _ _ hr hf
  rw [h1, h2] at this
  revert this
  decide

end PracticeCode.Server3
