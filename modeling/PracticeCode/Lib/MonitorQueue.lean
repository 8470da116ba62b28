import PracticeCode.Lib.Linearizable
import PracticeCode.Lib.MonitorInv

/-!
# The queue of a monitor is a FIFO object

A program of the monitor language that is a sequence of pushes and removals (`Ops`) uses the queue
through operations: `put`, `take`, which waits on the empty queue, and `poll`, which does not.  A
thread calls its first operation when it starts the program and the next one when the last returned
(`events`).

`Stage` says which part of its operation a thread has done.  An operation takes effect at its
`push`, at its `pop`, or at the check that finds the queue empty; from there `linearizes_of_ops`.
-/

namespace PracticeCode.Lib.Monitor

variable {τ : Type*}

inductive QueueOp (τ : Type*) where
  | put (v : τ)
  | take
  | poll
  deriving DecidableEq

/-- First in, first out. -/
def fifo : Object (List τ) (QueueOp τ) (Option τ)
  | q, .put v => some (q ++ [v], none)
  | x :: q, .take | x :: q, .poll => some (q, some x)
  | [], .take => none
  | [], .poll => some ([], none)

/-- The operation that a program does first. -/
def opOf : List (Stmt τ) → Option (QueueOp τ)
  | [] => none
  | .push v :: _ => some (.put v)
  | .await :: _ => some .take
  | .leaveIfEmpty :: _ => some .poll
  | _ :: r => opOf r

/-- The programs that are a sequence of operations; `late` allows a notification after the
unlock. -/
inductive Ops (late : Bool) : List (Stmt τ) → Prop
  | nil : Ops late []
  | put (v : τ) {r} : Ops late r → Ops late (.lock :: .push v :: .notify :: .unlock :: r)
  | putLate (v : τ) {r} : late = true → Ops late r →
      Ops late (.lock :: .push v :: .unlock :: .notify :: r)
  | take {r} : Ops late r → Ops late (.lock :: .await :: .front :: .pop :: .unlock :: .run :: r)
  | poll {r} : Ops late r →
      Ops late (.lock :: .leaveIfEmpty :: .front :: .pop :: .unlock :: .run :: r)

theorem Ops.fits {late : Bool} {p : List (Stmt τ)} (h : Ops late p) : Fits late .out p := by
  induction h with
  | nil => rfl
  | put v _ ih => simpa using ih
  | putLate v hl _ ih => simpa [hl] using ih
  | take _ ih => simpa using ih
  | poll _ ih => simpa using ih

/-- Nothing of an operation is left. -/
def between : List (Stmt τ) → Bool
  | [] => true
  | .lock :: _ => true
  | _ => false

theorem Ops.between {late : Bool} {r : List (Stmt τ)} (h : Ops late r) : between r = true := by
  cases h <;> rfl

/-- The call of the operation that comes next in `r`. -/
def nextCall (i : ℕ) (r : List (Stmt τ)) : List (Event (QueueOp τ) (Option τ)) :=
  (opOf r).toList.map (.call i)

/-- The calls and the returns of a step. -/
def events (s : State τ) : Act τ → List (Event (QueueOp τ) (Option τ))
  | .call i p => nextCall i p
  | .exec i | .notify i _ => match s.threads[i]? with
    | some ⟨_ :: r, v, _⟩ => if between r then .ret i v :: nextCall i r else []
    | _ => []
  | _ => []

/-! ## Stages -/

/-- The client that is about to do `r`. -/
def asking (r : List (Stmt τ)) : Client (QueueOp τ) (Option τ) :=
  match opOf r with
  | some o => .asked o
  | none => .idle

/-- What the client of the object has done when the thread is here. -/
inductive Stage (late : Bool) : List (Stmt τ) → Option τ → Client (QueueOp τ) (Option τ) → Prop
  | ready {r} : Ops late r → Stage late r none (asking r)
  | push {x r} : Ops late r → Stage late (.push x :: .notify :: .unlock :: r) none (.asked (.put x))
  | pushLate {x r} : Ops late r →
      Stage late (.push x :: .unlock :: .notify :: r) none (.asked (.put x))
  | pushed {r} : Ops late r → Stage late (.notify :: .unlock :: r) none (.done none)
  | pushedLate {r} : Ops late r → Stage late (.unlock :: .notify :: r) none (.done none)
  | notifyLate {r} : Ops late r → Stage late (.notify :: r) none (.done none)
  /-- The end of a `put`, and of a `poll` that found the queue empty. -/
  | unlock {r} : Ops late r → Stage late (.unlock :: r) none (.done none)
  | await {r} : Ops late r →
      Stage late (.await :: .front :: .pop :: .unlock :: .run :: r) none (.asked .take)
  | test {r} : Ops late r →
      Stage late (.leaveIfEmpty :: .front :: .pop :: .unlock :: .run :: r) none (.asked .poll)
  | front {o r} : o = .take ∨ o = .poll → Ops late r →
      Stage late (.front :: .pop :: .unlock :: .run :: r) none (.asked o)
  | pop {o r} {v : Option τ} : o = .take ∨ o = .poll → Ops late r →
      Stage late (.pop :: .unlock :: .run :: r) v (.asked o)
  | removed {r} {v : Option τ} : Ops late r → Stage late (.unlock :: .run :: r) v (.done v)
  | run {r} {v : Option τ} : Ops late r → Stage late (.run :: r) v (.done v)

/-- The value that a thread is about to push. -/
def pushing : List (Stmt τ) → List τ
  | .lock :: .push v :: _ => [v]
  | .push v :: _ => [v]
  | _ => []

/-- The value that a client asked to put. -/
def putting : Client (QueueOp τ) (Option τ) → List τ
  | .asked (.put v) => [v]
  | _ => []

/-- The value that a client got. -/
def getting : Client (QueueOp τ) (Option τ) → List τ
  | .done v => v.toList
  | _ => []

theorem Stage.pushing {late : Bool} {r : List (Stmt τ)} {v : Option τ}
    {c : Client (QueueOp τ) (Option τ)} (h : Stage late r v c) : pushing r = putting c := by
  cases h with
  | ready ho => cases ho <;> rfl
  | front hx ho => rcases hx with rfl | rfl <;> rfl
  | pop hx ho => rcases hx with rfl | rfl <;> rfl
  | _ => rfl

theorem Stage.hand {late : Bool} {r : List (Stmt τ)} {v : Option τ}
    {c : Client (QueueOp τ) (Option τ)} (h : Stage late r v c) (st : Status) :
    Thread.hand ⟨r, v, st⟩ = getting c := by
  cases h with
  | ready ho => cases ho <;> rfl
  | _ => rfl

/-- Every thread is where its client is, and there are no other clients. -/
structure Staged (late : Bool) (l : List (Thread τ)) (c : ℕ → Client (QueueOp τ) (Option τ)) :
    Prop where
  stage : ∀ i t, l[i]? = some t → Stage late t.rest t.val (c i)
  absent : ∀ i, l[i]? = none → c i = .idle

section Staged

variable {late : Bool} {l : List (Thread τ)} {c : ℕ → Client (QueueOp τ) (Option τ)} {i : ℕ}
  {t u : Thread τ} {x : Client (QueueOp τ) (Option τ)}

theorem Staged.set (h : Staged late l c) (hi : l[i]? = some u) (hx : Stage late t.rest t.val x) :
    Staged late (l.set i t) (Function.update c i x) where
  stage j v hj := by
    rw [Function.update_apply]
    by_cases e : j = i
    · subst e
      rw [List.getElem?_set] at hj
      split at hj <;> simp_all
    · rw [List.getElem?_set_ne (Ne.symm e)] at hj
      rw [if_neg e]
      exact h.stage j v hj
  absent j hj := by
    have hne : j ≠ i := by
      rintro rfl
      obtain ⟨hlt, -⟩ := List.getElem?_eq_some_iff.mp hi
      rw [List.getElem?_set_self hlt] at hj
      cases hj
    rw [List.getElem?_set_ne hne.symm] at hj
    rw [Function.update_of_ne hne]
    exact h.absent j hj

/-- The thread goes on and its client does not. -/
theorem Staged.set_same (h : Staged late l c) (hi : l[i]? = some u)
    (hx : Stage late t.rest t.val (c i)) : Staged late (l.set i t) c := by
  have := h.set hi hx
  rwa [Function.update_eq_self] at this

/-- Sleeping and waking do not matter. -/
theorem Staged.status (h : Staged late l c) {r : List (Stmt τ)} {v : Option τ} {st st' : Status}
    (hi : l[i]? = some ⟨r, v, st⟩) : Staged late (l.set i ⟨r, v, st'⟩) c := by
  have hst : Stage late r v (c i) := h.stage i _ hi
  exact h.set_same hi hst

theorem Staged.wakeOne {s s' : State τ} {j : Option ℕ} (h : Staged late s.threads c)
    (hs : s.wakeOne j = some s') : Staged late s'.threads c ∧ s'.queue = s.queue := by
  rcases wakeOne_cases hs with ⟨-, rfl⟩ | ⟨k, r, v, hk, rfl⟩
  · exact ⟨h, rfl⟩
  · exact ⟨h.status hk, rfl⟩

end Staged

/-! ## The simulation -/

/-- A monitor and a FIFO object with the same history. -/
structure Simulated (null : τ → Bool) (late : Bool)
    (p : State τ × List (Event (QueueOp τ) (Option τ)))
    (q : Atomic (List τ) (QueueOp τ) (Option τ) × List (Event (QueueOp τ) (Option τ))) : Prop where
  inv : Inv null late p.1
  obj : q.1.obj = p.1.queue
  history : q.2 = p.2
  staged : Staged late p.1.threads q.1.client

section Simulation

variable {null : τ → Bool} {late : Bool} {P : List (Stmt τ) → Prop} {s' : State τ} {i : ℕ}
  {p p' : State τ × List (Event (QueueOp τ) (Option τ))}
  {q : Atomic (List τ) (QueueOp τ) (Option τ) × List (Event (QueueOp τ) (Option τ))}

/-- The object reaches a state that simulates `p`. -/
def Reaches (null : τ → Bool) (late : Bool)
    (q : Atomic (List τ) (QueueOp τ) (Option τ) × List (Event (QueueOp τ) (Option τ)))
    (p : State τ × List (Event (QueueOp τ) (Option τ))) : Prop :=
  ∃ bs q', Run (watch (Atomic.step fifo) Atomic.events) free q bs q' ∧ Simulated null late p q'

/-- A step between the moments that the object sees. -/
theorem Simulated.quiet (h : Simulated null late p q) (hI : Inv null late s')
    (hq : s'.queue = p.1.queue) (hst : Staged late s'.threads q.1.client) :
    Reaches null late q (s', p.2) :=
  ⟨[], q, .nil, hI, h.obj.trans hq.symm, h.history, hst⟩

/-- The step in which an operation takes effect. -/
theorem Simulated.commit (h : Simulated null late p q) (hI : Inv null late s') {o : QueueOp τ}
    {y : List τ × Option τ} (hc : q.1.client i = .asked o) (hy : fifo p.1.queue o = some y)
    (hq : s'.queue = y.1)
    (hst : Staged late s'.threads (Function.update q.1.client i (.done y.2))) :
    Reaches null late q (s', p.2) := by
  have hstep : watch (Atomic.step fifo) Atomic.events q (.commit i) =
      some (q.1.put y.1 i (.done y.2), q.2) := by
    refine watch_eq_some.mpr ⟨?_, (List.append_nil _).symm⟩
    simp only [Atomic.step, hc]
    rw [h.obj, hy]
    rfl
  exact ⟨_, _, .cons trivial hstep .nil, hI, hq.symm, h.history, hst⟩

/-- A client calls what its thread does next. -/
theorem run_nextCall (hc : q.1.client i = .idle) (r : List (Stmt τ)) :
    ∃ bs, Run (watch (Atomic.step fifo) Atomic.events) free q bs
      (q.1.put q.1.obj i (asking r), q.2 ++ nextCall i r) := by
  unfold asking nextCall
  split
  · rename_i o ho
    refine ⟨[.call i o], .cons trivial (watch_eq_some.mpr ⟨?_, ?_⟩) .nil⟩
    · simp only [Atomic.step, hc]
    · rw [ho]
      rfl
  · rename_i ho
    have he : q.1.put q.1.obj i .idle = q.1 := by
      rw [Atomic.put, ← hc, Function.update_eq_self]
    rw [ho, he]
    exact ⟨[], by simpa using .nil⟩

theorem Simulated.start (h : Simulated null late p q) (hI : Inv null late s')
    (hc : q.1.client i = .idle) (hq : s'.queue = p.1.queue) {r : List (Stmt τ)}
    (hst : Staged late s'.threads (Function.update q.1.client i (asking r))) :
    Reaches null late q (s', p.2 ++ nextCall i r) := by
  obtain ⟨bs, hrun⟩ := run_nextCall hc r
  exact ⟨bs, _, hrun, hI, h.obj.trans hq.symm, by rw [h.history], hst⟩

/-- The last step of an operation; the thread calls the next one. -/
theorem Simulated.finish (h : Simulated null late p q) (hI : Inv null late s') {v : Option τ}
    (hc : q.1.client i = .done v) (hq : s'.queue = p.1.queue) {r : List (Stmt τ)}
    (hst : Staged late s'.threads (Function.update q.1.client i (asking r))) :
    Reaches null late q (s', p.2 ++ .ret i v :: nextCall i r) := by
  have hret : watch (Atomic.step fifo) Atomic.events q (.ret i) =
      some (q.1.put q.1.obj i .idle, q.2 ++ [.ret i v]) := by
    refine watch_eq_some.mpr ⟨?_, ?_⟩
    · simp only [Atomic.step, hc]
    · simp only [Atomic.events, hc]
  have hidle : (q.1.put q.1.obj i .idle).client i = .idle := by
    rw [Atomic.put_client, if_pos rfl]
  obtain ⟨bs, hrun⟩ := run_nextCall (q := (q.1.put q.1.obj i .idle, q.2 ++ [.ret i v])) hidle r
  refine ⟨_, _, .cons trivial hret hrun, hI, h.obj.trans hq.symm, ?_, ?_⟩
  · simp [h.history]
  · simpa [Atomic.put] using hst

/-! ### The steps of a thread -/

theorem events_exec {s : State τ} {x : Stmt τ} {r : List (Stmt τ)} {v : Option τ} {st : Status}
    (hi : s.threads[i]? = some ⟨x :: r, v, st⟩) :
    events s (.exec i) = if between r then .ret i v :: nextCall i r else [] := by
  simp only [events, hi]

/-- A thread at the start of an operation takes the mutex. -/
theorem Simulated.lock (h : Simulated null late p q) (hI : Inv null late s') {x : Stmt τ}
    {r : List (Stmt τ)} (ho : Ops late (x :: r)) (hc : asking (x :: r) = q.1.client i)
    (hi : p.1.threads[i]? = some ⟨x :: r, none, .awake⟩)
    (hs : execStmt null p.1 i r none x = some s') :
    Reaches null late q (s', p.2 ++ events p.1 (.exec i)) := by
  have hst : Stage late r none (q.1.client i) ∧ between r = false ∧ x = .lock := by
    rw [← hc]
    cases ho with
    | put v ho => exact ⟨.push ho, rfl, rfl⟩
    | putLate v _ ho => exact ⟨.pushLate ho, rfl, rfl⟩
    | take ho => exact ⟨.await ho, rfl, rfl⟩
    | poll ho => exact ⟨.test ho, rfl, rfl⟩
  obtain ⟨hst, hb, rfl⟩ := hst
  simp only [execStmt, Option.ite_none_left_eq_some, Option.some.injEq] at hs
  obtain ⟨-, rfl⟩ := hs
  rw [events_exec hi, hb, if_neg Bool.false_ne_true, List.append_nil]
  exact h.quiet hI rfl (h.staged.set_same hi hst)

theorem Simulated.push (h : Simulated null late p q) (hI : Inv null late s') {x : τ}
    {r : List (Stmt τ)} (hc : .asked (.put x) = q.1.client i) (hb : between r = false)
    (hst : Stage late r none (.done none))
    (hi : p.1.threads[i]? = some ⟨.push x :: r, none, .awake⟩)
    (hs : execStmt null p.1 i r none (.push x) = some s') :
    Reaches null late q (s', p.2 ++ events p.1 (.exec i)) := by
  obtain rfl := Option.some.inj hs
  rw [events_exec hi, hb, if_neg Bool.false_ne_true, List.append_nil]
  exact h.commit hI hc.symm (by rw [fifo]) rfl (h.staged.set hi hst)

/-- A thread that finds the queue empty waits, or leaves with nothing. -/
theorem Simulated.check (h : Simulated null late p q) (hI : Inv null late s') {x : Stmt τ}
    {o : QueueOp τ} {r : List (Stmt τ)}
    (hx : x = .await ∧ o = .take ∨ x = .leaveIfEmpty ∧ o = .poll)
    (hc : .asked o = q.1.client i) (ho : Ops late r)
    (hi : p.1.threads[i]? = some ⟨x :: .front :: .pop :: .unlock :: .run :: r, none, .awake⟩)
    (hs : execStmt null p.1 i (.front :: .pop :: .unlock :: .run :: r) none x = some s') :
    Reaches null late q (s', p.2 ++ events p.1 (.exec i)) := by
  have hfront : Stage late (.front :: .pop :: .unlock :: .run :: r) none (q.1.client i) := by
    rw [← hc]
    exact .front (hx.imp And.right And.right) ho
  rw [events_exec hi, if_neg (by simp [between]), List.append_nil]
  rcases hx with ⟨rfl, rfl⟩ | ⟨rfl, rfl⟩
  · simp only [execStmt] at hs
    split at hs
    · obtain rfl := Option.some.inj hs
      have hwait : Stage late (.await :: .front :: .pop :: .unlock :: .run :: r) none
          (q.1.client i) := by
        rw [← hc]
        exact .await ho
      exact h.quiet hI rfl (h.staged.set_same hi hwait)
    · obtain rfl := Option.some.inj hs
      exact h.quiet hI rfl (h.staged.set_same hi hfront)
  · simp only [execStmt] at hs
    split at hs
    · rename_i hq
      -- the operation is over, and what is left is the unlock
      obtain rfl := Option.some.inj hs
      refine h.commit hI hc.symm (y := ([], none)) (by rw [hq, fifo]) hq ?_
      exact h.staged.set hi (.unlock .nil)
    · obtain rfl := Option.some.inj hs
      exact h.quiet hI rfl (h.staged.set_same hi hfront)

/-- The value that is removed is the one that was read. -/
theorem Simulated.pop (h : Simulated null late p q) (hI : Inv null late s') {o : QueueOp τ}
    {v : Option τ} {r : List (Stmt τ)} (hx : o = .take ∨ o = .poll)
    (hc : .asked o = q.1.client i) (ho : Ops late r)
    (hi : p.1.threads[i]? = some ⟨.pop :: .unlock :: .run :: r, v, .awake⟩)
    (hs : execStmt null p.1 i (.unlock :: .run :: r) v .pop = some s') :
    Reaches null late q (s', p.2 ++ events p.1 (.exec i)) := by
  obtain ⟨φ, hf, hd⟩ := h.inv.thread hi
  obtain ⟨rfl, -⟩ := fits_pop.mp hf
  obtain ⟨y, rfl, hy⟩ := hd
  obtain ⟨l, hl⟩ := List.head?_eq_some_iff.mp hy
  obtain rfl := Option.some.inj hs
  rw [events_exec hi, if_neg (by simp [between]), List.append_nil]
  refine h.commit hI hc.symm (y := (l, some y)) ?_ ?_ (h.staged.set hi (.removed ho))
  · rw [hl]
    rcases hx with rfl | rfl <;> rfl
  · exact congrArg List.tail hl

/-- A thread runs a statement. -/
theorem Simulated.exec (h : Simulated null late p q) (hI : Inv null late s') {x : Stmt τ}
    {r : List (Stmt τ)} {v : Option τ} (hi : p.1.threads[i]? = some ⟨x :: r, v, .awake⟩)
    (hs : execStmt null p.1 i r v x = some s') :
    Reaches null late q (s', p.2 ++ events p.1 (.exec i)) := by
  have hst : Stage late (x :: r) v (q.1.client i) := h.staged.stage i _ hi
  generalize hl : x :: r = l at hst
  generalize hc : q.1.client i = c at hst
  cases hst with
  | ready ho =>
    subst hl
    exact h.lock hI ho hc.symm hi hs
  | push ho =>
    cases hl
    exact h.push hI hc.symm rfl (.pushed ho) hi hs
  | pushLate ho =>
    cases hl
    exact h.push hI hc.symm rfl (.pushedLate ho) hi hs
  | pushed ho =>
    cases hl
    cases hs
  | notifyLate ho =>
    cases hl
    cases hs
  | await ho =>
    cases hl
    exact h.check hI (.inl ⟨rfl, rfl⟩) hc.symm ho hi hs
  | test ho =>
    cases hl
    exact h.check hI (.inr ⟨rfl, rfl⟩) hc.symm ho hi hs
  | @front o r hx ho =>
    cases hl
    obtain rfl := Option.some.inj hs
    rw [events_exec hi, if_neg (by simp [between]), List.append_nil]
    have hpop : Stage late (.pop :: .unlock :: .run :: r) p.1.queue.head? (q.1.client i) := by
      rw [hc]
      exact .pop hx ho
    exact h.quiet hI rfl (h.staged.set_same hi hpop)
  | pop hx ho =>
    cases hl
    exact h.pop hI hx hc.symm ho hi hs
  | @pushedLate r ho =>
    cases hl
    obtain rfl := Option.some.inj hs
    rw [events_exec hi, if_neg (by simp [between]), List.append_nil]
    have hnotify : Stage late (.notify :: r) none (q.1.client i) := by
      rw [hc]
      exact .notifyLate ho
    exact h.quiet hI rfl (h.staged.set_same hi hnotify)
  | @removed r v ho =>
    cases hl
    obtain rfl := Option.some.inj hs
    rw [events_exec hi, if_neg (by simp [between]), List.append_nil]
    have hrun : Stage late (.run :: r) v (q.1.client i) := by
      rw [hc]
      exact .run ho
    exact h.quiet hI rfl (h.staged.set_same hi hrun)
  | unlock ho =>
    cases hl
    obtain rfl := Option.some.inj hs
    rw [events_exec hi, if_pos ho.between]
    exact h.finish hI hc rfl (h.staged.set hi (.ready ho))
  | run ho =>
    cases hl
    obtain rfl := Option.some.inj hs
    rw [events_exec hi, if_pos ho.between]
    exact h.finish hI hc rfl (h.staged.set hi (.ready ho))

/-- A thread calls `notify_one`. -/
theorem Simulated.notify (h : Simulated null late p q) (hI : Inv null late s') {j : Option ℕ}
    {r : List (Stmt τ)} {v : Option τ} (hi : p.1.threads[i]? = some ⟨.notify :: r, v, .awake⟩)
    (hs : (p.1.put i ⟨r, v, .awake⟩).wakeOne j = some s') :
    Reaches null late q (s', p.2 ++ events p.1 (.notify i j)) := by
  have hev : events p.1 (.notify i j) = if between r then .ret i v :: nextCall i r else [] := by
    simp only [events, hi]
  have hst : Stage late (.notify :: r) v (q.1.client i) := h.staged.stage i _ hi
  rw [hev]
  generalize hl : Stmt.notify :: r = l at hst
  generalize hc : q.1.client i = c at hst
  cases hst with
  | @pushed r ho =>
    cases hl
    rw [if_neg (by simp [between]), List.append_nil]
    have hun : Stage late (.unlock :: r) none (q.1.client i) := by
      rw [hc]
      exact .unlock ho
    obtain ⟨hst, hq⟩ := Staged.wakeOne (h.staged.set_same hi hun) hs
    exact h.quiet hI hq hst
  | notifyLate ho =>
    cases hl
    rw [if_pos ho.between]
    obtain ⟨hst, hq⟩ := Staged.wakeOne (h.staged.set hi (.ready ho)) hs
    exact h.finish hI hc hq hst
  | ready ho => subst hl; cases ho
  | _ => cases hl

/-- **The step lemma.** -/
theorem reaches_of_step (hP : ∀ r, P r → Ops late r) (h : Simulated null late p q) {a : Act τ}
    (hg : calls P p.1 a) (hs : watch (step null) events p a = some p') :
    Reaches null late q p' := by
  obtain ⟨hst, hrec⟩ := watch_eq_some.mp hs
  obtain ⟨s', l'⟩ := p'
  obtain rfl : l' = p.2 ++ events p.1 a := hrec
  have hI : Inv null late s' := inv_step (fun r hr => (hP r hr).fits) h.inv (outcome_of_step hg hst)
  cases a with
  | call i r =>
    simp only [step] at hst
    split at hst
    · rename_i v hi
      obtain rfl := Option.some.inj hst
      have hth : Stage late [] v (q.1.client i) := h.staged.stage i _ hi
      generalize hc : q.1.client i = c at hth
      generalize hl : ([] : List (Stmt τ)) = l at hth
      cases hth with
      | ready ho =>
        subst hl
        exact h.start hI hc rfl (h.staged.set hi (.ready (hP r hg)))
      | _ => cases hl
    · cases hst
  | spin i =>
    simp only [step] at hst
    split at hst
    · obtain rfl := Option.some.inj hst
      change Reaches null late q (p.1, p.2 ++ [])
      rw [List.append_nil]
      exact h.quiet hI rfl h.staged
    · cases hst
  | exec i =>
    simp only [step] at hst
    split at hst
    · exact h.exec hI ‹_› hst
    · cases hst
  | notify i j =>
    simp only [step] at hst
    split at hst
    · exact h.notify hI ‹_› hst
    · cases hst
  | wake j =>
    simp only [step] at hst
    obtain ⟨hth, hq⟩ := h.staged.wakeOne hst
    change Reaches null late q (s', p.2 ++ [])
    rw [List.append_nil]
    exact h.quiet hI hq hth
  | relock j =>
    simp only [step] at hst
    split at hst
    · rename_i hj
      rw [Option.ite_none_left_eq_some, Option.some.injEq] at hst
      obtain ⟨-, rfl⟩ := hst
      change Reaches null late q (_, p.2 ++ [])
      rw [List.append_nil]
      exact h.quiet hI rfl (h.staged.status hj)
    · cases hst

/-- `reaches_of_step` where the histories start over at every step. -/
theorem emits_of_step (hP : ∀ r, P r → Ops late r) {s : State τ}
    {t : Atomic (List τ) (QueueOp τ) (Option τ)} (h : Simulated null late (s, []) (t, []))
    {a : Act τ} (hg : calls P s a) (hs : step null s a = some s') :
    ∃ bs y, Run (watch (Atomic.step fifo) Atomic.events) free (t, []) bs y ∧
      y.2 = events s a ∧ Simulated null late (s', []) (y.1, []) := by
  have hw : watch (step null) events (s, []) a = some (s', events s a) :=
    watch_eq_some.mpr ⟨hs, rfl⟩
  obtain ⟨bs, y, hr, hy⟩ := reaches_of_step hP h hg hw
  exact ⟨bs, y, hr, hy.history, hy.inv, hy.obj, rfl, hy.staged⟩

theorem simulated_init (null : τ → Bool) (late : Bool) (n : ℕ) :
    Simulated null late (init n, []) (Atomic.init [], []) where
  inv := inv_init null late n
  obj := rfl
  history := rfl
  staged := by
    refine ⟨fun i t hi => ?_, fun _ _ => rfl⟩
    obtain rfl : t = ⟨[], none, .awake⟩ := List.eq_of_mem_replicate (List.mem_of_getElem? hi)
    exact .ready .nil

/-- **The queue is a FIFO object**: any number of threads run sequences of operations in any
interleaving, and their history can be linearized. -/
theorem linearizes_of_ops (hP : ∀ r, P r → Ops late r) {n : ℕ} {as : List (Act τ)}
    (h : Run (watch (step null) events) (fun p a => calls P p.1 a) (init n, []) as p) :
    ∃ l, Linearizes fifo [] p.2 l := by
  obtain ⟨bs, q, hq, hsim⟩ : Reaches null late (Atomic.init [], []) p := by
    refine h.invariant ⟨[], _, .nil, simulated_init null late n⟩ ?_
    rintro p a p' ⟨bs, q, hrun, hsim⟩ hg hs
    obtain ⟨bs', q', hrun', hsim'⟩ := reaches_of_step hP hsim hg hs
    exact ⟨bs ++ bs', q', hrun.append hrun', hsim'⟩
  rw [← hsim.history]
  exact linearizes_of_run hq

end Simulation

end PracticeCode.Lib.Monitor
