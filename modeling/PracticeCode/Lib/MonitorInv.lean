import PracticeCode.Lib.Monitor

/-!
# What holds of programs that fit

Any number of threads run programs that fit, in any order, with any choice of the woken thread and
any spurious wakeups.  `Inv` holds of every state they reach (`inv_of_run`):

* at most one thread is between the lock and the unlock;
* what was taken and what is queued is what was pushed, in this order, and no `front` or `pop` met
  an empty queue;
* what was taken was run or is in the hand of a thread that will run it (`exists_ran`);
* while a thread sleeps, the threads that come to the check, take a value or owe a notification are
  at least as many as the queued values.
-/

namespace PracticeCode.Lib.Monitor

variable {τ : Type*}

/-! ## Measures of a thread -/

/-- An unlock comes before the next lock. -/
def inCrit : List (Stmt τ) → Bool
  | [] => false
  | .lock :: _ => false
  | .unlock :: _ => true
  | _ :: r => inCrit r

def awaits : List (Stmt τ) → Bool
  | [] => false
  | .await :: _ => true
  | _ :: r => awaits r

/-- The thread has the mutex. -/
def Thread.holds (t : Thread τ) : ℕ := if t.status = .awake ∧ inCrit t.rest = true then 1 else 0

/-- The thread is not asleep, and the check of an `await` is ahead of it. -/
def Thread.coming (t : Thread τ) : ℕ :=
  if t.status ≠ .blocked ∧ awaits t.rest = true then 1 else 0

/-- The thread has seen that the queue is not empty, and has not removed its value yet. -/
def Thread.taking (t : Thread τ) : ℕ :=
  match t.rest with
  | .front :: _ | .pop :: _ => 1
  | _ => 0

/-- The thread is between its push and its notification. -/
def Thread.owing (t : Thread τ) : ℕ :=
  match t.rest with
  | .notify :: _ | .unlock :: .notify :: _ => 1
  | _ => 0

/-- The value that the thread removed and did not run yet. -/
def Thread.hand (t : Thread τ) : List τ :=
  match t.rest with
  | .pop :: _ => []
  | _ => t.val.toList

def State.held (s : State τ) : ℕ := total Thread.holds s.threads
def State.coming (s : State τ) : ℕ := total Thread.coming s.threads
def State.taking (s : State τ) : ℕ := total Thread.taking s.threads
def State.owing (s : State τ) : ℕ := total Thread.owing s.threads

/-- The values that some thread removed and did not run yet. -/
def State.hands (s : State τ) : List τ := s.threads.flatMap Thread.hand

def Phase.holds : Phase → ℕ
  | .inside | .pushed | .seen | .read | .removed => 1
  | .out | .owing | .hand => 0

def Phase.takes : Phase → ℕ
  | .seen | .read => 1
  | _ => 0

def Phase.owes : Phase → ℕ
  | .pushed | .owing => 1
  | _ => 0

/-- What the variable of a thread holds in a phase. -/
def Phase.Data (q : List τ) (v : Option τ) : Phase → Prop
  | .seen => q ≠ [] ∧ v = none
  | .read => ∃ x, v = some x ∧ q.head? = some x
  | .removed | .hand => ∃ x, v = some x
  | _ => v = none

section Measures

variable {late : Bool} {φ : Phase} {r : List (Stmt τ)} {v : Option τ} {q : List τ}

theorem inCrit_of_fits (h : Fits late φ r) : inCrit r = true ↔ φ.holds = 1 := by
  induction r generalizing φ with
  | nil => simp [fits_nil.mp h, inCrit, Phase.holds]
  | cons x r ih =>
    cases x with
    | lock => simp [(fits_lock.mp h).1, inCrit, Phase.holds]
    | unlock =>
      rcases fits_unlock.mp h with ⟨rfl, -⟩ | ⟨-, rfl, -⟩ | ⟨rfl, -⟩ <;> simp [inCrit, Phase.holds]
    | push => obtain ⟨rfl, hr⟩ := fits_push.mp h; simpa [inCrit, Phase.holds] using ih hr
    | notify =>
      rcases fits_notify.mp h with ⟨rfl, hr⟩ | ⟨-, rfl, hr⟩ <;>
        simpa [inCrit, Phase.holds] using ih hr
    | await => obtain ⟨rfl, hr⟩ := fits_await.mp h; simpa [inCrit, Phase.holds] using ih hr
    | leaveIfEmpty =>
      obtain ⟨rfl, hr⟩ := fits_leaveIfEmpty.mp h; simpa [inCrit, Phase.holds] using ih hr
    | front => obtain ⟨rfl, hr⟩ := fits_front.mp h; simpa [inCrit, Phase.holds] using ih hr
    | pop => obtain ⟨rfl, hr⟩ := fits_pop.mp h; simpa [inCrit, Phase.holds] using ih hr
    | run => obtain ⟨rfl, hr⟩ := fits_run.mp h; simpa [inCrit, Phase.holds] using ih hr

theorem holds_of_fits (h : Fits late φ r) : Thread.holds ⟨r, v, .awake⟩ = φ.holds := by
  have := inCrit_of_fits h
  cases φ <;> simp_all [Thread.holds, Phase.holds]

theorem taking_of_fits (h : Fits late φ r) (st : Status) : Thread.taking ⟨r, v, st⟩ = φ.takes := by
  cases r with
  | nil => simp [fits_nil.mp h, Thread.taking, Phase.takes]
  | cons x r => cases x <;> simp at h <;> grind [Thread.taking, Phase.takes]

theorem owing_of_fits (h : Fits late φ r) (st : Status) : Thread.owing ⟨r, v, st⟩ = φ.owes := by
  cases r with
  | nil => simp [fits_nil.mp h, Thread.owing, Phase.owes]
  | cons x r =>
    cases x with
    | unlock =>
      cases r with
      | nil => simp at h; simp [h, Thread.owing, Phase.owes]
      | cons y r => cases y <;> simp at h <;> grind [Thread.owing, Phase.owes]
    | _ => simp at h; grind [Thread.owing, Phase.owes]

theorem hand_of_fits (h : Fits late φ r) (hd : φ.Data q v) (st : Status) :
    Thread.hand ⟨r, v, st⟩ = if φ = .removed ∨ φ = .hand then v.toList else [] := by
  cases r with
  | nil => simp_all [Thread.hand, Phase.Data]
  | cons x r => cases x <;> simp at h <;> grind [Thread.hand, Phase.Data]

@[simp] theorem holds_blocked : Thread.holds ⟨r, v, .blocked⟩ = 0 := by simp [Thread.holds]

@[simp] theorem holds_woken : Thread.holds ⟨r, v, .woken⟩ = 0 := by simp [Thread.holds]

@[simp] theorem asleep_awake : Thread.asleep ⟨r, v, .awake⟩ = 0 := rfl

@[simp] theorem asleep_blocked : Thread.asleep ⟨r, v, .blocked⟩ = 1 := rfl

@[simp] theorem asleep_woken : Thread.asleep ⟨r, v, .woken⟩ = 0 := rfl

@[simp] theorem coming_awake : Thread.coming ⟨r, v, .awake⟩ = (awaits r).toNat := by
  cases h : awaits r <;> simp [Thread.coming, h]

@[simp] theorem coming_blocked : Thread.coming ⟨r, v, .blocked⟩ = 0 := by simp [Thread.coming]

@[simp] theorem coming_woken : Thread.coming ⟨.await :: r, v, .woken⟩ = 1 := rfl

end Measures

/-! ## The threads -/

/-- The rest of the program fits some phase, the variable is as that phase says, and only a thread
at the check sleeps. -/
def Thread.Ok (late : Bool) (q : List τ) (t : Thread τ) : Prop :=
  ∃ φ, Fits late φ t.rest ∧ φ.Data q t.val ∧ (t.status = .awake ∨ ∃ r, t.rest = .await :: r)

section Ok

variable {late : Bool} {φ : Phase} {r : List (Stmt τ)} {v : Option τ} {q q' : List τ} {t : Thread τ}

theorem ok_awake (hf : Fits late φ r) (hd : φ.Data q v) : Thread.Ok late q ⟨r, v, .awake⟩ :=
  ⟨φ, hf, hd, .inl rfl⟩

/-- A thread without the mutex knows nothing about the queue. -/
theorem Thread.Ok.frame (h : t.Ok late q) (h0 : t.holds = 0) : t.Ok late q' := by
  obtain ⟨r, v, st⟩ := t
  obtain ⟨φ, hf, hd, hs⟩ := h
  refine ⟨φ, hf, ?_, hs⟩
  rcases hs with rfl | ⟨r, rfl⟩
  · rw [holds_of_fits hf] at h0
    cases φ <;> simp_all [Phase.Data, Phase.holds]
  · obtain ⟨rfl, -⟩ := fits_await.mp hf
    exact hd

/-- A thread that sleeps, or just woke up, is at the check. -/
theorem Thread.Ok.asleep (h : t.Ok late q) (hs : t.status ≠ .awake) :
    ∃ r, t.rest = .await :: r ∧ Fits late .seen r ∧ t.val = none := by
  obtain ⟨φ, hf, hd, hs' | ⟨r, hr⟩⟩ := h
  · exact absurd hs' hs
  · rw [hr] at hf
    obtain ⟨rfl, hf'⟩ := fits_await.mp hf
    exact ⟨r, hr, hf', hd⟩

end Ok

/-! ## The invariant -/

/-- What every reachable state has. -/
structure Inv (null : τ → Bool) (late : Bool) (s : State τ) : Prop where
  ok : ∀ t ∈ s.threads, t.Ok late s.queue
  /-- At most one thread has the mutex. -/
  mutex : s.held = if s.locked then 1 else 0
  fifo : s.taken ++ s.queue = s.pushed
  safe : s.underflow = false
  ledger : (s.taken.filter fun x => !null x).Perm (s.ran ++ s.hands.filter fun x => !null x)
  covered : s.blocked = 0 ∨ s.queue.length ≤ s.coming + s.taking + s.owing

theorem inv_init (null : τ → Bool) (late : Bool) (n : ℕ) : Inv null late (init n) where
  ok t ht := by
    rw [List.eq_of_mem_replicate ht]
    exact ⟨.out, rfl, rfl, .inl rfl⟩
  mutex := by simp [State.held, init, total_replicate, Thread.holds, inCrit]
  fifo := rfl
  safe := rfl
  ledger := by
    have : (init n : State τ).hands = [] := by
      simp [State.hands, init, List.flatMap_replicate, Thread.hand]
    rw [this]
    exact .nil
  covered := .inr (by simp [init])

/-! ## Steps -/

section Step

variable {null : τ → Bool} {late : Bool} {P : List (Stmt τ) → Prop} {s s' : State τ} {i : ℕ}
  {t t' : Thread τ}

theorem ok_put (h : ∀ u ∈ s.threads, u.Ok late s.queue) (ht : t'.Ok late s.queue) :
    ∀ u ∈ (s.put i t').threads, u.Ok late s.queue :=
  forall_mem_set ht fun _ u _ hu => h u (List.mem_of_getElem? hu)

/-- The thread that has the mutex may change the queue. -/
theorem ok_put_of_holds (h : Inv null late s) (hi : s.threads[i]? = some t) (h1 : t.holds = 1)
    {q : List τ} (ht : t'.Ok late q) : ∀ u ∈ (s.put i t').threads, u.Ok late q := by
  refine forall_mem_set ht fun j u hj hu => ?_
  refine (h.ok u (List.mem_of_getElem? hu)).frame (eq_zero_of_total_le _ hi hu hj ?_)
  have : total Thread.holds s.threads = if s.locked then 1 else 0 := h.mutex
  split at this <;> omega

/-- The mutex is taken when a thread has it. -/
theorem Inv.locked (h : Inv null late s) (hi : s.threads[i]? = some t) (h1 : t.holds = 1) :
    s.locked = true := by
  have h2 := le_total Thread.holds (List.mem_of_getElem? hi)
  have h3 : total Thread.holds s.threads = if s.locked then 1 else 0 := h.mutex
  by_contra hl
  simp only [hl, if_false] at h3
  omega

/-- What the totals become when thread `i` goes on as `t'`. -/
theorem put_totals (t' : Thread τ) (hi : s.threads[i]? = some t) :
    (s.put i t').held + t.holds = s.held + t'.holds ∧
    (s.put i t').blocked + t.asleep = s.blocked + t'.asleep ∧
    (s.put i t').coming + t.coming = s.coming + t'.coming ∧
    (s.put i t').taking + t.taking = s.taking + t'.taking ∧
    (s.put i t').owing + t.owing = s.owing + t'.owing :=
  ⟨total_set _ _ hi, total_set _ _ hi, total_set _ _ hi, total_set _ _ hi, total_set _ _ hi⟩

/-- What the threads have in hand when thread `i` goes on as `t'`. -/
theorem put_hands (t' : Thread τ) (hi : s.threads[i]? = some t) :
    ((s.put i t').hands ++ t.hand).Perm (s.hands ++ t'.hand) :=
  flatMap_set_perm _ _ hi

theorem put_hands_of_eq (hi : s.threads[i]? = some t) (hh : t'.hand = t.hand) :
    (s.put i t').hands = s.hands := by
  simp only [State.hands, State.put, List.flatMap_def, map_set_of_eq _ hi hh]

/-- A thread goes on and leaves the queue alone; it may take or release the mutex. -/
theorem Inv.move_of_covered (h : Inv null late s) (hi : s.threads[i]? = some t) {b : Bool}
    (hok : t'.Ok late s.queue)
    (hm : t'.holds + (if s.locked then 1 else 0) = t.holds + (if b then 1 else 0))
    (hh : t'.hand = t.hand)
    (hc : (s.put i t').blocked = 0 ∨ s.queue.length ≤
      (s.put i t').coming + (s.put i t').taking + (s.put i t').owing) :
    Inv null late { s.put i t' with locked := b } where
  ok := ok_put h.ok hok
  mutex := by
    have h1 := h.mutex
    obtain ⟨h2, -⟩ := put_totals t' hi
    change (s.put i t').held = if b then 1 else 0
    omega
  fifo := h.fifo
  safe := h.safe
  ledger := by
    change (s.taken.filter _).Perm (s.ran ++ (s.put i t').hands.filter _)
    rw [put_hands_of_eq hi hh]
    exact h.ledger
  covered := hc

/-- **The rule for a thread that goes on and leaves the queue alone**: unless the queue is empty or
nobody sleeps, it has to count for at least as much as before. -/
theorem Inv.move (h : Inv null late s) (hi : s.threads[i]? = some t) {b : Bool}
    (hok : t'.Ok late s.queue)
    (hm : t'.holds + (if s.locked then 1 else 0) = t.holds + (if b then 1 else 0))
    (hh : t'.hand = t.hand)
    (hc : s.queue = [] ∨ (s.put i t').blocked = 0 ∨ t'.asleep ≤ t.asleep ∧
      t.coming + t.taking + t.owing ≤ t'.coming + t'.taking + t'.owing) :
    Inv null late { s.put i t' with locked := b } := by
  refine h.move_of_covered hi hok hm hh ?_
  obtain ⟨-, h1, h2, h3, h4⟩ := put_totals t' hi
  rcases hc with hq | h0 | ⟨ha, hr⟩
  · exact .inr (by simp [hq])
  · exact .inl h0
  · rcases h.covered with hb | hb
    · exact .inl (by omega)
    · exact .inr (by omega)

theorem Inv.thread (h : Inv null late s) {r : List (Stmt τ)} {v : Option τ}
    (hi : s.threads[i]? = some ⟨r, v, .awake⟩) : ∃ φ, Fits late φ r ∧ φ.Data s.queue v := by
  obtain ⟨φ, hf, hd, -⟩ := h.ok _ (List.mem_of_getElem? hi)
  exact ⟨φ, hf, hd⟩

section Statements

variable {r : List (Stmt τ)} {v : Option τ}

theorem Inv.call (h : Inv null late s) {p : List (Stmt τ)}
    (hi : s.threads[i]? = some ⟨[], v, .awake⟩) (hp : Fits late .out p) :
    Inv null late (s.put i ⟨p, v, .awake⟩) := by
  obtain ⟨φ, hf, hd⟩ := h.thread hi
  obtain rfl := fits_nil.mp hf
  refine h.move hi (ok_awake hp hd) ?_ ?_ (.inr (.inr ⟨le_refl _, ?_⟩))
  · rw [holds_of_fits hp, holds_of_fits hf]
  · rw [hand_of_fits hp hd, hand_of_fits hf hd]
  · rw [taking_of_fits hp, taking_of_fits hf, owing_of_fits hp, owing_of_fits hf]
    simp [Thread.coming, awaits]

theorem Inv.lock (h : Inv null late s) (hi : s.threads[i]? = some ⟨.lock :: r, v, .awake⟩)
    (hl : s.locked = false) : Inv null late { s.put i ⟨r, v, .awake⟩ with locked := true } := by
  obtain ⟨φ, hf, hd⟩ := h.thread hi
  obtain ⟨rfl, hr⟩ := fits_lock.mp hf
  have hd' : Phase.inside.Data s.queue v := hd
  refine h.move hi (ok_awake hr hd') ?_ ?_ (.inr (.inr ⟨le_refl _, ?_⟩))
  · rw [holds_of_fits hr, holds_of_fits hf]
    simp [Phase.holds, hl]
  · rw [hand_of_fits hr hd', hand_of_fits hf hd]
    rfl
  · rw [taking_of_fits hr, taking_of_fits hf, owing_of_fits hr, owing_of_fits hf]
    simp [Thread.coming, awaits, Phase.takes, Phase.owes]

theorem Inv.unlock (h : Inv null late s) (hi : s.threads[i]? = some ⟨.unlock :: r, v, .awake⟩) :
    Inv null late { s.put i ⟨r, v, .awake⟩ with locked := false } := by
  obtain ⟨φ, hf, hd⟩ := h.thread hi
  have h1 : Thread.holds ⟨.unlock :: r, v, .awake⟩ = 1 := by simp [Thread.holds, inCrit]
  have hl := h.locked hi h1
  -- what the thread has besides the mutex, it keeps
  obtain ⟨ψ, hr, hψ⟩ : ∃ ψ, Fits late ψ r ∧ (φ = .inside ∧ ψ = .out ∨ φ = .pushed ∧ ψ = .owing ∨
      φ = .removed ∧ ψ = .hand) := by
    rcases fits_unlock.mp hf with ⟨rfl, hr⟩ | ⟨-, rfl, hr⟩ | ⟨rfl, hr⟩
    exacts [⟨_, hr, by simp⟩, ⟨_, hr, by simp⟩, ⟨_, hr, by simp⟩]
  have hd' : ψ.Data s.queue v := by
    rcases hψ with ⟨rfl, rfl⟩ | ⟨rfl, rfl⟩ | ⟨rfl, rfl⟩ <;> exact hd
  refine h.move hi (ok_awake hr hd') ?_ ?_ (.inr (.inr ⟨le_refl _, ?_⟩))
  · rw [holds_of_fits hr, h1, hl]
    rcases hψ with ⟨rfl, rfl⟩ | ⟨rfl, rfl⟩ | ⟨rfl, rfl⟩ <;> rfl
  · rw [hand_of_fits hr hd', hand_of_fits hf hd]
    rcases hψ with ⟨rfl, rfl⟩ | ⟨rfl, rfl⟩ | ⟨rfl, rfl⟩ <;> rfl
  · rw [taking_of_fits hr, taking_of_fits hf, owing_of_fits hr, owing_of_fits hf]
    rcases hψ with ⟨rfl, rfl⟩ | ⟨rfl, rfl⟩ | ⟨rfl, rfl⟩ <;>
      simp [Thread.coming, awaits, Phase.takes, Phase.owes]

/-- A thread that waits does so with the mutex and an empty queue; it releases the mutex. -/
theorem Inv.block (h : Inv null late s) (hi : s.threads[i]? = some ⟨.await :: r, v, .awake⟩)
    (hq : s.queue = []) :
    Inv null late { s.put i ⟨.await :: r, v, .blocked⟩ with locked := false } := by
  obtain ⟨φ, hf, hd⟩ := h.thread hi
  obtain ⟨rfl, hr⟩ := fits_await.mp hf
  have h1 := holds_of_fits (v := v) hf
  refine h.move hi ⟨_, hf, hd, .inr ⟨r, rfl⟩⟩ ?_ rfl (.inl hq)
  rw [h1, h.locked hi h1]
  simp [Phase.holds]

theorem Inv.leave (h : Inv null late s) (hi : s.threads[i]? = some ⟨.leaveIfEmpty :: r, v, .awake⟩)
    (hq : s.queue = []) : Inv null late (s.put i ⟨[.unlock], v, .awake⟩) := by
  obtain ⟨φ, hf, hd⟩ := h.thread hi
  obtain ⟨rfl, hr⟩ := fits_leaveIfEmpty.mp hf
  have hu : Fits late .inside [(.unlock : Stmt τ)] := by simp
  refine h.move hi (ok_awake hu hd) ?_ rfl (.inl hq)
  rw [holds_of_fits hu, holds_of_fits hf]

/-- The thread that comes to the check and finds a value goes on to take it. -/
theorem Inv.see (h : Inv null late s) {x : Stmt τ} (hi : s.threads[i]? = some ⟨x :: r, v, .awake⟩)
    (hx : x = .await ∨ x = .leaveIfEmpty) (hq : s.queue ≠ []) :
    Inv null late (s.put i ⟨r, v, .awake⟩) := by
  obtain ⟨φ, hf, hd⟩ := h.thread hi
  obtain ⟨rfl, hr⟩ : φ = .inside ∧ Fits late .seen r := by
    rcases hx with rfl | rfl
    exacts [fits_await.mp hf, fits_leaveIfEmpty.mp hf]
  have hd' : Phase.seen.Data s.queue v := ⟨hq, hd⟩
  refine h.move hi (ok_awake hr hd') ?_ ?_ (.inr (.inr ⟨le_refl _, ?_⟩))
  · rw [holds_of_fits hr, holds_of_fits hf]
    rfl
  · rw [hand_of_fits hr hd', hand_of_fits hf hd]
    rfl
  · rw [taking_of_fits hr, taking_of_fits hf, owing_of_fits hr, owing_of_fits hf]
    have : Thread.coming ⟨x :: r, v, .awake⟩ ≤ 1 := by unfold Thread.coming; split <;> simp
    simp only [Phase.takes, Phase.owes]
    omega

theorem Inv.front (h : Inv null late s) (hi : s.threads[i]? = some ⟨.front :: r, v, .awake⟩) :
    Inv null late { s.put i ⟨r, s.queue.head?, .awake⟩ with
      underflow := s.underflow || s.queue.isEmpty } := by
  obtain ⟨φ, hf, hd⟩ := h.thread hi
  obtain ⟨rfl, hr⟩ := fits_front.mp hf
  obtain ⟨x, q, hq⟩ := List.exists_cons_of_ne_nil hd.1
  have hd' : Phase.read.Data s.queue s.queue.head? := ⟨x, by simp [hq], by simp [hq]⟩
  have hu : (s.underflow || s.queue.isEmpty) = s.underflow := by simp [hq]
  rw [hu]
  refine h.move hi (ok_awake hr hd') ?_ ?_ (.inr (.inr ⟨le_refl _, ?_⟩))
  · rw [holds_of_fits hr, holds_of_fits hf]
    rfl
  · rw [hand_of_fits hr hd', hand_of_fits hf hd]
    rfl
  · rw [taking_of_fits hr, taking_of_fits hf, owing_of_fits hr, owing_of_fits hf]
    simp [Thread.coming, awaits, Phase.takes, Phase.owes]

/-- What is pushed is one more to take, and one more wakeup owed. -/
theorem Inv.push (h : Inv null late s) {x : τ}
    (hi : s.threads[i]? = some ⟨.push x :: r, v, .awake⟩) :
    Inv null late { s.put i ⟨r, v, .awake⟩ with
      queue := s.queue ++ [x], pushed := s.pushed ++ [x] } := by
  obtain ⟨φ, hf, hd⟩ := h.thread hi
  obtain ⟨rfl, hr⟩ := fits_push.mp hf
  have hd' : Phase.pushed.Data (s.queue ++ [x]) v := hd
  have h1 := holds_of_fits (v := v) hf
  obtain ⟨t1, t2, t3, t4, t5⟩ := put_totals ⟨r, v, .awake⟩ hi
  rw [holds_of_fits hr, h1] at t1
  rw [taking_of_fits hr, taking_of_fits hf] at t4
  rw [owing_of_fits hr, owing_of_fits hf] at t5
  simp only [coming_awake, asleep_awake, awaits, Phase.holds, Phase.takes, Phase.owes]
    at t1 t2 t3 t4 t5
  refine ⟨ok_put_of_holds h hi h1 (ok_awake hr hd'), ?_, ?_, h.safe, ?_, ?_⟩
  · exact (Nat.add_right_cancel t1).trans h.mutex
  · change s.taken ++ (s.queue ++ [x]) = s.pushed ++ [x]
    rw [← List.append_assoc, h.fifo]
  · change (s.taken.filter _).Perm (s.ran ++ (s.put i ⟨r, v, .awake⟩).hands.filter _)
    rw [put_hands_of_eq hi ((hand_of_fits hr hd' .awake).trans (hand_of_fits hf hd .awake).symm)]
    exact h.ledger
  · change (s.put i ⟨r, v, .awake⟩).blocked = 0 ∨ (s.queue ++ [x]).length ≤
      (s.put i ⟨r, v, .awake⟩).coming + (s.put i ⟨r, v, .awake⟩).taking +
        (s.put i ⟨r, v, .awake⟩).owing
    rw [List.length_append, List.length_singleton]
    have := h.covered
    omega

/-- What is removed is in the hand of the thread that removed it. -/
theorem Inv.pop (h : Inv null late s) (hi : s.threads[i]? = some ⟨.pop :: r, v, .awake⟩) :
    Inv null late { s.put i ⟨r, v, .awake⟩ with
      queue := s.queue.tail, taken := s.taken ++ v.toList,
      underflow := s.underflow || s.queue.isEmpty } := by
  obtain ⟨φ, hf, hd⟩ := h.thread hi
  obtain ⟨rfl, hr⟩ := fits_pop.mp hf
  obtain ⟨x, rfl, hx⟩ := hd
  have hd : Phase.read.Data s.queue (some x) := ⟨x, rfl, hx⟩
  have hd' : Phase.removed.Data s.queue.tail (some x) := ⟨x, rfl⟩
  obtain ⟨q, hq⟩ := List.head?_eq_some_iff.mp hx
  have h1 := holds_of_fits (v := some x) hf
  have hh := put_hands ⟨r, some x, .awake⟩ hi
  rw [hand_of_fits hr hd', hand_of_fits hf hd] at hh
  obtain ⟨t1, t2, t3, t4, t5⟩ := put_totals ⟨r, some x, .awake⟩ hi
  rw [holds_of_fits hr, h1] at t1
  rw [taking_of_fits hr, taking_of_fits hf] at t4
  rw [owing_of_fits hr, owing_of_fits hf] at t5
  simp only [coming_awake, asleep_awake, awaits, Phase.holds, Phase.takes, Phase.owes]
    at t1 t2 t3 t4 t5
  refine ⟨ok_put_of_holds h hi h1 (ok_awake hr hd'), ?_, ?_, ?_, ?_, ?_⟩
  · exact (Nat.add_right_cancel t1).trans h.mutex
  · change s.taken ++ [x] ++ s.queue.tail = s.pushed
    rw [← h.fifo, hq]
    simp
  · simp [hq, h.safe]
  · calc ((s.taken ++ [x]).filter fun x => !null x)
        = (s.taken.filter fun x => !null x) ++ [x].filter fun x => !null x := List.filter_append ..
      _ |>.Perm (s.ran ++ (s.hands.filter fun x => !null x) ++ [x].filter fun x => !null x) :=
        h.ledger.append_right _
      _ = s.ran ++ (s.hands ++ [x]).filter fun x => !null x := by simp
      _ |>.Perm (s.ran ++ (s.put i ⟨r, some x, .awake⟩).hands.filter fun x => !null x) :=
        ((by simpa using hh.symm : (s.hands ++ [x]).Perm _).filter _).append_left _
  · change (s.put i ⟨r, some x, .awake⟩).blocked = 0 ∨ s.queue.tail.length ≤
      (s.put i ⟨r, some x, .awake⟩).coming + (s.put i ⟨r, some x, .awake⟩).taking +
        (s.put i ⟨r, some x, .awake⟩).owing
    have := h.covered
    rw [hq, List.length_cons] at this
    rw [hq, List.tail_cons]
    omega

theorem Inv.run (h : Inv null late s) (hi : s.threads[i]? = some ⟨.run :: r, v, .awake⟩) :
    Inv null late { s.put i ⟨r, none, .awake⟩ with
      ran := s.ran ++ v.toList.filter fun x => !null x } := by
  obtain ⟨φ, hf, hd⟩ := h.thread hi
  obtain ⟨rfl, hr⟩ := fits_run.mp hf
  have hd' : Phase.out.Data s.queue none := rfl
  have hh := put_hands ⟨r, none, .awake⟩ hi
  rw [hand_of_fits hr hd', hand_of_fits hf hd] at hh
  obtain ⟨t1, t2, t3, t4, t5⟩ := put_totals ⟨r, none, .awake⟩ hi
  rw [holds_of_fits hr, holds_of_fits hf] at t1
  rw [taking_of_fits hr, taking_of_fits hf] at t4
  rw [owing_of_fits hr, owing_of_fits hf] at t5
  simp only [coming_awake, asleep_awake, awaits, Phase.holds, Phase.takes, Phase.owes]
    at t1 t2 t3 t4 t5
  refine ⟨ok_put h.ok (ok_awake hr hd'), ?_, h.fifo, h.safe, ?_, ?_⟩
  · exact t1.trans h.mutex
  · have hp : s.hands.Perm (v.toList ++ (s.put i ⟨r, none, .awake⟩).hands) := by
      simpa using hh.symm.trans List.perm_append_comm
    calc (s.taken.filter fun x => !null x)
      _ |>.Perm (s.ran ++ s.hands.filter fun x => !null x) := h.ledger
      _ |>.Perm (s.ran ++ (v.toList ++ (s.put i ⟨r, none, .awake⟩).hands).filter
          fun x => !null x) := (hp.filter _).append_left _
      _ = s.ran ++ (v.toList.filter fun x => !null x) ++
          (s.put i ⟨r, none, .awake⟩).hands.filter fun x => !null x := by simp
  · change (s.put i ⟨r, none, .awake⟩).blocked = 0 ∨ s.queue.length ≤
      (s.put i ⟨r, none, .awake⟩).coming + (s.put i ⟨r, none, .awake⟩).taking +
        (s.put i ⟨r, none, .awake⟩).owing
    have := h.covered
    omega

/-- What a notification leaves to the thread that sent it. -/
theorem Inv.notify_fits (h : Inv null late s)
    (hi : s.threads[i]? = some ⟨.notify :: r, v, .awake⟩) :
    Thread.Ok late s.queue ⟨r, v, .awake⟩ ∧
      Thread.holds ⟨r, v, .awake⟩ = Thread.holds ⟨.notify :: r, v, .awake⟩ ∧
      Thread.hand ⟨r, v, .awake⟩ = Thread.hand ⟨.notify :: r, v, .awake⟩ ∧
      Thread.taking ⟨r, v, .awake⟩ = 0 ∧ Thread.owing ⟨r, v, .awake⟩ = 0 := by
  obtain ⟨φ, hf, hd⟩ := h.thread hi
  obtain ⟨ψ, hr, hψ⟩ : ∃ ψ, Fits late ψ r ∧
      (φ = .pushed ∧ ψ = .inside ∨ φ = .owing ∧ ψ = .out) := by
    rcases fits_notify.mp hf with ⟨rfl, hr⟩ | ⟨-, rfl, hr⟩
    exacts [⟨_, hr, by simp⟩, ⟨_, hr, by simp⟩]
  have hd' : ψ.Data s.queue v := by rcases hψ with ⟨rfl, rfl⟩ | ⟨rfl, rfl⟩ <;> exact hd
  refine ⟨ok_awake hr hd', ?_, ?_, ?_, ?_⟩
  · rw [holds_of_fits hr, holds_of_fits hf]
    rcases hψ with ⟨rfl, rfl⟩ | ⟨rfl, rfl⟩ <;> rfl
  · rw [hand_of_fits hr hd', hand_of_fits hf hd]
    rcases hψ with ⟨rfl, rfl⟩ | ⟨rfl, rfl⟩ <;> rfl
  · rw [taking_of_fits hr]
    rcases hψ with ⟨rfl, rfl⟩ | ⟨rfl, rfl⟩ <;> rfl
  · rw [owing_of_fits hr]
    rcases hψ with ⟨rfl, rfl⟩ | ⟨rfl, rfl⟩ <;> rfl

/-- A notification that wakes nobody is one that finds nobody asleep. -/
theorem Inv.notify (h : Inv null late s) (hi : s.threads[i]? = some ⟨.notify :: r, v, .awake⟩)
    (h0 : (s.put i ⟨r, v, .awake⟩).blocked = 0) : Inv null late (s.put i ⟨r, v, .awake⟩) := by
  obtain ⟨hok, hm, hh, -, -⟩ := h.notify_fits hi
  exact h.move hi hok (by rw [hm]) hh (.inr (.inl h0))

/-- A thread that wakes up is on its way to the check. -/
theorem Inv.wake (h : Inv null late s) (hi : s.threads[i]? = some ⟨r, v, .blocked⟩) :
    Inv null late (s.put i ⟨r, v, .woken⟩) := by
  have hok := h.ok _ (List.mem_of_getElem? hi)
  obtain ⟨r, rfl, hr, hv⟩ := hok.asleep (by simp)
  refine h.move hi ⟨.inside, by simpa using hr, hv, .inr ⟨r, rfl⟩⟩ (by simp) rfl ?_
  exact .inr (.inr ⟨by simp, by simp [Thread.taking, Thread.owing]⟩)

theorem Inv.relock (h : Inv null late s) (hi : s.threads[i]? = some ⟨r, v, .woken⟩)
    (hl : s.locked = false) : Inv null late { s.put i ⟨r, v, .awake⟩ with locked := true } := by
  have hok := h.ok _ (List.mem_of_getElem? hi)
  obtain ⟨r, rfl, hr, hv⟩ := hok.asleep (by simp)
  have hf : Fits late .inside (.await :: r) := by simpa using hr
  refine h.move hi (ok_awake hf hv) ?_ rfl (.inr (.inr ⟨by simp, ?_⟩))
  · rw [holds_of_fits hf, holds_woken, hl]
    rfl
  · simp [Thread.taking, Thread.owing, awaits]

/-- The thread that wakes up makes up for the notification that is no longer owed. -/
theorem Inv.notifyOne (h : Inv null late s) {j : ℕ} {r' : List (Stmt τ)} {v' : Option τ}
    (hi : s.threads[i]? = some ⟨.notify :: r, v, .awake⟩)
    (hj : (s.put i ⟨r, v, .awake⟩).threads[j]? = some ⟨r', v', .blocked⟩) :
    Inv null late ((s.put i ⟨r, v, .awake⟩).put j ⟨r', v', .woken⟩) := by
  have hji : j ≠ i := by
    rintro rfl
    obtain ⟨hlt, -⟩ := List.getElem?_eq_some_iff.mp hi
    rw [State.put, List.getElem?_set_self hlt] at hj
    simp at hj
  have hj' : s.threads[j]? = some ⟨r', v', .blocked⟩ := by
    rwa [State.put, List.getElem?_set_ne hji.symm] at hj
  have hi' : (s.put j ⟨r', v', .woken⟩).threads[i]? = some ⟨.notify :: r, v, .awake⟩ := by
    rwa [State.put, List.getElem?_set_ne hji]
  have hcomm : (s.put i ⟨r, v, .awake⟩).put j ⟨r', v', .woken⟩ =
      (s.put j ⟨r', v', .woken⟩).put i ⟨r, v, .awake⟩ := by
    simp only [State.put, List.set_comm _ _ hji.symm]
  -- first the wakeup, then what is left of the notification
  rw [hcomm]
  have hw := h.wake hj'
  obtain ⟨r', rfl, -, -⟩ := (h.ok _ (List.mem_of_getElem? hj')).asleep (by simp)
  obtain ⟨hok, hm, hh, ht, ho⟩ := hw.notify_fits hi'
  refine hw.move_of_covered hi' hok (by rw [hm]) hh ?_
  obtain ⟨-, a1, a2, a3, a4⟩ := put_totals ⟨.await :: r', v', .woken⟩ hj'
  obtain ⟨-, b1, b2, b3, b4⟩ := put_totals ⟨r, v, .awake⟩ hi'
  rw [ht] at b3
  rw [ho] at b4
  simp only [asleep_awake, asleep_blocked, asleep_woken, coming_awake, coming_blocked,
    coming_woken, Thread.taking, Thread.owing, awaits] at a1 a2 a3 a4 b1 b2 b3 b4
  have hc := h.covered
  change _ ∨ s.queue.length ≤ _
  omega

end Statements

/-- **The step lemma.** -/
theorem inv_step (hP : ∀ p, P p → Fits late .out p) (h : Inv null late s)
    (ho : Outcome null P s s') : Inv null late s' := by
  cases ho with
  | call hi hp => exact h.call hi (hP _ hp)
  | spin => exact h
  | lock hi hl => exact h.lock hi hl
  | unlock hi => exact h.unlock hi
  | push hi => exact h.push hi
  | notify hi h0 => exact h.notify hi h0
  | notifyOne hi hj => exact h.notifyOne hi hj
  | block hi hq => exact h.block hi hq
  | leave hi hq => exact h.leave hi hq
  | see hi hx hq => exact h.see hi hx hq
  | front hi => exact h.front hi
  | pop hi => exact h.pop hi
  | run hi => exact h.run hi
  | wake hj => exact h.wake hj
  | relock hj hl => exact h.relock hj hl

/-- **The run lemma**: programs that fit keep the invariant, however they are interleaved. -/
theorem inv_of_run (hP : ∀ p, P p → Fits late .out p) {n : ℕ} {as : List (Act τ)}
    (h : Run (step null) (calls P) (init n) as s) : Inv null late s :=
  h.invariant (inv_init null late n) fun _ _ _ hI hg hs => inv_step hP hI (outcome_of_step hg hs)

end Step

/-! ## Consequences -/

section Consequences

variable {null : τ → Bool} {late : Bool} {P : List (Stmt τ) → Prop} {s : State τ} {t : Thread τ}

theorem Thread.Ok.taking_le {q : List τ} (h : t.Ok late q) : t.taking ≤ t.holds := by
  obtain ⟨r, v, st⟩ := t
  obtain ⟨φ, hf, -, rfl | ⟨r, rfl⟩⟩ := h
  · rw [taking_of_fits hf, holds_of_fits hf]
    cases φ <;> simp [Phase.takes, Phase.holds]
  · exact Nat.zero_le _

/-- Programs that notify before they release the mutex owe nothing outside. -/
theorem Thread.Ok.taking_add_owing_le {q : List τ} (h : t.Ok false q) :
    t.taking + t.owing ≤ t.holds := by
  obtain ⟨r, v, st⟩ := t
  obtain ⟨φ, hf, -, rfl | ⟨r, rfl⟩⟩ := h
  · have ho : φ ≠ .owing := by
      rintro rfl
      cases r with
      | nil => cases fits_nil.mp hf
      | cons x r => cases x <;> simp at hf
    rw [taking_of_fits hf, owing_of_fits hf, holds_of_fits hf]
    cases φ <;> simp_all [Phase.takes, Phase.owes, Phase.holds]
  · exact Nat.zero_le _

/-- At most one thread is taking a value, and it has the mutex. -/
theorem Inv.taking_le (h : Inv null late s) : s.taking ≤ if s.locked then 1 else 0 := by
  rw [← h.mutex]
  exact total_le_total fun t ht => (h.ok t ht).taking_le

theorem Inv.taking_add_owing_le (h : Inv null false s) :
    s.taking + s.owing ≤ if s.locked then 1 else 0 := by
  rw [← h.mutex]
  refine (total_add ..).symm.trans_le ?_
  exact total_le_total fun t ht => (h.ok t ht).taking_add_owing_le

theorem step_unlock {i : ℕ} {r : List (Stmt τ)} {v : Option τ}
    (hi : s.threads[i]? = some ⟨.unlock :: r, v, .awake⟩) :
    step null s (.exec i) = some { s.put i ⟨r, v, .awake⟩ with locked := false } := by
  simp only [step, hi, execStmt]

theorem step_run {i : ℕ} {r : List (Stmt τ)} {x : τ} (hn : null x = false)
    (hi : s.threads[i]? = some ⟨.run :: r, some x, .awake⟩) :
    step null s (.exec i) = some { s.put i ⟨r, none, .awake⟩ with ran := s.ran ++ [x] } := by
  simp [step, hi, execStmt, hn]

/-- **What is taken is run**: a thread with a value in hand runs it by its own next steps, without
waiting for another thread. -/
theorem Inv.exists_ran (h : Inv null late s) {i : ℕ} (hi : s.threads[i]? = some t) {x : τ}
    (hx : x ∈ t.hand) (hn : null x = false) : ∃ k s', 0 < k ∧
      Run (step null) (calls P) s (List.replicate k (.exec i)) s' ∧ s'.ran = s.ran ++ [x] := by
  obtain ⟨r, v, st⟩ := t
  obtain ⟨φ, hf, hd, hs⟩ := h.ok _ (List.mem_of_getElem? hi)
  rw [hand_of_fits hf hd] at hx
  have hφ : φ = .removed ∨ φ = .hand := by
    by_contra hφ
    rw [if_neg hφ] at hx
    cases hx
  rw [if_pos hφ] at hx
  obtain rfl := Option.mem_toList.mp hx
  obtain ⟨hlt, -⟩ := List.getElem?_eq_some_iff.mp hi
  rcases hs with rfl | ⟨r, rfl⟩
  · rcases hφ with rfl | rfl
    · -- the unlock comes first
      obtain ⟨r, rfl, hr⟩ := fits_removed hf
      obtain ⟨r, rfl, -⟩ := fits_hand hr
      refine ⟨2, _, Nat.two_pos, .cons trivial (step_unlock hi)
        (.cons trivial (step_run (r := r) hn ?_) .nil), rfl⟩
      exact List.getElem?_set_self hlt
    · obtain ⟨r, rfl, -⟩ := fits_hand hf
      exact ⟨1, _, Nat.one_pos, .cons trivial (step_run hn hi) .nil, rfl⟩
  · obtain ⟨rfl, -⟩ := fits_await.mp hf
    simp at hφ

end Consequences

end PracticeCode.Lib.Monitor
