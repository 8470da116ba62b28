import PracticeCode.Lib.Run
import PracticeCode.Lib.Slots

/-!
# Threads that share a queue under a mutex and a condition variable

A small concurrent language: a program is a list of statements on one queue, one mutex and one
condition variable, and a state holds any number of threads, each inside some program.

* `step` runs one statement of one thread; `notify_one` wakes a thread of the scheduler's choice,
  wakeups may be spurious, and a woken thread first takes the mutex back.
* `Phase` and `Fits` are a type system for programs: what a thread holds, knows and owes before each
  statement.  Whether a program fits is decided by its text alone.
* `outcome_of_step` says once what a step can do.

`null` tells the values that a thread takes out but does not run.
-/

namespace PracticeCode.Lib.Monitor

variable {τ : Type*}

/-! ## Programs and states -/

inductive Stmt (τ : Type*) where
  /-- Take the mutex; the thread stays here while another one has it. -/
  | lock
  | unlock
  | push (v : τ)
  /-- `notify_one`. -/
  | notify
  /-- `while (q.empty()) c.wait(lock)`. -/
  | await
  /-- `if (q.empty()) return`, under a guard that unlocks on the way out. -/
  | leaveIfEmpty
  /-- `x = q.front()`. -/
  | front
  | pop
  /-- What the thread does with `x` once the mutex is released. -/
  | run

inductive Status where
  | awake
  /-- Asleep in the wait of the condition variable. -/
  | blocked
  /-- Out of its sleep, about to take the mutex back. -/
  | woken
  deriving DecidableEq

/-- What a thread still has to do, its local variable, and whether it sleeps. -/
structure Thread (τ : Type*) where
  rest : List (Stmt τ)
  val : Option τ
  status : Status

/-- `pushed`, `taken` and `ran` record what was put in, what was removed as some thread read it, and
what was run.  `underflow` is set by a `front` or a `pop` on an empty queue. -/
structure State (τ : Type*) where
  queue : List τ
  locked : Bool
  threads : List (Thread τ)
  pushed : List τ
  taken : List τ
  ran : List τ
  underflow : Bool

inductive Act (τ : Type*) where
  /-- Thread `i`, done with its last program, starts `p`. -/
  | call (i : ℕ) (p : List (Stmt τ))
  /-- Thread `i` tries to lock and fails. -/
  | spin (i : ℕ)
  | exec (i : ℕ)
  /-- Thread `i` calls `notify_one`, and the sleeping thread `j` wakes, if there is one. -/
  | notify (i : ℕ) (j : Option ℕ)
  /-- A spurious wakeup. -/
  | wake (j : ℕ)
  | relock (j : ℕ)

/-- `n` threads that have not started anything yet. -/
def init (n : ℕ) : State τ := ⟨[], false, List.replicate n ⟨[], none, .awake⟩, [], [], [], false⟩

def State.put (s : State τ) (i : ℕ) (t : Thread τ) : State τ :=
  { s with threads := s.threads.set i t }

def Thread.asleep (t : Thread τ) : ℕ := if t.status = .blocked then 1 else 0

/-- The number of threads that sleep on the condition variable. -/
def State.blocked (s : State τ) : ℕ := total Thread.asleep s.threads

/-! ## Steps -/

section Steps

variable (null : τ → Bool)

/-- Thread `i` runs the statement, and has `r` and `v` when it is done. -/
def execStmt (s : State τ) (i : ℕ) (r : List (Stmt τ)) (v : Option τ) :
    Stmt τ → Option (State τ)
  | .lock => if s.locked then none else some { s.put i ⟨r, v, .awake⟩ with locked := true }
  | .unlock => some { s.put i ⟨r, v, .awake⟩ with locked := false }
  | .push x => some { s.put i ⟨r, v, .awake⟩ with
      queue := s.queue ++ [x], pushed := s.pushed ++ [x] }
  | .notify => none
  | .await => match s.queue with
    -- the wait releases the mutex, and the thread tests again when it is back
    | [] => some { s.put i ⟨.await :: r, v, .blocked⟩ with locked := false }
    | _ :: _ => some (s.put i ⟨r, v, .awake⟩)
  | .leaveIfEmpty => match s.queue with
    | [] => some (s.put i ⟨[.unlock], v, .awake⟩)
    | _ :: _ => some (s.put i ⟨r, v, .awake⟩)
  | .front => some { s.put i ⟨r, s.queue.head?, .awake⟩ with
      underflow := s.underflow || s.queue.isEmpty }
  | .pop => some { s.put i ⟨r, v, .awake⟩ with
      queue := s.queue.tail, taken := s.taken ++ v.toList,
      underflow := s.underflow || s.queue.isEmpty }
  | .run => some { s.put i ⟨r, none, .awake⟩ with
      ran := s.ran ++ v.toList.filter fun x => !null x }

/-- One sleeping thread wakes up; `none` when nobody sleeps. -/
def State.wakeOne (s : State τ) : Option ℕ → Option (State τ)
  | none => if s.blocked = 0 then some s else none
  | some j => match s.threads[j]? with
    | some ⟨r, v, .blocked⟩ => some (s.put j ⟨r, v, .woken⟩)
    | _ => none

def step (s : State τ) : Act τ → Option (State τ)
  | .call i p => match s.threads[i]? with
    | some ⟨[], v, .awake⟩ => some (s.put i ⟨p, v, .awake⟩)
    | _ => none
  | .spin i => match s.threads[i]? with
    | some ⟨.lock :: _, _, .awake⟩ => some s
    | _ => none
  | .exec i => match s.threads[i]? with
    | some ⟨x :: r, v, .awake⟩ => execStmt null s i r v x
    | _ => none
  | .notify i j => match s.threads[i]? with
    | some ⟨.notify :: r, v, .awake⟩ => (s.put i ⟨r, v, .awake⟩).wakeOne j
    | _ => none
  | .wake j => s.wakeOne (some j)
  | .relock j => match s.threads[j]? with
    | some ⟨r, v, .woken⟩ =>
      if s.locked then none else some { s.put j ⟨r, v, .awake⟩ with locked := true }
    | _ => none

/-- The threads call nothing but `P`. -/
def calls (P : List (Stmt τ) → Prop) (_ : State τ) : Act τ → Prop
  | .call _ p => P p
  | _ => True

/-- What a step whose calls are in `P` can do. -/
inductive Outcome (P : List (Stmt τ) → Prop) (s : State τ) : State τ → Prop
  | call {i p v} : s.threads[i]? = some ⟨[], v, .awake⟩ → P p →
      Outcome P s (s.put i ⟨p, v, .awake⟩)
  | spin : Outcome P s s
  | lock {i r v} : s.threads[i]? = some ⟨.lock :: r, v, .awake⟩ → s.locked = false →
      Outcome P s { s.put i ⟨r, v, .awake⟩ with locked := true }
  | unlock {i r v} : s.threads[i]? = some ⟨.unlock :: r, v, .awake⟩ →
      Outcome P s { s.put i ⟨r, v, .awake⟩ with locked := false }
  | push {i x r v} : s.threads[i]? = some ⟨.push x :: r, v, .awake⟩ →
      Outcome P s { s.put i ⟨r, v, .awake⟩ with
        queue := s.queue ++ [x], pushed := s.pushed ++ [x] }
  | notify {i r v} : s.threads[i]? = some ⟨.notify :: r, v, .awake⟩ →
      (s.put i ⟨r, v, .awake⟩).blocked = 0 → Outcome P s (s.put i ⟨r, v, .awake⟩)
  | notifyOne {i j r v r' v'} : s.threads[i]? = some ⟨.notify :: r, v, .awake⟩ →
      (s.put i ⟨r, v, .awake⟩).threads[j]? = some ⟨r', v', .blocked⟩ →
      Outcome P s ((s.put i ⟨r, v, .awake⟩).put j ⟨r', v', .woken⟩)
  | block {i r v} : s.threads[i]? = some ⟨.await :: r, v, .awake⟩ → s.queue = [] →
      Outcome P s { s.put i ⟨.await :: r, v, .blocked⟩ with locked := false }
  | leave {i r v} : s.threads[i]? = some ⟨.leaveIfEmpty :: r, v, .awake⟩ → s.queue = [] →
      Outcome P s (s.put i ⟨[.unlock], v, .awake⟩)
  /-- The check of `await` or of `leaveIfEmpty` finds the queue non-empty. -/
  | see {i x r v} : s.threads[i]? = some ⟨x :: r, v, .awake⟩ → x = .await ∨ x = .leaveIfEmpty →
      s.queue ≠ [] → Outcome P s (s.put i ⟨r, v, .awake⟩)
  | front {i r v} : s.threads[i]? = some ⟨.front :: r, v, .awake⟩ →
      Outcome P s { s.put i ⟨r, s.queue.head?, .awake⟩ with
        underflow := s.underflow || s.queue.isEmpty }
  | pop {i r v} : s.threads[i]? = some ⟨.pop :: r, v, .awake⟩ →
      Outcome P s { s.put i ⟨r, v, .awake⟩ with
        queue := s.queue.tail, taken := s.taken ++ v.toList,
        underflow := s.underflow || s.queue.isEmpty }
  | run {i r v} : s.threads[i]? = some ⟨.run :: r, v, .awake⟩ →
      Outcome P s { s.put i ⟨r, none, .awake⟩ with
        ran := s.ran ++ v.toList.filter fun x => !null x }
  | wake {j r v} : s.threads[j]? = some ⟨r, v, .blocked⟩ →
      Outcome P s (s.put j ⟨r, v, .woken⟩)
  | relock {j r v} : s.threads[j]? = some ⟨r, v, .woken⟩ → s.locked = false →
      Outcome P s { s.put j ⟨r, v, .awake⟩ with locked := true }

end Steps

variable {null : τ → Bool} {P : List (Stmt τ) → Prop} {s s' : State τ} {a : Act τ}

theorem outcome_of_exec {i : ℕ} {x : Stmt τ} {r : List (Stmt τ)} {v : Option τ}
    (hi : s.threads[i]? = some ⟨x :: r, v, .awake⟩) (h : execStmt null s i r v x = some s') :
    Outcome null P s s' := by
  cases x with
  | lock =>
    simp only [execStmt, Option.ite_none_left_eq_some, Bool.not_eq_true, Option.some.injEq] at h
    exact h.2 ▸ .lock hi h.1
  | unlock => exact Option.some.inj h ▸ .unlock hi
  | push x => exact Option.some.inj h ▸ .push hi
  | notify => cases h
  | await =>
    simp only [execStmt] at h
    split at h
    · exact Option.some.inj h ▸ .block hi ‹_›
    · exact Option.some.inj h ▸ .see hi (.inl rfl) (by simp [*])
  | leaveIfEmpty =>
    simp only [execStmt] at h
    split at h
    · exact Option.some.inj h ▸ .leave hi ‹_›
    · exact Option.some.inj h ▸ .see hi (.inr rfl) (by simp [*])
  | front => exact Option.some.inj h ▸ .front hi
  | pop => exact Option.some.inj h ▸ .pop hi
  | run => exact Option.some.inj h ▸ .run hi

/-- What waking one thread does. -/
theorem wakeOne_cases {j : Option ℕ} (h : s.wakeOne j = some s') :
    (s.blocked = 0 ∧ s' = s) ∨
      ∃ k r v, s.threads[k]? = some ⟨r, v, .blocked⟩ ∧ s' = s.put k ⟨r, v, .woken⟩ := by
  cases j with
  | none =>
    simp only [State.wakeOne, Option.ite_none_right_eq_some, Option.some.injEq] at h
    exact .inl ⟨h.1, h.2.symm⟩
  | some j =>
    simp only [State.wakeOne] at h
    split at h
    · exact .inr ⟨j, _, _, ‹_›, (Option.some.inj h).symm⟩
    · cases h

theorem outcome_of_step (hg : calls P s a) (h : step null s a = some s') :
    Outcome null P s s' := by
  cases a with
  | call i p =>
    simp only [step] at h
    split at h
    · exact Option.some.inj h ▸ .call ‹_› hg
    · cases h
  | spin i =>
    simp only [step] at h
    split at h
    · exact Option.some.inj h ▸ .spin
    · cases h
  | exec i =>
    simp only [step] at h
    split at h
    · exact outcome_of_exec ‹_› h
    · cases h
  | notify i j =>
    simp only [step] at h
    split at h
    · rcases wakeOne_cases h with ⟨h0, rfl⟩ | ⟨k, r, v, hk, rfl⟩
      · exact .notify ‹_› h0
      · exact .notifyOne ‹_› hk
    · cases h
  | wake j =>
    simp only [step] at h
    rcases wakeOne_cases h with ⟨-, rfl⟩ | ⟨k, r, v, hk, rfl⟩
    · exact .spin
    · exact .wake hk
  | relock j =>
    simp only [step] at h
    split at h
    · simp only [Option.ite_none_left_eq_some, Bool.not_eq_true, Option.some.injEq] at h
      exact h.2 ▸ .relock ‹_› h.1
    · cases h

/-! ## Phases: a type system for programs

`late` says whether a program may release the mutex before it notifies.
-/

/-- What a thread has before a statement. -/
inductive Phase where
  /-- Nothing. -/
  | out
  /-- The mutex. -/
  | inside
  /-- The mutex, and it owes a notification for what it pushed. -/
  | pushed
  /-- It owes the notification, the mutex released. -/
  | owing
  /-- The mutex, and it knows that the queue is not empty. -/
  | seen
  /-- The mutex, and the front of the queue in its variable. -/
  | read
  /-- The mutex, and a value that it removed. -/
  | removed
  /-- A value that it removed, the mutex released. -/
  | hand
  deriving DecidableEq

def Phase.next (late : Bool) : Phase → Stmt τ → Option Phase
  | .out, .lock => some .inside
  | .inside, .unlock => some .out
  | .inside, .push _ => some .pushed
  | .inside, .await => some .seen
  | .inside, .leaveIfEmpty => some .seen
  | .pushed, .notify => some .inside
  | .pushed, .unlock => if late then some .owing else none
  | .owing, .notify => if late then some .out else none
  | .seen, .front => some .read
  | .read, .pop => some .removed
  | .removed, .unlock => some .hand
  | .hand, .run => some .out
  | _, _ => none

/-- The program does what its phases allow, and ends with nothing in hand and nothing owed. -/
def Fits (late : Bool) : Phase → List (Stmt τ) → Prop
  | φ, [] => φ = .out
  | φ, x :: r => ∃ ψ, φ.next late x = some ψ ∧ Fits late ψ r

section Fits

variable {late : Bool} {φ : Phase} {r : List (Stmt τ)} {x : τ}

section Phases

attribute [local simp] Fits Phase.next

@[simp] theorem fits_nil : Fits late φ ([] : List (Stmt τ)) ↔ φ = .out := Iff.rfl

@[simp] theorem fits_lock : Fits late φ (.lock :: r) ↔ φ = .out ∧ Fits late .inside r := by
  cases φ <;> simp

@[simp] theorem fits_unlock : Fits late φ (.unlock :: r) ↔
    φ = .inside ∧ Fits late .out r ∨ late = true ∧ φ = .pushed ∧ Fits late .owing r ∨
      φ = .removed ∧ Fits late .hand r := by
  cases φ <;> cases late <;> simp

@[simp] theorem fits_push : Fits late φ (.push x :: r) ↔ φ = .inside ∧ Fits late .pushed r := by
  cases φ <;> simp

@[simp] theorem fits_notify : Fits late φ (.notify :: r) ↔
    φ = .pushed ∧ Fits late .inside r ∨ late = true ∧ φ = .owing ∧ Fits late .out r := by
  cases φ <;> cases late <;> simp

@[simp] theorem fits_await : Fits late φ (.await :: r) ↔ φ = .inside ∧ Fits late .seen r := by
  cases φ <;> simp

@[simp] theorem fits_leaveIfEmpty :
    Fits late φ (.leaveIfEmpty :: r) ↔ φ = .inside ∧ Fits late .seen r := by
  cases φ <;> simp

@[simp] theorem fits_front : Fits late φ (.front :: r) ↔ φ = .seen ∧ Fits late .read r := by
  cases φ <;> simp

@[simp] theorem fits_pop : Fits late φ (.pop :: r) ↔ φ = .read ∧ Fits late .removed r := by
  cases φ <;> simp

@[simp] theorem fits_run : Fits late φ (.run :: r) ↔ φ = .hand ∧ Fits late .out r := by
  cases φ <;> simp

end Phases

/-- A thread that removed a value releases the mutex next. -/
theorem fits_removed (h : Fits late .removed r) : ∃ r', r = .unlock :: r' ∧ Fits late .hand r' := by
  cases r with
  | nil => cases fits_nil.mp h
  | cons y r => cases y <;> simp at h ⊢; exact h

/-- A thread with a value in hand runs it next. -/
theorem fits_hand (h : Fits late .hand r) : ∃ r', r = .run :: r' ∧ Fits late .out r' := by
  cases r with
  | nil => cases fits_nil.mp h
  | cons y r => cases y <;> simp at h ⊢; exact h

theorem Fits.append {p q : List (Stmt τ)} (hp : Fits late φ p) (hq : Fits late .out q) :
    Fits late φ (p ++ q) := by
  induction p generalizing φ with
  | nil => exact fits_nil.mp hp ▸ hq
  | cons x p ih =>
    obtain ⟨ψ, hn, hr⟩ := hp
    exact ⟨ψ, hn, ih hr⟩

end Fits

end PracticeCode.Lib.Monitor
