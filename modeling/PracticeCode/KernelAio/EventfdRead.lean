import PracticeCode.Lib.Run
import Mathlib.Algebra.Ring.Nat
import Mathlib.Data.List.Nodup
import Mathlib.Data.List.Perm.Subperm

/-!
# `ReadByKernelAIOAndEventfdAndEpoll`: waiting for reads through their eventfds

Each of the `n` reads counts up an eventfd of its own and puts an event on the ring of the `aio`
context.  `epoll_wait` tells how many eventfds are readable, and `CheckByIOGetevents` waits for that
many events of the ring.  Nobody reads the eventfds, so that each wait counts every read that has
completed, those of the waits before included.

`sound_iff`: a schedule is good exactly when the numbers of the reads that had completed at the
returns of `epoll_wait` add up to at most `n`.  Otherwise `io_getevents` waits for good, with more
asked than is to come.
-/

namespace PracticeCode.KernelAio

open Lib

namespace EventfdRead

inductive Point where
  | wait
  /-- In `io_getevents` of `CheckByIOGetevents(ctx, ret)`. -/
  | getevents (ret : ℕ)
  /-- The events whose callback is still to be called. -/
  | events (es : List ℕ)
  | done
  /-- `return ""` -/
  | failed
  deriving DecidableEq

/-- `completed` are the reads whose eventfd is not zero, `ring` those whose event is not fetched,
`callbacks` those whose callback was called. -/
structure State where
  completed : List ℕ
  ring : List ℕ
  callbacks : List ℕ
  finished : ℕ
  point : Point

/-- `io_submit` took the `n` reads. -/
def init : State := ⟨[], [], [], 0, .wait⟩

inductive Act where
  /-- The kernel completes the read `i`. -/
  | complete (i : ℕ)
  | epollWait
  | epollFail
  | getevents (es : List ℕ)
  /-- The next callback, or the test at the end of the loop. -/
  | next
  deriving DecidableEq

/-- `n` is `MAX_EVENT`. -/
def step (n : ℕ) (s : State) : Act → Option State
  | .complete i =>
    if i < n ∧ i ∉ s.completed then
      some { s with completed := s.completed ++ [i], ring := s.ring ++ [i] }
    else none
  | .epollWait => match s.point with
    | .wait =>
      -- level-triggered, and room for every eventfd
      let ret := s.completed.length
      if ret ≠ 0 then some { s with finished := s.finished + ret, point := .getevents ret }
      else none
    | _ => none
  | .epollFail => match s.point with
    | .wait => some { s with point := .failed }
    | _ => none
  | .getevents es => match s.point with
    | .getevents ret =>
      if es.length = ret ∧ (es ++ s.ring.diff es).Perm s.ring then
        some { s with ring := s.ring.diff es, point := .events es }
      else none
    | _ => none
  | .next => match s.point with
    | .events (e :: es) => some { s with callbacks := s.callbacks ++ [e], point := .events es }
    | .events [] =>
      if n ≤ s.finished then some { s with point := .done } else some { s with point := .wait }
    | _ => none

/-- `epoll_wait` reports eventfds, not an error. -/
def reports (_ : State) (a : Act) : Prop := a ≠ .epollFail

instance (s : State) (a : Act) : Decidable (reports s a) := by
  unfold reports; infer_instance

/-- A call of `io_getevents` asks for no more than is still to come, no callback runs twice, the
loop is only left when all reads are consumed, and until then something can happen. -/
structure Sound (n : ℕ) (s : State) : Prop where
  asks : ∀ ret, s.point = .getevents ret → ret ≤ n - s.callbacks.length
  once : s.callbacks.Nodup ∧ ∀ i ∈ s.callbacks, i < n
  leaves : s.point = .done → s.callbacks.Perm (List.range n)
  continues : s.point ≠ .done → ∃ a, reports s a ∧ (step n s a).isSome

/-- The reads that completed so far, and their numbers at the returns of `epoll_wait`. -/
def tally (t : ℕ × List ℕ) : Act → ℕ × List ℕ
  | .complete _ => (t.1 + 1, t.2)
  | .epollWait => (t.1, t.2 ++ [t.1])
  | _ => t

/-- How many reads had completed when each `epoll_wait` of a schedule returned. -/
def readyCounts (as : List Act) : List ℕ := (as.foldl tally (0, [])).2

/-! ## The inversion of `step` -/

inductive Outcome (n : ℕ) (s : State) : Act → State → Prop
  | complete {i} : i < n → i ∉ s.completed →
      Outcome n s (.complete i) { s with
        completed := s.completed ++ [i], ring := s.ring ++ [i] }
  | epollWait : s.point = .wait →
      Outcome n s .epollWait { s with
        finished := s.finished + s.completed.length, point := .getevents s.completed.length }
  | epollFail : Outcome n s .epollFail { s with point := .failed }
  | getevents {es} : s.point = .getevents es.length → (es ++ s.ring.diff es).Perm s.ring →
      Outcome n s (.getevents es) { s with ring := s.ring.diff es, point := .events es }
  | callback {e es} : s.point = .events (e :: es) →
      Outcome n s .next { s with callbacks := s.callbacks ++ [e], point := .events es }
  | done : s.point = .events [] → n ≤ s.finished → Outcome n s .next { s with point := .done }
  | again : s.point = .events [] → s.finished < n → Outcome n s .next { s with point := .wait }

theorem outcome_of_step {n : ℕ} {s s' : State} {a : Act} (h : step n s a = some s') :
    Outcome n s a s' := by
  cases a with
  | complete i =>
    simp only [step, Option.ite_none_right_eq_some, Option.some.injEq] at h
    obtain ⟨⟨hi, hm⟩, rfl⟩ := h
    exact .complete hi hm
  | epollWait =>
    simp only [step] at h
    split at h
    · rename_i hp
      simp only [Option.ite_none_right_eq_some, Option.some.injEq] at h
      obtain ⟨-, rfl⟩ := h
      exact .epollWait hp
    · cases h
  | epollFail =>
    simp only [step] at h
    split at h
    · obtain rfl := Option.some.inj h
      exact .epollFail
    · cases h
  | getevents es =>
    simp only [step] at h
    split at h
    · rename_i hp
      simp only [Option.ite_none_right_eq_some, Option.some.injEq] at h
      obtain ⟨⟨rfl, hperm⟩, rfl⟩ := h
      exact .getevents hp hperm
    · cases h
  | next =>
    simp only [step] at h
    split at h
    · rename_i hp
      obtain rfl := Option.some.inj h
      exact .callback hp
    · rename_i hp
      split at h
      · rename_i hle
        obtain rfl := Option.some.inj h
        exact .done hp hle
      · rename_i hlt
        obtain rfl := Option.some.inj h
        exact .again hp (Nat.lt_of_not_le hlt)
    · cases h

/-! ## The invariant -/

section Invariant

variable {n : ℕ} {s s' : State} {a : Act} {as : List Act}

/-- The events that are fetched and not handled. -/
def Point.pending : Point → List ℕ
  | .events es => es
  | _ => []

/-- The number that `io_getevents` is asked for. -/
def Point.asked : Point → ℕ
  | .getevents ret => ret
  | _ => 0

structure Inv (n : ℕ) (s : State) : Prop where
  nodup : s.completed.Nodup
  lt : ∀ i ∈ s.completed, i < n
  perm : (s.callbacks ++ s.point.pending ++ s.ring).Perm s.completed
  finished : s.finished = s.callbacks.length + s.point.pending.length + s.point.asked
  wait : s.point = .wait → s.finished < n
  done : s.point = .done → n ≤ s.finished
  failed : s.point ≠ .failed

theorem init_inv (hn : 0 < n) : Inv n init where
  nodup := List.nodup_nil
  lt i h := by cases h
  perm := .refl _
  finished := rfl
  wait _ := hn
  done h := by cases h
  failed := nofun

theorem inv_step (h : Inv n s) (ha : reports s a) (hs : step n s a = some s') : Inv n s' := by
  obtain ⟨h1, h2, h3, h4, h5, h6, h7⟩ := h
  cases outcome_of_step hs with
  | @complete i hi hm =>
    refine ⟨?_, fun j hj => ?_, ?_, h4, h5, h6, h7⟩
    · exact h1.append (List.nodup_singleton i) (List.disjoint_singleton.mpr hm)
    · rcases List.mem_append.mp hj with hj | hj
      · exact h2 j hj
      · rw [List.mem_singleton.mp hj]
        exact hi
    · rw [← List.append_assoc]
      exact h3.append_right [i]
  | epollWait hp =>
    simp only [hp, Point.pending, Point.asked] at h3 h4
    refine ⟨h1, h2, h3, ?_, nofun, nofun, nofun⟩
    simp only [h4, Point.pending, Point.asked]
    omega
  | epollFail => exact absurd rfl ha
  | getevents hp hperm =>
    simp only [hp, Point.pending, Point.asked, List.append_nil, List.length_nil] at h3 h4
    refine ⟨h1, h2, ?_, ?_, nofun, nofun, nofun⟩
    · simp only [Point.pending, List.append_assoc]
      exact (hperm.append_left _).trans h3
    · simp only [h4, Point.pending, Point.asked]
      omega
  | callback hp =>
    simp only [hp, Point.pending, Point.asked, List.length_cons] at h3 h4
    refine ⟨h1, h2, ?_, ?_, nofun, nofun, nofun⟩
    · simpa [Point.pending] using h3
    · simp only [h4, Point.pending, Point.asked, List.length_append, List.length_singleton]
      omega
  | done hp hle =>
    simp only [hp, Point.pending, Point.asked] at h3 h4
    exact ⟨h1, h2, h3, h4, nofun, fun _ => hle, nofun⟩
  | again hp hlt =>
    simp only [hp, Point.pending, Point.asked] at h3 h4
    exact ⟨h1, h2, h3, h4, fun _ => hlt, nofun, nofun⟩

theorem inv_of_run (hn : 0 < n) (h : Run (step n) reports init as s) : Inv n s :=
  h.invariant (init_inv hn) fun _ _ _ hi ha hs => inv_step hi ha hs

/-- The schedule alone says how many reads are complete and what `finished` is. -/
theorem tally_of_run (h : Run (step n) reports init as s) :
    (as.foldl tally (0, [])).1 = s.completed.length ∧ (readyCounts as).sum = s.finished := by
  induction h with
  | nil => exact ⟨rfl, rfl⟩
  | @snoc as s s' a _ ha hs ih =>
    unfold readyCounts at ih ⊢
    rw [List.foldl_append, List.foldl_cons, List.foldl_nil]
    generalize as.foldl tally (0, []) = t at ih ⊢
    obtain ⟨h1, h2⟩ := ih
    cases outcome_of_step hs with
    | complete | epollWait => simp [tally, h1, h2]
    | epollFail => exact absurd rfl ha
    | getevents | callback | done | again => exact ⟨h1, h2⟩

/-! ## Good schedules -/

theorem Inv.length_completed (h : Inv n s) :
    s.callbacks.length + s.point.pending.length + s.ring.length = s.completed.length := by
  rw [← h.perm.length_eq, List.length_append, List.length_append]

/-- Distinct numbers below `n`. -/
theorem length_le_of_nodup {l : List ℕ} (hl : l.Nodup) (hlt : ∀ i ∈ l, i < n) : l.length ≤ n := by
  have hsub : l ⊆ List.range n := fun i hi => List.mem_range.mpr (hlt i hi)
  simpa using (List.subperm_of_subset hl hsub).length_le

theorem Inv.once (h : Inv n s) : s.callbacks.Nodup ∧ ∀ i ∈ s.callbacks, i < n := by
  have hnodup := (h.perm.nodup_iff).mpr h.nodup
  rw [List.append_assoc] at hnodup
  refine ⟨(List.nodup_append.mp hnodup).1, fun i hi => h.lt i ?_⟩
  apply h.perm.mem_iff.mp
  simp [hi]

/-- While fewer than `n` reads are complete, the kernel can complete another one. -/
theorem exists_complete (hlt : s.completed.length < n) :
    ∃ i, (step n s (.complete i)).isSome := by
  by_contra hno
  push Not at hno
  have hsub : List.range n ⊆ s.completed := by
    intro i hi
    by_contra hi'
    apply hno i
    simp [step, List.mem_range.mp hi, hi']
  have := (List.subperm_of_subset List.nodup_range hsub).length_le
  rw [List.length_range] at this
  omega

theorem Inv.continues (hn : 0 < n) (h : Inv n s) (hle : s.finished ≤ n) (hp : s.point ≠ .done) :
    ∃ a, reports s a ∧ (step n s a).isSome := by
  have hlen := h.length_completed
  have hfin := h.finished
  cases hpoint : s.point with
  | wait =>
    by_cases hc : s.completed.length = 0
    · obtain ⟨i, hi⟩ := exists_complete (n := n) (s := s) (by omega)
      exact ⟨.complete i, nofun, hi⟩
    · refine ⟨.epollWait, nofun, ?_⟩
      simp only [step, hpoint, if_pos hc]
      rfl
  | getevents ret =>
    simp only [hpoint, Point.pending, Point.asked, List.length_nil] at hlen hfin
    by_cases hring : ret ≤ s.ring.length
    · refine ⟨.getevents (s.ring.take ret), nofun, ?_⟩
      have hes : (s.ring.take ret).length = ret ∧
          (s.ring.take ret ++ s.ring.diff (s.ring.take ret)).Perm s.ring := by
        refine ⟨List.length_take_of_le hring, ?_⟩
        apply List.subperm_append_diff_self_of_count_le
        exact fun x _ => (List.take_sublist ret s.ring).count_le x
      simp only [step, hpoint, if_pos hes]
      rfl
    · obtain ⟨i, hi⟩ := exists_complete (n := n) (s := s) (by omega)
      exact ⟨.complete i, nofun, hi⟩
  | events es =>
    refine ⟨.next, nofun, ?_⟩
    cases es with
    | nil =>
      simp only [step, hpoint]
      split <;> rfl
    | cons e es =>
      simp only [step, hpoint]
      rfl
  | done => exact absurd hpoint hp
  | failed => exact absurd hpoint h.failed

theorem Inv.sound (hn : 0 < n) (h : Inv n s) (hle : s.finished ≤ n) : Sound n s where
  asks ret hp := by
    have hfin := h.finished
    simp only [hp, Point.pending, Point.asked, List.length_nil] at hfin
    omega
  once := h.once
  leaves hp := by
    have hfin := h.finished
    have hge := h.done hp
    simp only [hp, Point.pending, Point.asked, List.length_nil] at hfin
    have hsub : s.callbacks ⊆ List.range n := fun i hi => List.mem_range.mpr (h.once.2 i hi)
    apply (List.subperm_of_subset h.once.1 hsub).perm_of_length_le
    rw [List.length_range]
    omega
  continues := h.continues hn hle

theorem Inv.finished_le (h : Inv n s) (hs : Sound n s) : s.finished ≤ n := by
  have hlen := h.length_completed
  have hfin := h.finished
  have hle := length_le_of_nodup h.nodup h.lt
  cases hp : s.point with
  | getevents ret =>
    have := hs.asks ret hp
    simp only [hp, Point.pending, Point.asked, List.length_nil] at hlen hfin
    omega
  | wait | events | done | failed =>
    simp only [hp, Point.asked] at hlen hfin
    omega

end Invariant

/-- **A schedule is good exactly when the counts of the waits add up to at most `n`.** -/
theorem sound_iff {n : ℕ} {as : List Act} {s : State} (hn : 1 ≤ n)
    (h : Run (step n) reports init as s) : Sound n s ↔ (readyCounts as).sum ≤ n := by
  have hi := inv_of_run hn h
  rw [(tally_of_run h).2]
  exact ⟨hi.finished_le, hi.sound hn⟩

/-- All five reads complete before the first wait. -/
def allAtOnce : List Act := [.complete 2, .complete 0, .complete 1, .complete 4, .complete 3,
  .epollWait, .getevents [0, 1, 2, 3, 4], .next, .next, .next, .next, .next, .next]

theorem sound_iff_allAtOnce : ∃ s, Run (step 5) reports init allAtOnce s ∧ s.point = .done ∧
    Sound 5 s := by
  obtain ⟨s, hr, hp⟩ : ∃ s, Run (step 5) reports init allAtOnce s ∧ s.point = .done :=
    Run.exists_of_exec _ _ (by decide)
  exact ⟨s, hr, hp, (sound_iff (by decide) hr).mpr (by decide)⟩

/-- One read completes before the first wait, and the other four before the second. -/
def oneThenFour : List Act := [.complete 0, .epollWait, .getevents [0], .next, .next, .complete 1,
  .complete 2, .complete 3, .complete 4, .epollWait]

/-- **The second wait asks for five events, and four are to come.** -/
theorem not_sound : ¬ ∀ n as s, 1 ≤ n → Run (step n) reports init as s → Sound n s := by
  intro h
  obtain ⟨s, hr, hp, hc⟩ : ∃ s, Run (step 5) reports init oneThenFour s ∧
      s.point = .getevents 5 ∧ s.callbacks = [0] := Run.exists_of_exec _ _ (by decide)
  have := (h 5 _ s (by decide) hr).asks 5 hp
  rw [hc] at this
  exact absurd this (by decide)

end EventfdRead

end PracticeCode.KernelAio
