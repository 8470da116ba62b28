import PracticeCode.EpollTcpServer.Lifecycle
import PracticeCode.Lib.Run
import Mathlib.Data.Set.Basic

/-!
# A `Start` that fails

The methods of an `EpollTcpServer` in any order, as the thread that owns the object calls them.  A
failed `Start` gives back what it took only if it took nothing (`atomic_iff`): the epoll instance
stays open, and so does a socket that is not made nonblocking or does not listen.

What a failed `Start` closes, no later call closes again, except for the listening socket that it
could not register (`kept_iff`): `handle_` keeps its number.
-/

namespace PracticeCode.EpollTcpServer

open Lib

/-- The public methods. -/
inductive Method where
  | registerOnRecvCallback
  | unRegisterOnRecvCallback
  | start (r : Results)
  | stop
  deriving DecidableEq

namespace Process

/-- A call; there is no step when an `assert` fails. -/
def step (s : Process) : Method → Option Process
  | .registerOnRecvCallback => s.registerOnRecvCallback.toOption
  | .unRegisterOnRecvCallback => s.unRegisterOnRecvCallback.toOption
  | .start r => (s.start r).toOption.map Prod.snd
  | .stop => s.stop.toOption

/-- The descriptors that are open. -/
def opened (s : Process) : Set Desc := {d | d < s.made ∧ d ∉ s.closed}

/-- The descriptors that `Stop` and the destructor close, also when their `assert` fails. -/
def stopCloses (s : Process) : List Desc := s.self.handle_.toList ++ s.self.efd_.toList

/-- No `Stop` and no destructor, after any number of calls, closes what the `Start` that led from
`s` to `s'` closed. -/
def Kept (s s' : Process) : Prop := ∀ ds, s'.closed = s.closed ++ ds →
  ∀ ms t, Run step free s' ms t → ∀ d ∈ ds, d ∉ t.stopCloses

/-- **What a `Start` that returns false should leave.** -/
structure Atomic (s s' : Process) : Prop where
  opened : s'.opened = s.opened
  kept : Kept s s'

section Calls

variable {s s' t : Process} {m : Method} {ms : List Method} {r : Results} {d : Desc}

/-- What `Stop` closes, whether or not there is a callback to drop. -/
theorem closed_stop (h : s.stop = .ok t ∨ s.stop = .error t) :
    t = { s with
      self := { s.self with loop_flag_ := false, recv_callback_ := t.self.recv_callback_ }
      closed := s.closed ++ s.stopCloses } := by
  have hc : s.closed ++ s.stopCloses = s.closed ++ s.self.handle_.toList ++ s.self.efd_.toList :=
    (List.append_assoc ..).symm
  rw [hc]
  simp only [stop, unRegisterOnRecvCallback] at h
  split at h
  · rcases h with h | h
    · obtain rfl := Except.ok.inj h
      rfl
    · cases h
  · rcases h with h | h
    · cases h
    · obtain rfl := Except.error.inj h
      rfl

/-- How a call can go. -/
theorem step_cases (h : s.step m = some s') :
    (s'.made = s.made ∧ s'.closed = s.closed ∧ s'.self.handle_ = s.self.handle_ ∧
      s'.self.efd_ = s.self.efd_) ∨
    (∃ r b, m = .start r ∧ s.start r = .ok (b, s')) ∨
    (s'.made = s.made ∧ s'.closed = s.closed ++ s.stopCloses ∧
      s'.self.handle_ = s.self.handle_ ∧ s'.self.efd_ = s.self.efd_) := by
  cases m with
  | registerOnRecvCallback =>
    simp only [step, registerOnRecvCallback] at h
    split at h
    · cases h
    · obtain rfl := Option.some.inj h
      exact .inl ⟨rfl, rfl, rfl, rfl⟩
  | unRegisterOnRecvCallback =>
    simp only [step, unRegisterOnRecvCallback] at h
    split at h
    · obtain rfl := Option.some.inj h
      exact .inl ⟨rfl, rfl, rfl, rfl⟩
    · cases h
  | start r =>
    cases hr : s.start r with
    | error u =>
      rw [step, hr] at h
      cases h
    | ok p =>
      rw [step, hr] at h
      obtain rfl := Option.some.inj h
      exact .inr (.inl ⟨r, p.1, rfl, hr⟩)
  | stop =>
    cases hs : s.stop with
    | error u =>
      rw [step, hs] at h
      cases h
    | ok u =>
      rw [step, hs] at h
      obtain rfl := Option.some.inj h
      rw [closed_stop (.inl hs)]
      exact .inr (.inr ⟨rfl, rfl, rfl, rfl⟩)

/-- Everything that the object holds and that was closed was made. -/
structure Made (s : Process) : Prop where
  closed : ∀ d ∈ s.closed, d < s.made
  handle : ∀ d ∈ s.self.handle_, d < s.made
  efd : ∀ d ∈ s.self.efd_, d < s.made

theorem made_new : Made {} := ⟨nofun, nofun, nofun⟩

theorem made_start {b : Bool} (h : Made s) (hs : s.start r = .ok (b, s')) : Made s' := by
  have hc := startCase s r
  rw [hs] at hc
  cases hc with
  | noEpoll _ => exact h
  | @early extra n _ _ _ hextra hn =>
    refine ⟨fun d hd => ?_, fun d hd => (h.handle d hd).trans hn, fun d hd => ?_⟩
    · rcases List.mem_append.mp hd with hd | hd
      · exact (h.closed d hd).trans hn
      · exact (hextra d hd).2
    · obtain rfl := Option.some.inj hd
      exact hn
  | ctlFail _ _ =>
    refine ⟨fun d hd => ?_, fun d hd => ?_, fun d hd => ?_⟩
    · rcases List.mem_append.mp hd with hd | hd
      · exact (h.closed d hd).trans (by simp)
      · obtain rfl := List.mem_singleton.mp hd
        exact Nat.lt_succ_self _
    · obtain rfl := Option.some.inj hd
      exact Nat.lt_succ_self _
    · obtain rfl := Option.some.inj hd
      simp
  | running _ _ =>
    refine ⟨fun d hd => (h.closed d hd).trans (by simp), fun d hd => ?_, fun d hd => ?_⟩
    · obtain rfl := Option.some.inj hd
      exact Nat.lt_succ_self _
    · obtain rfl := Option.some.inj hd
      simp

theorem made_step (h : Made s) (hs : s.step m = some s') : Made s' := by
  rcases step_cases hs with ⟨hm, hc, hh, he⟩ | ⟨r, b, -, hr⟩ | ⟨hm, hc, hh, he⟩
  · exact ⟨hm ▸ hc ▸ h.closed, hm ▸ hh ▸ h.handle, hm ▸ he ▸ h.efd⟩
  · exact made_start h hr
  · refine ⟨fun d hd => ?_, hm ▸ hh ▸ h.handle, hm ▸ he ▸ h.efd⟩
    rw [hc, stopCloses] at hd
    rw [hm]
    rcases List.mem_append.mp hd with hd | hd
    · exact h.closed d hd
    · rcases List.mem_append.mp hd with hd | hd
      · exact h.handle d (Option.mem_toList.mp hd)
      · exact h.efd d (Option.mem_toList.mp hd)

theorem made_of_run (h : Run step free {} ms s) : Made s :=
  h.invariant made_new fun _ _ _ hi _ hs => made_step hi hs

/-! ## What is still open -/

/-- **The descriptors after a `Start` that failed.**  They are those before it exactly if
`epoll_create` failed. -/
theorem opened_eq_iff (h : Made s) (hs : s.start r = .ok (false, s')) :
    s'.opened = s.opened ↔ r.epoll_create = false := by
  have hc := startCase s r
  rw [hs] at hc
  -- the epoll instance is `s.made`
  have hnew : s.made ∉ s.opened := fun hd => Nat.lt_irrefl _ hd.1
  have hold : s.made ∉ s.closed := fun hd => Nat.lt_irrefl _ (h.closed _ hd)
  cases hc with
  | noEpoll he => exact iff_of_true rfl he
  | @early extra n he _ _ hextra hn =>
    refine iff_of_false (fun heq => ?_) (by simp [he])
    have hd : s.made ∉ extra := fun hd => Nat.lt_irrefl _ (hextra _ hd).1
    exact hnew (heq ▸ ⟨hn, by simp [hold, hd]⟩)
  | ctlFail hr _ =>
    refine iff_of_false (fun heq => ?_) fun he => by simp [Results.reachesCtl, he] at hr
    exact hnew (heq ▸ ⟨by simp, by simp [hold]⟩)

/-! ## What is closed again -/

/-- The object has forgotten a descriptor, which is not made again. -/
structure Forgotten (d : Desc) (s : Process) : Prop where
  made : d < s.made
  handle : s.self.handle_ ≠ some d
  efd : s.self.efd_ ≠ some d

theorem some_ne_of_lt {d' : Desc} (h : d < d') : some d' ≠ some d := fun heq =>
  (Nat.ne_of_gt h) (Option.some.inj heq)

theorem forgotten_step (h : Forgotten d s) (hs : s.step m = some s') : Forgotten d s' := by
  rcases step_cases hs with ⟨hm, -, hh, he⟩ | ⟨r, b, -, hr⟩ | ⟨hm, -, hh, he⟩
  · exact ⟨hm ▸ h.made, hh ▸ h.handle, he ▸ h.efd⟩
  · have hlt := h.made
    have hc := startCase s r
    rw [hr] at hc
    cases hc with
    | noEpoll _ => exact h
    | early _ _ _ _ hn => exact ⟨hlt.trans hn, h.handle, some_ne_of_lt hlt⟩
    | ctlFail _ _ | running _ _ =>
      have hlt' : d < s.made + 1 := hlt.trans (Nat.lt_succ_self _)
      exact ⟨hlt'.trans (Nat.lt_succ_self _), some_ne_of_lt hlt', some_ne_of_lt hlt⟩
  · exact ⟨hm ▸ h.made, hh ▸ h.handle, he ▸ h.efd⟩

theorem forgotten_of_run (h : Forgotten d s) (hr : Run step free s ms t) : d ∉ t.stopCloses := by
  have ht := hr.invariant h fun _ _ _ hi _ hs => forgotten_step hi hs
  simp [stopCloses, ht.handle, ht.efd]

/-- **What a `Start` that failed closed.**  It is not closed again, unless `epoll_ctl` failed. -/
theorem kept_iff (h : Made s) (hs : s.start r = .ok (false, s')) :
    Kept s s' ↔ r.reachesCtl = false := by
  have hc := startCase s r
  rw [hs] at hc
  cases hc with
  | noEpoll he =>
    refine iff_of_true (fun ds hds => ?_) (by simp [Results.reachesCtl, he])
    obtain rfl : ds = [] := by simpa using hds
    intro ms t _ d hd
    cases hd
  | early _ hr _ hextra hn =>
    refine iff_of_true (fun ds hds ms t ht d hd => ?_) hr
    obtain rfl := List.append_cancel_left hds
    obtain ⟨hlo, hhi⟩ := hextra d hd
    refine forgotten_of_run ?_ ht
    exact ⟨hhi, fun heq => Nat.lt_asymm (h.handle d heq) hlo, (some_ne_of_lt hlo).symm⟩
  | ctlFail hr _ =>
    refine iff_of_false (fun hk => ?_) (by simp [hr])
    -- `Stop` right after it
    exact hk _ rfl [] _ .nil _ (List.mem_singleton.mpr rfl) (by simp [stopCloses])

/-- **When `Start` is atomic.**  Whatever was called before: when every call succeeds, or the first
one fails. -/
theorem atomic_iff (h : Run step free {} ms s) (r : Results) :
    (∀ s', s.start r = .ok (false, s') → Atomic s s') ↔
      (r.epoll_create = true → r.reachesCtl = true ∧ r.epoll_ctl = true) := by
  have hm := made_of_run h
  constructor
  · intro ha he
    have hc := startCase s r
    by_contra hn
    obtain ⟨s', hs⟩ : ∃ s', s.start r = .ok (false, s') := by
      generalize s.start r = x at hc
      cases hc with
      | noEpoll _ | early _ _ _ _ _ | ctlFail _ _ => exact ⟨_, rfl⟩
      | assertFail hr hctl _ | running hr hctl => exact absurd ⟨hr, hctl⟩ hn
    have := (opened_eq_iff hm hs).mp (ha s' hs).opened
    rw [he] at this
    cases this
  · intro hr s' hs
    have he : r.epoll_create = false := by
      by_contra hne
      obtain ⟨hctl, hok⟩ := hr (by simpa using hne)
      have hc := startCase s r
      rw [hs] at hc
      cases hc with
      | noEpoll he => exact hne he
      | early _ hr _ _ _ =>
        rw [hctl] at hr
        cases hr
      | ctlFail _ hok' =>
        rw [hok] at hok'
        cases hok'
    exact ⟨(opened_eq_iff hm hs).mpr he, (kept_iff hm hs).mpr (by simp [Results.reachesCtl, he])⟩

/-- `epoll_create` fails on an object that is started a second time. -/
theorem atomic_again : ∃ s, Run step free {} [.registerOnRecvCallback, .start Results.ok, .stop] s ∧
    ∀ s', s.start { Results.ok with epoll_create := false } = .ok (false, s') → Atomic s s' := by
  obtain ⟨s, hr, -⟩ : ∃ s, Run step free {} [.registerOnRecvCallback, .start Results.ok, .stop] s ∧
      s.made = 2 := Run.exists_of_exec _ _ (by decide)
  exact ⟨s, hr, (atomic_iff hr _).mpr nofun⟩

/-- **`socket` fails**: the epoll instance stays open. -/
theorem not_atomic : ¬ ∀ (r : Results) (s' : Process), start {} r = .ok (false, s') →
    Atomic {} s' := by
  intro h
  have ha := h { Results.ok with socket := false } { self := { efd_ := some 0 }, made := 1 } rfl
  have hmem : 0 ∈ opened { self := { efd_ := some 0 }, made := 1 } := ⟨Nat.one_pos, nofun⟩
  rw [ha.opened] at hmem
  exact absurd hmem.1 (Nat.lt_irrefl 0)

end Calls

end Process

end PracticeCode.EpollTcpServer
