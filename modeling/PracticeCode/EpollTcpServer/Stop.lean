import PracticeCode.EpollTcpServer.Descriptors

/-!
# `EpollTcpServer::Stop` against the loop thread

`Duo` is a thread that calls `Stop` once and the detached thread of `EpollLoop`; any step of one can
fall between two steps of the other.  `epoll_wait` is two steps here, the call and the return,
because it blocks: a wait that began before `efd_` was closed still ends with the events of its
epoll instance.

`Stop` does not wait for the thread.  `stopped_of_quiesces`: after `Stop` has returned the thread
calls nothing back and neither waits nor accepts if, at the return, it has the flag still to test,
or is inside `epoll_wait`, or handles a batch in which no event of the listening socket is left, and
is not between the null test of `recv_callback_` and the call.
-/

namespace PracticeCode.EpollTcpServer

open Lib Linux

/-- The operation of `Stop` that is next. -/
inductive StopPoint where
  | idle
  | closeHandle
  | closeEfd
  | unRegister
  | ret
  | returned
  -- the `assert` of `UnRegisterOnRecvCallback` failed
  | aborted
  deriving DecidableEq

/-- `loop` is the loop thread with the object and the descriptors, `inWait` what `efd_` referred to
when the thread called the `epoll_wait` it is in, and `before` the calls of the thread until `Stop`
returned. -/
structure Duo where
  loop : State
  inWait : Option (Option File) := none
  stop : StopPoint := .idle
  before : List Op := []

inductive DuoAct where
  | stop
  | callWait
  | wait (evs : List Event)
  | loop (a : Act)
  deriving DecidableEq

/-- `close` of a field of the object by `Stop`. -/
def State.release (s : State) (fd : Option Fd) : State :=
  match fd with
  | none => s
  | some fd => { s with
      files := Function.update s.files fd none
      interest := Function.update s.interest fd false }

/-- `Stop` and `UnRegisterOnRecvCallback`. -/
def stopStep (d : Duo) : Option Duo :=
  let s := d.loop
  match d.stop with
  | .idle => some { d with
      loop := { s with self := { s.self with loop_flag_ := false } }, stop := .closeHandle }
  | .closeHandle => some { d with loop := s.release s.self.handle_, stop := .closeEfd }
  | .closeEfd => some { d with loop := s.release s.self.efd_, stop := .unRegister }
  | .unRegister =>
    if s.self.recv_callback_.isSome then
      some { d with
        loop := { s with self := { s.self with recv_callback_ := none } }, stop := .ret }
    else some { d with stop := .aborted }
  | .ret => some { d with stop := .returned, before := s.log }
  | .returned | .aborted => none

/-- The events an `epoll_wait` on `target` can end with. -/
def CanWake (s : State) (target : Option File) (evs : List Event) : Prop :=
  evs = [] ∨ target = some .epoll ∧ evs.length ≤ kMaxEvents ∧ (evs.map Prod.fst).Nodup ∧
    ∀ e ∈ evs, s.interest e.1 = true

instance (s : State) (target : Option File) (evs : List Event) :
    Decidable (CanWake s target evs) := by
  unfold CanWake; infer_instance

/-- The process ended. -/
def Duo.dead (d : Duo) : Prop := d.stop = .aborted ∨ d.loop.point = .terminated

instance (d : Duo) : Decidable d.dead := by unfold Duo.dead; infer_instance

def duoStep (d : Duo) (a : DuoAct) : Option Duo :=
  if d.dead then none
  else match a with
  | .stop => stopStep d
  | .callWait =>
    match d.loop.point, d.inWait with
    | .wait, none =>
      some { d with loop := d.loop.record (.epollWait d.loop.epoll), inWait := some d.loop.epoll }
    | _, _ => none
  | .wait evs =>
    match d.inWait with
    | some target =>
      if CanWake d.loop target evs then
        some { d with loop := d.loop.goto (.loop evs), inWait := none }
      else none
    | none => none
  | .loop (.epollWait _) => none
  | .loop a => (step d.loop a).map fun s => { d with loop := s }

def duoInit : Duo := { loop := init }

/-- The calls that must not come after `Stop`. -/
def Op.late : Op → Bool
  | .epollWait _ | .accept _ | .callback _ => true
  | .read .. | .write .. | .close _ => false

/-- **After `Stop` the thread is done with the object**: it never called an empty callback, and
since `Stop` returned it called nothing back, did not wait and did not accept. -/
def Stopped (d : Duo) : Prop :=
  d.stop = .returned → d.loop.point ≠ .terminated ∧
    ∃ since, d.loop.log = d.before ++ since ∧ ∀ o ∈ since, o.late = false

/-! ## What the thread has in hand -/

/-- An event of the batch takes the thread to `OnSocketAccept`. -/
def Incoming (self : Server) (evs : List Event) : Prop :=
  ∃ e ∈ evs, branch self e.1 e.2 [] = .accept []

instance (self : Server) (evs : List Event) : Decidable (Incoming self evs) := by
  unfold Incoming; infer_instance

/-- From here the thread gets to the flag test without a call that must not come. -/
def Quiet (s : State) : Prop :=
  match s.point with
  | .start | .head | .done => True
  | .loop evs | .read _ evs | .testCallback _ _ evs | .write _ _ evs | .closeSend _ _ evs
  | .close _ evs => ¬ Incoming s.self evs
  | .wait | .accept .. | .getpeername .. | .getfl .. | .setfl .. | .ctlAdd .. | .closeClient ..
  | .callback .. | .terminated => False

instance (s : State) : Decidable (Quiet s) := by
  unfold Quiet
  cases s.point <;> infer_instance

/-- When `Stop` returns, the thread is inside `epoll_wait` or `Quiet`. -/
def quiesces (d : Duo) : DuoAct → Prop
  | .stop => d.stop = .ret → d.inWait.isSome ∨ Quiet d.loop
  | _ => True

instance (d : Duo) (a : DuoAct) : Decidable (quiesces d a) := by
  induction a using DuoAct.casesOn <;> unfold quiesces <;> infer_instance

/-! ## Steps of the loop thread -/

section Loop

variable {s s' : State} {a : Act} {fd : Fd} {evs : List Event}

theorem self_of_step (hs : step s a = some s') : s'.self = s.self := by
  cases outcome_of_step hs <;> rfl

theorem step_head (hp : s.point = .head) (hf : s.self.loop_flag_ = false)
    (hs : step s a = some s') : s' = s.goto .done := by
  simp only [step, hp] at hs
  cases a with
  | test =>
    simp only [epollLoop, hp, hf] at hs
    exact (Option.some.inj hs).symm
  | _ => simp [epollLoop, hp] at hs

theorem step_loop {events : Mask} (hp : s.point = .loop ((fd, events) :: evs))
    (hs : step s a = some s') : s' = s.goto (branch s.self fd events evs) := by
  simp only [step, hp] at hs
  cases a with
  | dispatch =>
    simp only [epollLoop, hp] at hs
    exact (Option.some.inj hs).symm
  | _ => simp [epollLoop, hp] at hs

theorem step_testCallback {data : Packet} (hp : s.point = .testCallback data fd evs)
    (hc : s.self.recv_callback_ = none) (hs : step s a = some s') : s' = s.goto (.read fd evs) := by
  simp only [step, hp] at hs
  cases a with
  | testCallback =>
    simp only [onSocketRead, hp, hc] at hs
    exact (Option.some.inj hs).symm
  | _ => simp [onSocketRead, hp] at hs

theorem branch_cases (self : Server) (fd : Fd) (events : Mask) (evs : List Event) :
    branch self fd events evs = .close fd evs ∨ branch self fd events evs = .read fd evs ∨
      branch self fd events evs = .loop evs ∨ branch self fd events [] = .accept [] := by
  unfold branch
  grind

theorem handle_of_accept {self : Server} {events : Mask}
    (h : branch self fd events [] = .accept []) : self.handle_ = some fd := by
  unfold branch at h
  grind

theorem incoming_cons {self : Server} {e : Event} (h : Incoming self evs) :
    Incoming self (e :: evs) := by
  obtain ⟨e', he, hb⟩ := h
  exact ⟨e', List.mem_cons_of_mem _ he, hb⟩

theorem quiet_branch {events : Mask} (h : ¬ Incoming s.self ((fd, events) :: evs)) :
    Quiet (s.goto (branch s.self fd events evs)) := by
  have hevs : ¬ Incoming s.self evs := fun hi => h (incoming_cons hi)
  rcases branch_cases s.self fd events evs with hb | hb | hb | hb
  · rw [hb]
    exact hevs
  · rw [hb]
    exact hevs
  · rw [hb]
    exact hevs
  · exact absurd ⟨_, List.mem_cons_self, hb⟩ h

/-- Once the flag is cleared and the callback dropped, a quiet thread stays quiet. -/
theorem quiet_step (hf : s.self.loop_flag_ = false) (hc : s.self.recv_callback_ = none)
    (hq : Quiet s) (hs : step s a = some s') : Quiet s' := by
  cases outcome_of_step hs with
  | enter hp => trivial
  | stop hp => trivial
  | batchEnd hp => trivial
  | test hp =>
    rw [step_head hp hf hs]
    trivial
  | hangup hp | incoming hp _ | readable hp _ | report hp =>
    rw [Quiet, hp] at hq
    rw [step_loop hp hs]
    exact quiet_branch hq
  | hasCallback hp =>
    rw [Quiet, hp] at hq
    rw [step_testCallback hp hc hs]
    exact hq
  | close hp | readData hp _ | readAgain hp | readStop hp | noCallback hp _ | noFd hp _
  | write hp _ _ | writeAgain hp _ | writeError hp _ | closeSend hp =>
    rw [Quiet, hp] at hq
    exact hq
  | epollWait hp _ | accept hp _ _ | acceptAgain hp | acceptError hp | getpeername hp
  | getpeernameFail hp | getfl hp | setfl hp | ctlAdd hp _ | closeClient hp | callback hp
  | terminate hp _ =>
    rw [Quiet, hp] at hq
    exact hq.elim
  | clientFail hp =>
    rcases hp with hp | hp | hp <;>
      · rw [Quiet, hp] at hq
        exact hq.elim

/-- A quiet thread makes none of the calls that must not come. -/
theorem log_of_quiet (hq : Quiet s) (hs : step s a = some s') :
    ∃ ops, s'.log = s.log ++ ops ∧ ∀ o ∈ ops, o.late = false := by
  have hcall : ∀ o : Op, o.late = false →
      ∃ ops, s.log ++ [o] = s.log ++ ops ∧ ∀ o ∈ ops, o.late = false := fun o ho =>
    ⟨[o], rfl, fun o' ho' => by rw [List.mem_singleton.mp ho', ho]⟩
  cases outcome_of_step hs with
  | enter _ | stop _ | batchEnd _ | test _ | hangup _ | incoming _ _ | readable _ _ | report _
  | hasCallback _ | noCallback _ _ | noFd _ _ | getpeername _ | getpeernameFail _ | getfl _
  | setfl _ | clientFail _ | ctlAdd _ _ | terminate _ _ =>
    exact ⟨[], (List.append_nil _).symm, nofun⟩
  | close _ | readData _ _ | readAgain _ | readStop _ | write _ _ _ | writeAgain _ _
  | writeError _ _ | closeSend _ | closeClient _ => exact hcall _ rfl
  | epollWait hp _ | accept hp _ _ | acceptAgain hp | acceptError hp | callback hp =>
    rw [Quiet, hp] at hq
    exact hq.elim

/-- The descriptor that is being set up is not the listening one: its number was free. -/
theorem client_step (h : ∀ fd, s.point.client = some fd → s.self.handle_ ≠ some fd)
    (hs : step s a = some s') : ∀ fd, s'.point.client = some fd → s'.self.handle_ ≠ some fd := by
  intro fd
  rw [self_of_step hs]
  cases outcome_of_step hs with
  | accept _ hl hfree =>
    rintro ⟨⟩ hh
    rw [State.listening, hh] at hl
    exact absurd (hfree.symm.trans hl) nofun
  | getpeername hp | getfl hp | setfl hp =>
    rintro ⟨⟩
    exact h _ (by rw [hp]; rfl)
  | clientFail hp =>
    rintro ⟨⟩
    rcases hp with hp | hp | hp <;> exact h _ (by rw [hp]; rfl)
  | _ => exact fun h => nomatch h

/-- The thread does not put the listening descriptor back on the interest list. -/
theorem interest_step (h : ∀ fd, s.point.client = some fd → s.self.handle_ ≠ some fd)
    (hi : ∀ fd, s.self.handle_ = some fd → s.interest fd = false) (hs : step s a = some s') :
    ∀ fd, s'.self.handle_ = some fd → s'.interest fd = false := by
  intro fd
  rw [self_of_step hs]
  intro hh
  have hclose : ∀ fd', Function.update s.interest fd' false fd = false := fun fd' => by
    rw [Function.update_apply]
    split
    · rfl
    · exact hi fd hh
  cases outcome_of_step hs with
  | ctlAdd hp _ =>
    have hne := h _ (by rw [hp]; rfl)
    refine (Function.update_of_ne ?_ _ _).trans (hi fd hh)
    rintro rfl
    exact hne hh
  | close _ | closeClient _ | closeSend _ => exact hclose _
  | _ => exact hi fd hh

end Loop

/-! ## The invariant -/

structure DuoInv (d : Duo) : Prop where
  flag : d.stop ≠ .idle → d.loop.self.loop_flag_ = false
  dropped : d.stop = .ret ∨ d.stop = .returned → d.loop.self.recv_callback_ = none
  client : ∀ fd, d.loop.point.client = some fd → d.loop.self.handle_ ≠ some fd
  shut : d.stop ≠ .idle → d.stop ≠ .closeHandle →
    ∀ fd, d.loop.self.handle_ = some fd → d.loop.interest fd = false
  waiting : d.inWait.isSome → d.loop.point = .wait
  quiet : d.stop = .returned → d.inWait.isSome ∨ Quiet d.loop
  since : d.stop = .returned →
    ∃ since, d.loop.log = d.before ++ since ∧ ∀ o ∈ since, o.late = false

theorem duoInit_inv : DuoInv duoInit where
  flag h := absurd rfl h
  dropped h := by rcases h with h | h <;> cases h
  client _ h := by cases h
  shut h := absurd rfl h
  waiting h := by cases h
  quiet h := by cases h
  since h := by cases h

section Release

variable (s : State) (f : Option Fd)

@[simp] theorem self_release : (s.release f).self = s.self := by cases f <;> rfl

@[simp] theorem point_release : (s.release f).point = s.point := by cases f <;> rfl

theorem interest_release {fd : Fd} (h : f = some fd ∨ s.interest fd = false) :
    (s.release f).interest fd = false := by
  cases f with
  | none => exact h.resolve_left nofun
  | some fd' =>
    refine (Function.update_apply ..).trans ?_
    split
    · rfl
    · rename_i hne
      exact h.resolve_left fun he => hne (Option.some.inj he).symm

end Release

section Step

variable {d d' : Duo}

theorem DuoInv.stop (h : DuoInv d) (hg : quiesces d .stop) (hs : stopStep d = some d') :
    DuoInv d' := by
  unfold stopStep at hs
  cases hp : d.stop with
  | idle =>
    rw [hp] at hs
    obtain rfl := Option.some.inj hs
    exact ⟨fun _ => rfl, nofun, h.client, fun _ h' => absurd rfl h', h.waiting, nofun, nofun⟩
  | closeHandle =>
    rw [hp] at hs
    obtain rfl := Option.some.inj hs
    have hf := h.flag (by rw [hp]; nofun)
    refine ⟨fun _ => ?_, nofun, ?_, fun _ _ fd => ?_, ?_, nofun, nofun⟩
    · rw [self_release]
      exact hf
    · rw [self_release, point_release]
      exact h.client
    · rw [self_release]
      exact fun hh => interest_release _ _ (.inl hh)
    · rw [point_release]
      exact h.waiting
  | closeEfd =>
    rw [hp] at hs
    obtain rfl := Option.some.inj hs
    have hf := h.flag (by rw [hp]; nofun)
    have hi := h.shut (by rw [hp]; nofun) (by rw [hp]; nofun)
    refine ⟨fun _ => ?_, nofun, ?_, fun _ _ fd => ?_, ?_, nofun, nofun⟩
    · rw [self_release]
      exact hf
    · rw [self_release, point_release]
      exact h.client
    · rw [self_release]
      exact fun hh => interest_release _ _ (.inr (hi fd hh))
    · rw [point_release]
      exact h.waiting
  | unRegister =>
    simp only [hp] at hs
    have hf := h.flag (by rw [hp]; nofun)
    have hi := h.shut (by rw [hp]; nofun) (by rw [hp]; nofun)
    split at hs <;> obtain rfl := Option.some.inj hs
    · exact ⟨fun _ => hf, fun _ => rfl, h.client, fun _ _ => hi, h.waiting, nofun, nofun⟩
    · exact ⟨fun _ => hf, nofun, h.client, fun _ _ => hi, h.waiting, nofun, nofun⟩
  | ret =>
    rw [hp] at hs
    obtain rfl := Option.some.inj hs
    have hf := h.flag (by rw [hp]; nofun)
    have hi := h.shut (by rw [hp]; nofun) (by rw [hp]; nofun)
    exact ⟨fun _ => hf, fun _ => h.dropped (.inl hp), h.client, fun _ _ => hi, h.waiting,
      fun _ => hg hp, fun _ => ⟨[], (List.append_nil _).symm, nofun⟩⟩
  | returned | aborted =>
    rw [hp] at hs
    cases hs

/-- The call of `epoll_wait`, which a thread that is quiet does not get to. -/
theorem DuoInv.callWait (h : DuoInv d) (hp : d.loop.point = .wait) (hw : d.inWait = none) :
    DuoInv { d with
      loop := d.loop.record (.epollWait d.loop.epoll), inWait := some d.loop.epoll } := by
  have hnot : d.stop ≠ .returned := by
    intro hr
    rcases h.quiet hr with hq | hq
    · rw [hw] at hq
      cases hq
    · rw [Quiet, hp] at hq
      exact hq
  exact ⟨h.flag, h.dropped, h.client, h.shut, fun _ => hp, fun hr => absurd hr hnot,
    fun hr => absurd hr hnot⟩

/-- The return of `epoll_wait`: the batch has no event of a descriptor that `Stop` closed. -/
theorem DuoInv.wait {target : Option File} {evs : List Event} (h : DuoInv d)
    (hw : CanWake d.loop target evs) :
    DuoInv { d with loop := d.loop.goto (.loop evs), inWait := none } := by
  refine ⟨h.flag, h.dropped, nofun, h.shut, nofun, fun hr => .inr ?_, h.since⟩
  have hi := h.shut (by rw [hr]; nofun) (by rw [hr]; nofun)
  rintro ⟨e, he, hb⟩
  rcases hw with rfl | ⟨-, -, -, hw⟩
  · cases he
  · exact absurd ((hi e.1 (handle_of_accept hb)).symm.trans (hw e he)) nofun

theorem DuoInv.loop {a : Act} {s : State} (h : DuoInv d) (ha : ∀ evs, a ≠ .epollWait evs)
    (hs : step d.loop a = some s) : DuoInv { d with loop := s } := by
  have hself := self_of_step hs
  have hwait : d.loop.point ≠ .wait := by
    intro hp
    simp only [step, hp] at hs
    cases a with
    | epollWait evs => exact ha evs rfl
    | _ => simp [epollLoop, hp] at hs
  have hquiet : d.stop = .returned → Quiet d.loop := fun hr =>
    (h.quiet hr).resolve_left fun hi => hwait (h.waiting hi)
  refine ⟨?_, ?_, client_step h.client hs, fun h1 h2 => interest_step h.client (h.shut h1 h2) hs,
    fun hi => absurd (h.waiting hi) hwait, fun hr => ?_, fun hr => ?_⟩
  · rw [hself]
    exact h.flag
  · rw [hself]
    exact h.dropped
  · have hflag := h.flag (by rw [hr]; decide)
    exact .inr (quiet_step hflag (h.dropped (.inr hr)) (hquiet hr) hs)
  · obtain ⟨since, hlog, hlate⟩ := h.since hr
    obtain ⟨ops, hops, hlate'⟩ := log_of_quiet (hquiet hr) hs
    refine ⟨since ++ ops, by rw [hops, hlog, List.append_assoc], fun o ho => ?_⟩
    exact (List.mem_append.mp ho).elim (hlate o) (hlate' o)

theorem duoInv_step {a : DuoAct} (h : DuoInv d) (hg : quiesces d a) (hs : duoStep d a = some d') :
    DuoInv d' := by
  unfold duoStep at hs
  split at hs
  · cases hs
  cases a with
  | stop => exact h.stop hg hs
  | callWait =>
    simp only at hs
    split at hs
    · rename_i hp hw
      obtain rfl := Option.some.inj hs
      exact h.callWait hp hw
    · cases hs
  | wait evs =>
    simp only at hs
    split at hs
    · rename_i target _
      simp only [Option.ite_none_right_eq_some, Option.some.injEq] at hs
      obtain ⟨hw, rfl⟩ := hs
      exact h.wait hw
    · cases hs
  | loop a =>
    cases a with
    | epollWait evs => cases hs
    | _ =>
      obtain ⟨s, hst, rfl⟩ := Option.map_eq_some_iff.mp hs
      exact h.loop (fun _ he => by cases he) hst

/-- What is kept says that the thread is done with the object. -/
theorem DuoInv.stopped (h : DuoInv d) : Stopped d := by
  intro hr
  refine ⟨fun ht => ?_, h.since hr⟩
  rcases h.quiet hr with hq | hq
  · exact absurd ((h.waiting hq).symm.trans ht) nofun
  · rw [Quiet, ht] at hq
    exact hq

end Step

/-- **After `Stop` the thread is done with the object**, in every run in which `Stop` returns while
the thread is inside `epoll_wait` or quiet. -/
theorem stopped_of_quiesces {as : List DuoAct} {d : Duo} (h : Run duoStep quiesces duoInit as d) :
    Stopped d :=
  (h.invariant duoInit_inv fun _ _ _ hI hg hs => duoInv_step hI hg hs).stopped

/-- The set-up of the connection `0`, and the flag test after it. -/
def connected : List DuoAct :=
  [.loop (.calloc true), .loop .test, .callWait, .wait [(4, .readable)], .loop .dispatch,
    .loop (.accept (.ok 5)), .loop (.getpeername true), .loop (.getfl true), .loop (.setfl true),
    .loop (.ctlAdd true), .loop (.accept .again), .loop .dispatch, .loop .test]

/-- `Stop` runs while the thread waits; the wait ends with an event of the connection, whose bytes
are read and not passed on. -/
def quietRun : List DuoAct :=
  List.flatten [connected, [.callWait, .stop, .stop, .stop, .stop, .stop, .wait [(5, .readable)],
    .loop .dispatch, .loop (.read (.data [104])), .loop .testCallback, .loop (.read .again),
    .loop .dispatch, .loop .test]]

theorem stopped_of_quiesces_wait : ∃ d, Run duoStep quiesces duoInit quietRun d ∧
    (d.stop = .returned ∧ d.loop.point = .done) ∧ Stopped d := by
  obtain ⟨d, hr, hp⟩ : ∃ d, Run duoStep quiesces duoInit quietRun d ∧
      d.stop = .returned ∧ d.loop.point = .done :=
    Run.exists_of_exec _ _ (by decide)
  exact ⟨d, hr, hp, stopped_of_quiesces hr⟩

/-! ## Without the guard -/

/-- `Stop` runs between the null test of `recv_callback_` and the call. -/
def emptyCallRun : List DuoAct :=
  List.flatten [connected, [.callWait, .wait [(5, .readable)], .loop .dispatch,
    .loop (.read (.data [104])), .loop .testCallback, .stop, .stop, .stop, .stop, .stop,
    .loop .callback]]

/-- **The thread calls the callback that `Stop` dropped**, which ends the process. -/
theorem not_stopped : ¬ ∀ as d, Run duoStep free duoInit as d → Stopped d := by
  intro h
  obtain ⟨d, hr, hst, hp⟩ : ∃ d, Run duoStep free duoInit emptyCallRun d ∧
      d.stop = .returned ∧ d.loop.point = .terminated :=
    Run.exists_of_exec _ _ (by decide)
  exact (h _ _ hr hst).1 hp

end PracticeCode.EpollTcpServer
