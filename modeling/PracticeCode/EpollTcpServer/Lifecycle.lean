import PracticeCode.EpollTcpServer.Defs

/-!
# The life cycle of an `EpollTcpServer`

`Start`, `Stop`, the two callback setters and the destructor, as the thread that owns the object
calls them.  A failed `assert` is `Except.error`, with the process as it was then.

`Stop` leaves `handle_`, `efd_`, `th_loop_` and `loop_flag_` behind and asserts that there is a
callback to drop.  So the object can be stopped once: `proper_iff_fine` says which lives that
register, start and stop in turn end without a failed `assert`, without a second `close` and with a
loop for every start.
-/

namespace PracticeCode.EpollTcpServer

/-- A listening socket or an epoll instance.  The kernel's numbers come back after a `close`, so
descriptors are told apart by the order in which they were made. -/
abbrev Desc := ℕ

/-- Which of the calls of one `Start` succeed. -/
structure Results where
  epoll_create : Bool
  socket : Bool
  bind : Bool
  getfl : Bool
  setfl : Bool
  listen : Bool
  epoll_ctl : Bool
  deriving DecidableEq

/-- The fields of the object; `th_loop_` tells whether the pointer is set. -/
structure Object where
  handle_ : Option Desc := none
  efd_ : Option Desc := none
  th_loop_ : Bool := false
  loop_flag_ : Bool := true
  recv_callback_ : Option Callback := none
  deriving DecidableEq

/-- The object with the number of descriptors made so far, the `close` calls made on them, and for
each thread of `EpollLoop` the value of `loop_flag_` at its creation. -/
structure Process where
  self : Object := {}
  made : ℕ := 0
  closed : List Desc := []
  loops : List Bool := []
  deriving DecidableEq

namespace Process

/-- `::close` of a field of the object; of `-1` it has no effect. -/
def close (s : Process) (fd : Option Desc) : Process := { s with closed := s.closed ++ fd.toList }

def registerOnRecvCallback (s : Process) : Except Process Process :=
  if s.self.recv_callback_.isSome then .error s
  else .ok { s with self := { s.self with recv_callback_ := some .recv_call } }

def unRegisterOnRecvCallback (s : Process) : Except Process Process :=
  if s.self.recv_callback_.isSome then
    .ok { s with self := { s.self with recv_callback_ := none } }
  else .error s

def createEpoll (s : Process) (r : Results) : Option Process :=
  if r.epoll_create then
    some { s with self := { s.self with efd_ := some s.made }, made := s.made + 1 }
  else none

/-- `CreateSocket`: the descriptor, or `none` for `-1`. -/
def createSocket (s : Process) (r : Results) : Option Desc × Process :=
  if r.socket then
    if r.bind then (some s.made, { s with made := s.made + 1 })
    else (none, { s with made := s.made + 1 }.close (some s.made))
  else (none, s)

/-- `Start` and what it returns. -/
def start (s : Process) (r : Results) : Except Process (Bool × Process) :=
  match s.createEpoll r with
  | none => .ok (false, s)
  | some s =>
    match s.createSocket r with
    | (none, s) => .ok (false, s)
    | (some listenfd, s) =>
      -- `MakeSocketNonBlock` and `Listen`
      if r.getfl && r.setfl && r.listen then
        let s := { s with self := { s.self with handle_ := some listenfd } }
        if r.epoll_ctl then
          if s.self.th_loop_ then .error s
          else .ok (true, { s with
            self := { s.self with th_loop_ := true }, loops := s.loops ++ [s.self.loop_flag_] })
        else .ok (false, s.close s.self.handle_)
      else .ok (false, s)

def stop (s : Process) : Except Process Process :=
  let s := { s with self := { s.self with loop_flag_ := false } }
  ((s.close s.self.handle_).close s.self.efd_).unRegisterOnRecvCallback

/-- The destructor. -/
def destroy (s : Process) : Except Process Process := s.stop

/-- Register, start and stop. -/
def round (s : Process) (r : Results) : Except Process Process := do
  let s ← s.registerOnRecvCallback
  let (_, s) ← s.start r
  s.stop

end Process

/-- What was called after the last `Stop`, before the destructor. -/
inductive Last where
  | none
  | registered
  | started (r : Results)
  deriving DecidableEq

/-- A life: each round registers a callback, starts and stops, and the destructor ends it. -/
structure Life where
  rounds : List Results
  last : Last
  deriving DecidableEq

/-- The process at the end of a life. -/
def Life.run (l : Life) : Except Process Process := do
  let s ← l.rounds.foldlM Process.round {}
  match l.last with
  | .none => s.destroy
  | .registered => s.registerOnRecvCallback >>= Process.destroy
  | .started r => do
    let s ← s.registerOnRecvCallback
    let (_, s) ← s.start r
    s.destroy

/-- The `close` calls of a life, also of one that a failed `assert` ends. -/
def Life.closed (l : Life) : List Desc :=
  match l.run with
  | .ok s | .error s => s.closed

/-- **The contract of the life cycle**: no `assert` fails, no descriptor is closed twice, every
thread that is created runs its loop, and `Stop` before the destructor makes no difference. -/
structure Proper (l : Life) : Prop where
  completes : ∃ s, l.run = .ok s ∧ false ∉ s.loops
  once : l.closed.Nodup
  stopFirst : ∀ rounds r, l = ⟨rounds ++ [r], .none⟩ → l.closed = Life.closed ⟨rounds, .started r⟩

/-- `Start` gets to the registration of the listening socket. -/
def Results.reachesCtl (r : Results) : Bool :=
  r.epoll_create && r.socket && r.bind && (r.getfl && r.setfl && r.listen)

/-- The lives that go well.  There is a callback to drop at the end, and either `Start` is called
once and does not fail at `epoll_ctl`, or no `Start` gets as far as `epoll_ctl` and no `Stop` finds
an epoll instance that was closed before. -/
def Life.Fine : Life → Prop
  | ⟨_, .none⟩ => False
  | ⟨rounds, .registered⟩ => ∀ r ∈ rounds, r.epoll_create = false
  | ⟨[], .started r⟩ => r.reachesCtl = true → r.epoll_ctl = true
  | ⟨r₀ :: rounds, .started r⟩ => (∀ r' ∈ r₀ :: rounds ++ [r], r'.reachesCtl = false) ∧
      (r₀ :: rounds ++ [r]).Pairwise fun a b => a.epoll_create = true → b.epoll_create = true

/-! ## What `Start` and a round do -/

namespace Process

/-- How `Start` can go, by how far it gets. -/
inductive StartCase (s : Process) (r : Results) : Except Process (Bool × Process) → Prop
  | noEpoll : r.epoll_create = false → StartCase s r (.ok (false, s))
  -- `CreateSocket` closes the socket that it cannot bind
  | early {extra : List Desc} {n : ℕ} : r.epoll_create = true → r.reachesCtl = false →
      extra.Nodup → (∀ d ∈ extra, s.made < d ∧ d < n) → s.made < n →
      StartCase s r (.ok (false, { s with
        self := { s.self with efd_ := some s.made }
        made := n, closed := s.closed ++ extra }))
  | ctlFail : r.reachesCtl = true → r.epoll_ctl = false →
      StartCase s r (.ok (false, { s with
        self := { s.self with efd_ := some s.made, handle_ := some (s.made + 1) }
        made := s.made + 2, closed := s.closed ++ [s.made + 1] }))
  | assertFail {t : Process} : r.reachesCtl = true → r.epoll_ctl = true →
      s.self.th_loop_ = true → StartCase s r (.error t)
  | running : r.reachesCtl = true → r.epoll_ctl = true → StartCase s r (.ok (true, { s with
        self := { s.self with
          efd_ := some s.made, handle_ := some (s.made + 1), th_loop_ := true }
        made := s.made + 2, loops := s.loops ++ [s.self.loop_flag_] }))

theorem startCase (s : Process) (r : Results) : StartCase s r (s.start r) := by
  cases hepoll : r.epoll_create with
  | false =>
    rw [start, createEpoll, hepoll]
    exact .noEpoll hepoll
  | true =>
  rw [start, createEpoll, hepoll]
  cases hsock : r.socket with
  | false =>
    have hr : r.reachesCtl = false := by simp [Results.reachesCtl, hsock]
    simp only [createSocket, hsock]
    have := @StartCase.early s r [] (s.made + 1) hepoll hr List.nodup_nil nofun (by omega)
    rw [List.append_nil] at this
    exact this
  | true =>
  cases hbind : r.bind with
  | false =>
    have hr : r.reachesCtl = false := by simp [Results.reachesCtl, hbind]
    simp only [createSocket, hsock, hbind]
    exact @StartCase.early s r [s.made + 1] (s.made + 2) hepoll hr (List.nodup_singleton _)
      (by simp) (by omega)
  | true =>
  cases hlisten : r.getfl && r.setfl && r.listen with
  | false =>
    have hr : r.reachesCtl = false := by
      simp [Results.reachesCtl, hepoll, hsock, hbind, hlisten]
    simp only [createSocket, hsock, hbind]
    have := @StartCase.early s r [] (s.made + 2) hepoll hr List.nodup_nil nofun (by omega)
    rw [List.append_nil] at this
    exact this
  | true =>
  have hr : r.reachesCtl = true := by
    simp [Results.reachesCtl, hepoll, hsock, hbind, hlisten]
  simp only [createSocket, hsock, hbind]
  cases hctl : r.epoll_ctl with
  | false => exact .ctlFail hr hctl
  | true =>
  cases hth : s.self.th_loop_ with
  | true => exact .assertFail hr hctl hth
  | false => exact .running hr hctl

/-- The process that `Stop` leaves when there is a callback to drop. -/
def stopped (s : Process) : Process :=
  { s with
    self := { s.self with loop_flag_ := false, recv_callback_ := none }
    closed := s.closed ++ s.self.handle_.toList ++ s.self.efd_.toList }

section Round

variable {s s' : Process} {r : Results} {rs : List Results}

theorem registered (h : s.self.recv_callback_ = none) : s.registerOnRecvCallback =
    .ok { s with self := { s.self with recv_callback_ := some .recv_call } } := by
  rw [registerOnRecvCallback, h]
  rfl

/-- How a round can go, by how far `Start` gets. -/
inductive RoundCase (s : Process) (r : Results) : Except Process Process → Prop
  | noEpoll : r.epoll_create = false → RoundCase s r (.ok s.stopped)
  | early {extra : List Desc} {n : ℕ} : r.epoll_create = true → r.reachesCtl = false →
      extra.Nodup → (∀ d ∈ extra, s.made < d ∧ d < n) → s.made < n →
      RoundCase s r (.ok { s with
        self := { s.self with efd_ := some s.made }
        made := n, closed := s.closed ++ extra }.stopped)
  | ctlFail : r.reachesCtl = true → r.epoll_ctl = false →
      RoundCase s r (.ok { s with
        self := { s.self with efd_ := some s.made, handle_ := some (s.made + 1) }
        made := s.made + 2, closed := s.closed ++ [s.made + 1] }.stopped)
  | assertFail {t : Process} : r.reachesCtl = true → s.self.th_loop_ = true →
      RoundCase s r (.error t)
  | running : r.reachesCtl = true → r.epoll_ctl = true →
      RoundCase s r (.ok { s with
        self := { s.self with
          efd_ := some s.made, handle_ := some (s.made + 1), th_loop_ := true }
        made := s.made + 2, loops := s.loops ++ [s.self.loop_flag_] }.stopped)

theorem roundCase (h : s.self.recv_callback_ = none) : RoundCase s r (s.round r) := by
  have hround : s.round r =
      ({ s with self := { s.self with recv_callback_ := some .recv_call } }.start r >>=
        fun p => p.2.stop) := by
    rw [round, registered h]
    rfl
  rw [hround]
  have hc := startCase { s with self := { s.self with recv_callback_ := some .recv_call } } r
  generalize start _ r = x at hc
  cases hc with
  | noEpoll he => exact .noEpoll he
  | early he hr hnd hextra hn => exact .early he hr hnd hextra hn
  | ctlFail hr hctl => exact .ctlFail hr hctl
  | assertFail hr _ hth => exact .assertFail hr hth
  | running hr hctl => exact .running hr hctl

/-! ### What goes wrong stays wrong -/

/-- An `assert` failed, a descriptor was closed twice, or a thread was created that does not run. -/
def Bad : Except Process Process → Prop
  | .error _ => True
  | .ok s => ¬ s.closed.Nodup ∨ false ∈ s.loops

theorem closed_round (h : s.self.recv_callback_ = none) (hs : s.round r = .ok s') :
    s.closed <+: s'.closed := by
  have hc := roundCase (r := r) h
  rw [hs] at hc
  cases hc with
  | noEpoll _ | running _ _ =>
    rw [stopped, List.append_assoc]
    exact List.prefix_append ..
  | early _ _ _ _ _ | ctlFail _ _ =>
    rw [stopped, List.append_assoc, List.append_assoc]
    exact List.prefix_append ..

theorem loops_round (h : s.self.recv_callback_ = none) (hs : s.round r = .ok s') :
    s.loops <+: s'.loops := by
  have hc := roundCase (r := r) h
  rw [hs] at hc
  cases hc with
  | running _ _ => exact List.prefix_append ..
  | _ => exact List.prefix_refl _

theorem callback_round (h : s.self.recv_callback_ = none) (hs : s.round r = .ok s') :
    s'.self.recv_callback_ = none := by
  have hc := roundCase (r := r) h
  rw [hs] at hc
  cases hc <;> rfl

theorem bad_rounds (hb : Bad (.ok s)) (h : s.self.recv_callback_ = none) :
    Bad (rs.foldlM round s) := by
  induction rs generalizing s with
  | nil => exact hb
  | cons r rs ih =>
    rw [List.foldlM_cons]
    cases hs : s.round r with
    | error t => trivial
    | ok s' =>
      refine ih ?_ (callback_round h hs)
      rcases hb with hb | hb
      · exact .inl fun hn => hb (hn.sublist (closed_round h hs).sublist)
      · exact .inr ((loops_round h hs).subset hb)

/-! ### After a `Stop` -/

/-- What `Stop` leaves behind: a cleared flag, and fields that hold closed descriptors. -/
structure Spent (s : Process) : Prop where
  flag : s.self.loop_flag_ = false
  callback : s.self.recv_callback_ = none
  handle : ∀ d ∈ s.self.handle_, d ∈ s.closed
  efd : ∀ d ∈ s.self.efd_, d ∈ s.closed

theorem spent_stopped : Spent s.stopped where
  flag := rfl
  callback := rfl
  handle _ hd := List.mem_append_left _ (List.mem_append_right _ (Option.mem_toList.mpr hd))
  efd _ hd := List.mem_append_right _ (Option.mem_toList.mpr hd)

theorem spent_round (h : s.self.recv_callback_ = none) (hs : s.round r = .ok s') : Spent s' := by
  have hc := roundCase (r := r) h
  rw [hs] at hc
  cases hc <;> exact spent_stopped

/-- The fields are only ever replaced by new descriptors. -/
theorem efd_round (h : s.self.recv_callback_ = none) (hs : s.round r = .ok s') :
    s'.self.efd_ ≠ none ↔ s.self.efd_ ≠ none ∨ r.epoll_create = true := by
  have hc := roundCase (r := r) h
  rw [hs] at hc
  cases hc with
  | noEpoll he => simp [stopped, he]
  | early he _ _ _ _ => simp [stopped, he]
  | ctlFail hr _ | running hr _ =>
    simp only [Results.reachesCtl, Bool.and_eq_true] at hr
    simp [stopped, hr.1.1.1]

theorem handle_round (h : s.self.recv_callback_ = none) (hs : s.round r = .ok s') :
    s'.self.handle_ ≠ none ↔ s.self.handle_ ≠ none ∨ r.reachesCtl = true := by
  have hc := roundCase (r := r) h
  rw [hs] at hc
  cases hc with
  | noEpoll he => simp [stopped, Results.reachesCtl, he]
  | early _ hr _ _ _ => simp [stopped, hr]
  | ctlFail hr _ | running hr _ => simp [stopped, hr]

/-- What a list of closed descriptors can still take without one coming twice. -/
theorem eq_none_of_nodup {l : List Desc} {fd : Option Desc} (hn : (l ++ fd.toList).Nodup)
    (hm : ∀ d ∈ fd, d ∈ l) : fd = none := by
  cases fd with
  | none => rfl
  | some d =>
    exact absurd List.mem_cons_self ((List.disjoint_of_nodup_append hn) (hm d rfl))

/-- A round after a `Stop` goes well only if it does not get to the registration of a listening
socket, and replaces what is closed. -/
theorem Spent.of_not_bad (h : Spent s) (hb : ¬ Bad (s.round r)) :
    s.self.handle_ = none ∧ r.reachesCtl = false ∧
      (s.self.efd_ ≠ none → r.epoll_create = true) := by
  have hc := roundCase (r := r) h.callback
  generalize s.round r = x at hc hb
  cases hc with
  | noEpoll he =>
    have hn := not_not.mp (not_or.mp hb).1
    have hh := eq_none_of_nodup (hn.sublist (List.sublist_append_left ..)) h.handle
    have hefd := eq_none_of_nodup hn fun d hd => List.mem_append_left _ (h.efd d hd)
    exact ⟨hh, by simp [Results.reachesCtl, he], fun hne => absurd hefd hne⟩
  | early he hr _ _ _ =>
    have hn := not_not.mp (not_or.mp hb).1
    have hh := eq_none_of_nodup (hn.sublist (List.sublist_append_left ..))
      fun d hd => List.mem_append_left _ (h.handle d hd)
    exact ⟨hh, hr, fun _ => he⟩
  | ctlFail _ _ =>
    have hn := not_not.mp (not_or.mp hb).1
    have hh := eq_none_of_nodup (hn.sublist (List.sublist_append_left ..))
      fun d hd => List.mem_append_right _ (List.mem_singleton.mpr (Option.some.inj hd).symm)
    cases hh
  | assertFail _ _ => exact absurd trivial hb
  | running _ _ =>
    have hl := (not_or.mp hb).2
    exact absurd (List.mem_append_right _ (List.mem_singleton.mpr h.flag.symm)) hl

/-- The same over any number of rounds. -/
theorem Spent.of_not_bad_rounds (h : Spent s) (hne : rs ≠ []) (hb : ¬ Bad (rs.foldlM round s)) :
    s.self.handle_ = none ∧ (∀ r ∈ rs, r.reachesCtl = false) ∧
      (s.self.efd_ ≠ none → ∀ r ∈ rs, r.epoll_create = true) ∧
      rs.Pairwise fun a b => a.epoll_create = true → b.epoll_create = true := by
  induction rs generalizing s with
  | nil => exact absurd rfl hne
  | cons r rs ih =>
    rw [List.foldlM_cons] at hb
    cases hs : s.round r with
    | error t =>
      rw [hs] at hb
      exact absurd trivial hb
    | ok s' =>
      rw [hs] at hb
      have hb' : ¬ Bad (s.round r) := fun hbad => hb (bad_rounds (hs ▸ hbad)
        (callback_round h.callback hs))
      obtain ⟨hh, hr, he⟩ := h.of_not_bad hb'
      have hs' := spent_round h.callback hs
      cases rs with
      | nil =>
        exact ⟨hh, by simpa using hr, by simpa using he, List.pairwise_singleton ..⟩
      | cons r' rs =>
        obtain ⟨-, hrs, hes, hp⟩ := ih hs' nofun hb
        have hcreated : s.self.efd_ ≠ none ∨ r.epoll_create = true →
            ∀ r'' ∈ r' :: rs, r''.epoll_create = true :=
          fun hc => hes ((efd_round h.callback hs).mpr hc)
        refine ⟨hh, ?_, fun hne => ?_, ?_⟩
        · exact List.forall_mem_cons.mpr ⟨hr, hrs⟩
        · exact List.forall_mem_cons.mpr ⟨he hne, hcreated (.inl hne)⟩
        · exact List.pairwise_cons.mpr ⟨fun b hb hc => hcreated (.inr hc) b hb, hp⟩

/-! ### Rounds that go well -/

/-- No listening socket was registered, and nothing was closed twice. -/
structure Idle (s : Process) : Prop where
  callback : s.self.recv_callback_ = none
  handle : s.self.handle_ = none
  thread : s.self.th_loop_ = false
  loops : s.loops = []
  nodup : s.closed.Nodup
  made : ∀ d ∈ s.closed, d < s.made

theorem idle_new : Idle {} := ⟨rfl, rfl, rfl, rfl, List.nodup_nil, nofun⟩

theorem idle_round (h : Idle s) (hr : r.reachesCtl = false)
    (he : s.self.efd_ ≠ none → r.epoll_create = true) : ∃ s', s.round r = .ok s' ∧ Idle s' := by
  have hc := roundCase (r := r) h.callback
  generalize s.round r = x at hc
  cases hc with
  | noEpoll hepoll =>
    have hefd : s.self.efd_ = none := by
      by_contra hne
      exact absurd (hepoll.symm.trans (he hne)) nofun
    have hclosed : s.stopped.closed = s.closed := by simp [stopped, h.handle, hefd]
    exact ⟨_, rfl, rfl, h.handle, h.thread, h.loops, hclosed ▸ h.nodup, hclosed ▸ h.made⟩
  | @early extra n _ _ hnd hextra hn =>
    refine ⟨_, rfl, rfl, h.handle, h.thread, h.loops, ?_, ?_⟩
    · have hnew : (s.closed ++ extra).Nodup := List.Nodup.append h.nodup hnd fun d hd hd' =>
        Nat.lt_asymm (h.made d hd) (hextra d hd').1
      have hmade : s.made ∉ s.closed ++ extra := fun hm => by
        rcases List.mem_append.mp hm with hm | hm
        · exact absurd (h.made _ hm) (Nat.lt_irrefl _)
        · exact absurd (hextra _ hm).1 (Nat.lt_irrefl _)
      have hclosed :=
        hnew.append (List.nodup_singleton s.made) (List.disjoint_singleton.mpr hmade)
      simpa only [stopped, h.handle, Option.toList_none, List.append_nil, Option.toList_some]
        using hclosed
    · intro d hd
      simp only [stopped, h.handle, Option.toList_none, List.append_nil, Option.toList_some,
        List.mem_append, List.mem_singleton] at hd
      rcases hd with (hd | hd) | rfl
      · exact Nat.lt_trans (h.made d hd) hn
      · exact (hextra d hd).2
      · exact hn
  | ctlFail hr' _ | assertFail hr' _ | running hr' _ =>
    rw [hr] at hr'
    cases hr'

theorem idle_rounds (h : Idle s) (hr : ∀ r ∈ rs, r.reachesCtl = false)
    (he : s.self.efd_ ≠ none → ∀ r ∈ rs, r.epoll_create = true)
    (hp : rs.Pairwise fun a b => a.epoll_create = true → b.epoll_create = true) :
    ∃ s', rs.foldlM round s = .ok s' ∧ Idle s' := by
  induction rs generalizing s with
  | nil => exact ⟨s, rfl, h⟩
  | cons r rs ih =>
    obtain ⟨hr, hrs⟩ := List.forall_mem_cons.mp hr
    obtain ⟨hp₁, hp⟩ := List.pairwise_cons.mp hp
    obtain ⟨s', hs, hI⟩ := idle_round h hr fun hne => he hne r List.mem_cons_self
    rw [List.foldlM_cons, hs]
    refine ih hI hrs (fun hne => ?_) hp
    rcases (efd_round h.callback hs).mp hne with hne | hc
    · exact fun r' hr' => he hne r' (List.mem_cons_of_mem _ hr')
    · exact fun r' hr' => hp₁ r' hr' hc

/-- The first part of a computation that ends well ends well. -/
theorem bind_eq_ok {ε α β : Type} {x : Except ε α} {f : α → Except ε β} {b : β}
    (h : x >>= f = .ok b) : ∃ a, x = .ok a ∧ f a = .ok b := by
  cases x with
  | error e => cases h
  | ok a => exact ⟨a, rfl, h⟩

theorem spent_rounds (h : s.self.recv_callback_ = none) (hs : rs.foldlM round s = .ok s') :
    rs = [] ∧ s' = s ∨ Spent s' := by
  induction rs generalizing s with
  | nil => exact .inl ⟨rfl, (Except.ok.inj hs).symm⟩
  | cons r rs ih =>
    rw [List.foldlM_cons] at hs
    obtain ⟨t, hr, hs⟩ := bind_eq_ok hs
    rcases ih (callback_round h hr) hs with ⟨-, rfl⟩ | hsp
    · exact .inr (spent_round h hr)
    · exact .inr hsp

theorem efd_rounds (h : s.self.recv_callback_ = none) (hs : rs.foldlM round s = .ok s') :
    s'.self.efd_ ≠ none ↔ s.self.efd_ ≠ none ∨ ∃ r ∈ rs, r.epoll_create = true := by
  induction rs generalizing s with
  | nil =>
    obtain rfl := Except.ok.inj hs
    simp
  | cons r rs ih =>
    rw [List.foldlM_cons] at hs
    obtain ⟨t, hr, hs⟩ := bind_eq_ok hs
    rw [ih (callback_round h hr) hs, efd_round h hr, List.exists_mem_cons_iff, or_assoc]

end Round

end Process

/-! ## Whole lives -/

section Lives

open Process

variable {l : Life} {rounds : List Results} {r : Results}

/-- A life that the destructor ends in place of a `Stop` is one more round. -/
theorem run_started : Life.run ⟨rounds, .started r⟩ = (rounds ++ [r]).foldlM round {} := by
  rw [List.foldlM_append]
  simp only [List.foldlM_cons, List.foldlM_nil, bind_pure]
  rfl

theorem run_registered {s : Process} (hs : rounds.foldlM round {} = .ok s)
    (hc : s.self.recv_callback_ = none) : Life.run ⟨rounds, .registered⟩ = .ok s.stopped := by
  simp only [Life.run, hs]
  change s.registerOnRecvCallback >>= Process.destroy = _
  rw [Process.registered hc]
  rfl

theorem callback_rounds {s : Process} (hs : rounds.foldlM round {} = .ok s) :
    s.self.recv_callback_ = none := by
  rcases spent_rounds rfl hs with ⟨-, rfl⟩ | h
  · rfl
  · exact h.callback

theorem proper_iff (h : l.last ≠ .none) : Proper l ↔ ¬ Bad l.run := by
  constructor
  · intro hp
    obtain ⟨s, hs, hl⟩ := hp.completes
    have honce := hp.once
    rw [Life.closed, hs] at honce
    rw [hs]
    exact fun hb => hb.elim (fun hn => hn honce) hl
  · intro hb
    cases hs : l.run with
    | error t =>
      rw [hs] at hb
      exact absurd trivial hb
    | ok s =>
      rw [hs] at hb
      obtain ⟨hn, hl⟩ := not_or.mp hb
      refine ⟨⟨s, hs, hl⟩, ?_, ?_⟩
      · rw [Life.closed, hs]
        exact not_not.mp hn
      · rintro rounds r rfl
        exact absurd rfl h

/-- After a `Stop` the destructor has no callback to drop. -/
theorem not_proper_none : ¬ Proper ⟨rounds, .none⟩ := by
  rintro ⟨⟨s, hs, -⟩, -, -⟩
  rw [Life.run] at hs
  obtain ⟨t, hr, hs⟩ := bind_eq_ok hs
  change t.destroy = .ok s at hs
  rw [destroy, stop, unRegisterOnRecvCallback] at hs
  simp only [close, callback_rounds hr] at hs
  cases hs

theorem proper_registered :
    Proper ⟨rounds, .registered⟩ ↔ ∀ r ∈ rounds, r.epoll_create = false := by
  rw [proper_iff (by simp)]
  constructor
  · intro hb r hr
    cases hs : rounds.foldlM round {} with
    | error t =>
      refine absurd ?_ hb
      simp only [Life.run, hs]
      trivial
    | ok s =>
      rw [run_registered hs (callback_rounds hs)] at hb
      by_contra hne
      have hefd := (efd_rounds rfl hs).mpr (.inr ⟨r, hr, by simpa using hne⟩)
      rcases spent_rounds rfl hs with ⟨rfl, -⟩ | hsp
      · cases hr
      · exact hefd (eq_none_of_nodup (not_not.mp (not_or.mp hb).1)
          fun d hd => List.mem_append_left _ (hsp.efd d hd))
  · intro hr
    obtain ⟨s, hs, hI⟩ : ∃ s, rounds.foldlM round {} = .ok s ∧ Idle s := idle_rounds idle_new
      (fun r hm => by simp [Results.reachesCtl, hr r hm]) (fun h => absurd rfl h)
      (List.pairwise_of_forall_mem_list fun a ha _ _ h => by rw [hr a ha] at h; cases h)
    have hefd : s.self.efd_ = none := by
      by_contra hne
      obtain ⟨r, hm, hc⟩ := ((efd_rounds rfl hs).mp hne).resolve_left fun h => h rfl
      rw [hr r hm] at hc
      cases hc
    rw [run_registered hs hI.callback]
    rintro (hn | hl)
    · exact hn (by simpa [stopped, hI.handle, hefd] using hI.nodup)
    · simp [stopped, hI.loops] at hl

theorem proper_started :
    Proper ⟨[], .started r⟩ ↔ (r.reachesCtl = true → r.epoll_ctl = true) := by
  rw [proper_iff (by simp), run_started]
  simp only [List.nil_append, List.foldlM_cons, List.foldlM_nil, bind_pure]
  constructor
  · intro hb hr
    have hc := roundCase (r := r) idle_new.callback
    generalize round {} r = x at hc hb
    cases hc with
    | noEpoll he => simp [Results.reachesCtl, he] at hr
    | early _ hr' _ _ _ =>
      rw [hr] at hr'
      cases hr'
    | ctlFail _ _ => exact absurd (.inl (by decide)) hb
    | assertFail _ ht => cases ht
    | running _ hctl => exact hctl
  · intro h
    cases hr : r.reachesCtl with
    | true =>
      have hc := roundCase (r := r) idle_new.callback
      generalize round {} r = x at hc
      cases hc with
      | noEpoll he => simp [Results.reachesCtl, he] at hr
      | early _ hr' _ _ _ =>
        rw [hr] at hr'
        cases hr'
      | ctlFail _ hctl =>
        rw [h hr] at hctl
        cases hctl
      | assertFail _ ht => cases ht
      | running _ _ => exact fun hb => hb.elim (fun hn => hn (by decide)) (by decide)
    | false =>
      obtain ⟨s, hs, hI⟩ := idle_round idle_new hr fun h => absurd rfl h
      rw [hs]
      exact fun hb => hb.elim (fun hn => hn hI.nodup) (by simp [hI.loops])

theorem proper_startedAgain {r₀ : Results} : Proper ⟨r₀ :: rounds, .started r⟩ ↔
    (∀ r' ∈ r₀ :: rounds ++ [r], r'.reachesCtl = false) ∧
      (r₀ :: rounds ++ [r]).Pairwise fun a b => a.epoll_create = true → b.epoll_create = true := by
  rw [proper_iff (by simp), run_started]
  constructor
  · intro hb
    rw [List.cons_append, List.foldlM_cons] at hb
    cases hs : round {} r₀ with
    | error t =>
      rw [hs] at hb
      exact absurd trivial hb
    | ok s =>
      rw [hs] at hb
      obtain ⟨hh, hr, he, hp⟩ := (spent_round rfl hs).of_not_bad_rounds (by simp) hb
      have hr₀ : r₀.reachesCtl = false := by
        by_contra hne
        exact (handle_round rfl hs).mpr (.inr (by simpa using hne)) hh
      exact ⟨List.forall_mem_cons.mpr ⟨hr₀, hr⟩, List.pairwise_cons.mpr
        ⟨fun b hb hc => he ((efd_round rfl hs).mpr (.inr hc)) b hb, hp⟩⟩
  · rintro ⟨hr, hp⟩
    obtain ⟨s, hs, hI⟩ := idle_rounds idle_new hr (fun h => absurd rfl h) hp
    rw [hs]
    exact fun hb => hb.elim (fun hn => hn hI.nodup) (by simp [hI.loops])

/-- **Which lives go well.** -/
theorem proper_iff_fine (l : Life) : Proper l ↔ l.Fine := by
  obtain ⟨rounds, last⟩ := l
  cases last with
  | none => exact iff_of_false not_proper_none id
  | registered => exact proper_registered
  | started r =>
    cases rounds with
    | nil => exact proper_started
    | cons r₀ rounds => exact proper_startedAgain

end Lives

/-- All calls succeed. -/
def Results.ok : Results := ⟨true, true, true, true, true, true, true⟩

/-- **`Stop` and then the destructor**: the `assert` of `UnRegisterOnRecvCallback` fails, and both
descriptors are closed twice. -/
theorem not_proper : ¬ ∀ l : Life, Proper l := by
  intro h
  have hclosed : Life.closed ⟨[Results.ok], .none⟩ = [1, 0, 1, 0] := by decide
  have := (h ⟨[Results.ok], .none⟩).once
  rw [hclosed] at this
  exact absurd this (by decide)

end PracticeCode.EpollTcpServer
