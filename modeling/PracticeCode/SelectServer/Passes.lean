import PracticeCode.Lib.Cursor
import PracticeCode.Linux.EventLoop
import PracticeCode.SelectServer.Bookkeeping

/-!
# The passes of the select server

`fds` is walked in numeric order, so that the listening socket comes first when every connection has
a greater number.  A number that `AddFd` puts in front of the iterator is visited, but `readfds` is
older than it.
-/

namespace PracticeCode.SelectServer

open Lib Linux

/-- The next action, in a pass with the results of `p`. -/
def act (p : Pass) (s : State) : Option Act :=
  match s.point with
  | .loop => some .dispatch
  | .accept => some (.accept p.accept)
  | .recv => (s.iter.bind s.table.files).map fun c => .recv (p.recv c)
  | .send _ => (s.iter.bind s.table.files).map fun c => .send (p.send c)
  | .close _ => some .close
  | .select | .exited | .undefined => none

def eventLoop (sfd : Fd) : EventLoop State Act where
  step := step sfd
  init := init sfd
  ready := .select
  timeout := .selectTimeout
  watches s fd := s.sets.origin_set fd = true
  act := act
  head s := s.point = .select

/-- From a point in a pass to its end. -/
abbrev Ends (sfd : Fd) (p : Pass) : State → State → Prop := (eventLoop sfd).Ends p

/-- What is in front of the iterator, its own element included. -/
def State.rest (s : State) : List Fd :=
  match s.iter with
  | none => []
  | some fd => fd :: s.sets.fds.filter (fd < ·)

/-- The records are right, and no number is below the listening socket. -/
structure Kept (sfd : Fd) (s : State) (S : Service) : Prop where
  inv : Inv sfd s
  low : ∀ fd ∈ s.sets.fds, sfd ≤ fd
  shows : S.Shows s.table s.log

/-- What a state shows where the server waits. -/
structure Head (sfd : Fd) (s : State) (S : Service) : Prop where
  point : s.point = .select
  kept : Kept sfd s S

/-- The walk is at the head of its loop, behind the listening socket. -/
structure Walk (sfd : Fd) (p : Pass) (s : State) (l : List Fd) (S : Service) : Prop where
  point : s.point = .loop
  kept : Kept sfd s S
  readfds : s.readfds = p.ready.contains
  rest : s.rest = l
  behind : sfd ∉ l

section Pass

variable {sfd fd : Fd} {p : Pass} {s s' t : State} {S : Service} {l : List Fd} {a : Act}
  {c : Conn} {bytes : List UInt8}

theorem ends_of_step (ha : act p s = some a) (hs : step sfd s a = some t) :
    Ends sfd p s s' ↔ Ends sfd p t s' :=
  (eventLoop sfd).ends_of_step ha hs

theorem rest_next (hs : s.sets.fds.Pairwise (· < ·)) :
    (s.next fd).rest = s.sets.fds.filter (fd < ·) := by
  unfold State.rest State.next
  dsimp only
  split
  · rename_i h
    symm
    simpa [nextFd] using h
  · rename_i x h
    exact (filter_of_find? hs h).symm

/-- The element that the iterator stands at. -/
theorem Walk.current (h : Walk sfd p s (fd :: l) S) :
    s.iter = some fd ∧ l = s.sets.fds.filter (fd < ·) ∧ fd ≠ sfd ∧
      ∃ c, s.table.files fd = some c ∧ S.table.files fd = some c := by
  have hr := h.rest
  have hne : fd ≠ sfd := by
    rintro rfl
    exact h.behind (List.mem_cons_self ..)
  unfold State.rest at hr
  split at hr
  · cases hr
  · rename_i x hi
    obtain ⟨rfl, rfl⟩ := List.cons.inj hr
    have hm := (h.kept.inv.mem x).mp (h.kept.inv.iter x hi)
    obtain ⟨c, hc⟩ := Option.isSome_iff_exists.mp (hm.1.resolve_left hne)
    exact ⟨hi, rfl, hne, c, hc, h.kept.shows.table ▸ hc⟩

theorem Walk.readfds_eq (h : Walk sfd p s l S) (fd : Fd) :
    s.readfds fd = decide (fd ∈ p.ready) := by
  rw [h.readfds, List.contains_eq_mem]

/-- The end of the walk. -/
theorem walk_nil (h : Walk sfd p s [] S) :
    ∃ t, (∀ s', Ends sfd p s s' ↔ s' = t) ∧ Head sfd t S := by
  have hi : s.iter = none := by
    have hr := h.rest
    unfold State.rest at hr
    split at hr
    · assumption
    · cases hr
  have ha : act p s = some .dispatch := by simp [act, h.point]
  have hs : step sfd s .dispatch = some { s with point := .select } := by
    simp [step, h.point, hi]
  refine ⟨_, fun s' => ?_, rfl, inv_step h.kept.inv hs (by simp), h.kept.low, h.kept.shows⟩
  exact (ends_of_step ha hs).trans ((eventLoop sfd).ends_of_stop rfl rfl)

theorem Kept.sorted (h : Kept sfd s S) : s.sets.fds.Pairwise (· < ·) := h.inv.sets.sorted

/-- A step to the next element. -/
theorem Kept.walk (h : Kept sfd (s.next fd) S) (hr : s.readfds = p.ready.contains)
    (hle : sfd ≤ fd) : Walk sfd p (s.next fd) (s.sets.fds.filter (fd < ·)) S :=
  ⟨rfl, h, hr, rest_next h.sorted, fun hm => by
    have : fd < sfd := by simpa using (List.mem_filter.mp hm).2
    exact absurd this (not_lt.mpr hle)⟩

theorem Walk.le (h : Walk sfd p s (fd :: l) S) : sfd ≤ fd :=
  h.kept.low fd (h.kept.inv.iter fd h.current.1)

theorem walk_skip (h : Walk sfd p s (fd :: l) S) (hr : fd ∉ p.ready) :
    ∃ t, Walk sfd p t l S ∧ ∀ s', Ends sfd p s s' ↔ Ends sfd p t s' := by
  obtain ⟨hi, rfl, -⟩ := h.current
  have ha : act p s = some .dispatch := by simp [act, h.point]
  have hs : step sfd s .dispatch = some (s.next fd) := by
    simp [step, h.point, hi, h.readfds_eq, hr]
  have hk : Kept sfd (s.next fd) S :=
    ⟨inv_step h.kept.inv hs (by simp [State.next]), h.kept.low, h.kept.shows⟩
  exact ⟨s.next fd, hk.walk h.readfds h.le, fun s' => ends_of_step ha hs⟩

/-- The descriptor in front of the iterator is readable. -/
theorem walk_dispatch (h : Walk sfd p s (fd :: l) S) (hr : fd ∈ p.ready) :
    step sfd s .dispatch = some { s with point := .recv } ∧
      ∀ s', Ends sfd p s s' ↔ Ends sfd p { s with point := .recv } s' := by
  obtain ⟨hi, -, hne, -⟩ := h.current
  have ha : act p s = some .dispatch := by simp [act, h.point]
  have hs : step sfd s .dispatch = some { s with point := .recv } := by
    simp [step, h.point, hi, h.readfds_eq, hr, hne]
  exact ⟨hs, fun s' => ends_of_step ha hs⟩

/-- A chunk comes in, and is sent back. -/
theorem walk_data (h : Walk sfd p s (fd :: l) S) (hr : fd ∈ p.ready)
    (hS : S.table.files fd = some c) (hres : p.recv c = .data bytes)
    (hfit : (p.recv c).Fits) :
    ∃ t, Walk sfd p t l (S.serve p fd c) ∧ ∀ s', Ends sfd p s s' ↔ Ends sfd p t s' := by
  have hc : s.table.files fd = some c := h.kept.shows.table ▸ hS
  obtain ⟨hi, rfl, -⟩ := h.current
  obtain ⟨hs₀, hends⟩ := walk_dispatch h hr
  have ha₁ : act p { s with point := .recv } = some (.recv (.data bytes)) := by
    simp [act, hi, hc, hres]
  have hcan : s.table.CanRecv fd (.data bytes) := (Table.canRecv_iff hc).mpr (hres ▸ hfit)
  have hs₁ : step sfd { s with point := .recv } (.recv (.data bytes)) =
      some { s.call (.recv fd (s.table.files fd) (.data bytes)) with
        point := .send (fill bytes) } := by
    simp [step, hi, hcan, State.call]
  have ha₂ : act p { s.call (.recv fd (s.table.files fd) (.data bytes)) with
      point := .send (fill bytes) } = some (.send (p.send c)) := by
    simp [act, State.call, hi, hc]
  have hs₂ : step sfd { s.call (.recv fd (s.table.files fd) (.data bytes)) with
      point := .send (fill bytes) } (.send (p.send c)) = some ((({ s with
        log := s.log ++ p.calls fd c } : State)).next fd) := by
    simp [step, State.call, State.next, hi, hc, Pass.calls, hres]
  have hinv := inv_step (inv_step (inv_step h.kept.inv hs₀ (by simp)) hs₁ (by simp)) hs₂
    (by simp [State.next])
  have hsh := h.kept.shows.serve p fd c
  simp only [Pass.leaves, hres, Bool.false_eq_true, if_false] at hsh
  have hk : Kept sfd (({ s with log := s.log ++ p.calls fd c } : State).next fd) (S.serve p fd c) :=
    ⟨hinv, h.kept.low, hsh⟩
  exact ⟨_, hk.walk h.readfds h.le, fun s' =>
    (hends s').trans ((ends_of_step ha₁ hs₁).trans (ends_of_step ha₂ hs₂))⟩

/-- `RemoveFd` leaves in front of the iterator what was there. -/
theorem rest_removeFd (hs : s.sets.fds.Pairwise (· < ·)) {t : Table} {pt : Point}
    {log : List Call} :
    State.rest { s with
      table := t, sets := (RemoveFd s.sets fd).1, iter := (RemoveFd s.sets fd).2, point := pt
      log := log } = s.sets.fds.filter (fd < ·) := by
  unfold State.rest RemoveFd
  dsimp only
  split
  · rename_i h
    symm
    simpa [nextFd] using h
  · rename_i x h
    have hx : fd < x := (mem_of_nextFd h).2
    have hnd : s.sets.fds.Nodup := hs.imp ne_of_lt
    rw [filter_of_find? hs h, hnd.erase_eq_filter, List.filter_filter]
    congr 1
    refine List.filter_congr fun y _ => ?_
    by_cases hy : x < y
    · simp [hy, ne_of_gt (lt_trans hx hy)]
    · simp [hy]

/-- The connection has ended or failed, and is closed. -/
theorem walk_stop (h : Walk sfd p s (fd :: l) S) (hr : fd ∈ p.ready)
    (hS : S.table.files fd = some c) (hres : ∀ bytes, p.recv c ≠ .data bytes) :
    ∃ t, Walk sfd p t l (S.serve p fd c) ∧ ∀ s', Ends sfd p s s' ↔ Ends sfd p t s' := by
  have hc : s.table.files fd = some c := h.kept.shows.table ▸ hS
  obtain ⟨hi, rfl, -⟩ := h.current
  obtain ⟨hs₀, hends⟩ := walk_dispatch h hr
  have hlv := Pass.calls_of_stop fd hres
  have ha₁ : act p { s with point := .recv } = some (.recv (p.recv c)) := by simp [act, hi, hc]
  have hs₁ : step sfd { s with point := .recv } (.recv (p.recv c)) =
      some { s.call (.recv fd (s.table.files fd) (p.recv c)) with
        sets := (RemoveFd s.sets fd).1, iter := (RemoveFd s.sets fd).2, point := .close fd } := by
    cases hp : p.recv c with
    | data bytes => exact absurd hp (hres bytes)
    | eof | again | fail => simp [step, hi, Table.CanRecv, State.call]
  have hs₂ : step sfd { s.call (.recv fd (s.table.files fd) (p.recv c)) with
      sets := (RemoveFd s.sets fd).1, iter := (RemoveFd s.sets fd).2, point := .close fd } .close =
      some { s with
        table := s.table.close fd, sets := (RemoveFd s.sets fd).1
        iter := (RemoveFd s.sets fd).2, point := .loop, log := s.log ++ p.calls fd c } := by
    simp [step, State.call, hc, hlv.2]
  have hinv := inv_step (inv_step (inv_step h.kept.inv hs₀ (by simp)) hs₁ (by simp)) hs₂ (by simp)
  have hsh := h.kept.shows.serve p fd c
  simp only [hlv.1, if_true] at hsh
  refine ⟨_, ⟨rfl, ⟨hinv, fun x hx => ?_, hsh⟩, h.readfds, rest_removeFd h.kept.sorted,
    fun hm => ?_⟩, fun s' => (hends s').trans ((ends_of_step ha₁ hs₁).trans (ends_of_step rfl hs₂))⟩
  · exact h.kept.low x (List.mem_of_mem_erase hx)
  · exact h.behind (List.mem_cons_of_mem _ hm)

/-- A number under which nothing can be received. -/
theorem walk_refuse (h : Walk sfd p s (fd :: l) S) (hr : fd ∈ p.ready)
    (hS : S.table.files fd = some c) (hfit : ¬ (p.recv c).Fits) (s' : State) :
    ¬ Ends sfd p s s' := by
  have hc : s.table.files fd = some c := h.kept.shows.table ▸ hS
  have hi := h.current.1
  rw [(walk_dispatch h hr).2]
  have ha : act p { s with point := .recv } = some (.recv (p.recv c)) := by simp [act, hi, hc]
  have hcan : ¬ s.table.CanRecv fd (p.recv c) := mt (Table.canRecv_iff hc).mp hfit
  have hs : step sfd { s with point := .recv } (.recv (p.recv c)) = none := by
    simp [step, hi, hcan]
  exact (eventLoop sfd).not_ends ha hs

theorem walks (sfd : Fd) (p : Pass) : Service.Walks p (Ends sfd p) (Walk sfd p) (Head sfd) where
  stop := walk_nil
  conn h := by
    obtain ⟨-, -, -, c, -, hS⟩ := h.current
    exact ⟨c, hS⟩
  skip := walk_skip
  data := walk_data
  leave := walk_stop
  refuse := walk_refuse

/-! ## The listening socket -/

/-- The walk is at its first element. -/
structure First (sfd : Fd) (p : Pass) (s : State) (S : Service) : Prop where
  point : s.point = .loop
  kept : Kept sfd s S
  readfds : s.readfds = p.ready.contains
  iter : s.iter = some sfd
  mem : ∀ fd ∈ p.ready, fd ∈ s.sets.fds

/-- What is visited behind the listening socket. -/
theorem mem_behind {fds : List Fd} (hlow : ∀ fd ∈ fds, sfd ≤ fd) (hfd : fd ∈ fds) :
    fd ∈ fds.filter (sfd < ·) ↔ fd ≠ sfd := by
  simp only [List.mem_filter, hfd, true_and, decide_eq_true_eq]
  constructor
  · exact ne_of_gt
  · exact fun hne => lt_of_le_of_ne (hlow fd hfd) (Ne.symm hne)

/-- Behind the listening socket the walk is as it has to be. -/
theorem Kept.behind (h : Kept sfd (s.next sfd) S) (hr : s.readfds = p.ready.contains)
    (hmem : ∀ fd ∈ p.ready, fd ∈ s.sets.fds) :
    ∃ l, Walk sfd p (s.next sfd) l S ∧ l.Nodup ∧ ∀ fd ∈ p.ready, fd ∈ l ↔ fd ≠ sfd := by
  exact ⟨_, h.walk hr le_rfl, h.inv.sets.nodup.filter _,
    fun fd hfd => mem_behind h.low (hmem fd hfd)⟩

theorem First.dispatch (h : First sfd p s S) (hr : sfd ∈ p.ready) :
    step sfd s .dispatch = some { s with point := .accept } ∧
      ∀ s', Ends sfd p s s' ↔ Ends sfd p { s with point := .accept } s' := by
  have ha : act p s = some .dispatch := by simp [act, h.point]
  have hs : step sfd s .dispatch = some { s with point := .accept } := by
    simp [step, h.point, h.iter, h.readfds, hr]
  exact ⟨hs, fun s' => ends_of_step ha hs⟩

theorem first_step (h : First sfd p s S) (hp : ∀ cfd, p.accept = some cfd → sfd < cfd)
    (hg : S.CanGreet sfd (· < FD_SETSIZE) p) :
    ∃ t l, Walk sfd p t l (S.first sfd p) ∧ l.Nodup ∧ (∀ fd ∈ p.ready, fd ∈ l ↔ fd ≠ sfd) ∧
      ∀ s', Ends sfd p s s' ↔ Ends sfd p t s' := by
  unfold Service.first
  split
  · rename_i hr
    obtain ⟨hs₀, hends⟩ := h.dispatch hr
    have ha : act p { s with point := .accept } = some (.accept p.accept) := rfl
    cases hacc : p.accept with
    | none =>
      rw [hacc] at ha
      have hs : step sfd { s with point := .accept } (.accept none) =
          some ((s.call (.accept none)).next sfd) := by
        simp [step, h.iter, State.call, State.next]
      have hk : Kept sfd ((s.call (.accept none)).next sfd) (S.greet none) :=
        ⟨inv_step (inv_step h.kept.inv hs₀ (by simp)) hs (by simp [State.next]), h.kept.low,
          h.kept.shows.greet_none⟩
      obtain ⟨l, hw, hnd, hm⟩ := hk.behind h.readfds h.mem
      exact ⟨_, l, hw, hnd, hm, fun s' => (hends s').trans (ends_of_step ha hs)⟩
    | some cfd =>
      rw [hacc] at ha
      obtain ⟨hfree, hne, hlt⟩ := hg hr cfd hacc
      have hs : step sfd { s with point := .accept } (.accept (some cfd)) =
          some (({ (s.call (.accept (some cfd))) with
            table := s.table.accept cfd, sets := AddFd s.sets cfd } : State).next sfd) := by
        have hfree' : s.table.files cfd = none := by rw [h.kept.shows.table, hfree]
        simp [step, h.iter, State.call, State.next, hfree', hne, hlt]
      have hk : Kept sfd (({ (s.call (.accept (some cfd))) with
          table := s.table.accept cfd, sets := AddFd s.sets cfd } : State).next sfd)
          (S.greet (some cfd)) := by
        refine ⟨inv_step (inv_step h.kept.inv hs₀ (by simp)) hs (by simp [State.next]), ?_,
          h.kept.shows.greet cfd⟩
        intro x hx
        rcases mem_insertFd.mp hx with rfl | hx
        · exact le_of_lt (hp x hacc)
        · exact h.kept.low x hx
      obtain ⟨l, hw, hnd, hm⟩ := hk.behind h.readfds fun fd hfd =>
        mem_insertFd.mpr (.inr (h.mem fd hfd))
      exact ⟨_, l, hw, hnd, hm, fun s' => (hends s').trans (ends_of_step ha hs)⟩
  · rename_i hr
    have ha : act p s = some .dispatch := by simp [act, h.point]
    have hs : step sfd s .dispatch = some (s.next sfd) := by
      simp [step, h.point, h.iter, h.readfds, hr]
    have hk : Kept sfd (s.next sfd) S :=
      ⟨inv_step h.kept.inv hs (by simp [State.next]), h.kept.low, h.kept.shows⟩
    obtain ⟨l, hw, hnd, hm⟩ := hk.behind h.readfds h.mem
    exact ⟨_, l, hw, hnd, hm, fun s' => ends_of_step ha hs⟩

/-- No connection comes in under a number that is in use, and `FD_SET` of one that is too great is
undefined. -/
theorem first_stuck (h : First sfd p s S) (hg : ¬ S.CanGreet sfd (· < FD_SETSIZE) p) (s' : State) :
    ¬ Ends sfd p s s' := by
  unfold Service.CanGreet at hg
  push Not at hg
  obtain ⟨hr, cfd, hacc, hno⟩ := hg
  rw [(h.dispatch hr).2]
  have ha : act p { s with point := .accept } = some (.accept (some cfd)) := by simp [act, hacc]
  by_cases hfree : s.table.files cfd = none ∧ cfd ≠ sfd
  · have hle : ¬ cfd < FD_SETSIZE := not_lt.mpr (hno (h.kept.shows.table ▸ hfree.1) hfree.2)
    have hs : step sfd { s with point := .accept } (.accept (some cfd)) =
        some { s.call (.accept (some cfd)) with
          table := s.table.accept cfd, point := .undefined } := by
      simp [step, h.iter, State.call, hfree, hle]
    rw [ends_of_step ha hs, Ends, EventLoop.Ends, settles_of_stop rfl]
    rintro ⟨rfl, he⟩
    cases he
  · have hs : step sfd { s with point := .accept } (.accept (some cfd)) = none := by
      simp [step, h.iter, hfree]
    exact (eventLoop sfd).not_ends ha hs

end Pass

/-! ## Pass by pass -/

/-- When no number is below the listening socket, it comes first. -/
theorem head_of_low {sfd : Fd} {l : List Fd} (hs : l.Pairwise (· < ·)) (hm : sfd ∈ l)
    (hlow : ∀ fd ∈ l, sfd ≤ fd) : l.head? = some sfd := by
  cases l with
  | nil => cases hm
  | cons x l =>
    rcases List.mem_cons.mp hm with rfl | hm
    · rfl
    · have hlt : x < sfd := (List.pairwise_cons.mp hs).1 sfd hm
      exact absurd hlt (not_lt.mpr (hlow x (List.mem_cons_self ..)))

theorem Head.head_fds {sfd : Fd} {s : State} {S : Service} (h : Head sfd s S) :
    s.sets.fds.head? = some sfd :=
  head_of_low h.kept.sorted ((h.kept.inv.mem sfd).mpr ⟨.inl rfl, by simp [h.point]⟩) h.kept.low

/-- The state in which a pass starts. -/
def State.begin (s : State) (ready : List Fd) : State :=
  { s with readfds := ready.contains, iter := s.sets.fds.head?, point := .loop }

section Head

variable {sfd : Fd} {p : Pass} {s s' : State} {S : Service}

theorem Head.open_iff (h : Head sfd s S) (fd : Fd) :
    s.sets.origin_set fd = true ↔ S.table.Open sfd fd := by
  rw [h.kept.inv.sets.bits, h.kept.inv.mem, h.kept.shows.table, h.point]
  simp

theorem Head.begins (h : Head sfd s S) (hr : ∀ fd ∈ p.ready, S.table.Open sfd fd) :
    step sfd s (.select p.ready) = some (s.begin p.ready) := by
  simp only [step, h.point]
  exact if_pos fun fd hfd => (h.open_iff fd).mpr (hr fd hfd)

theorem Head.first (h : Head sfd s S) (hr : ∀ fd ∈ p.ready, S.table.Open sfd fd) :
    First sfd p (s.begin p.ready) S where
  point := rfl
  kept := by
    exact ⟨inv_step h.kept.inv (h.begins hr) (by simp [State.begin]), h.kept.low, h.kept.shows⟩
  readfds := rfl
  iter := h.head_fds
  mem fd hfd := (h.kept.inv.sets.bits fd).mp ((h.open_iff fd).mpr (hr fd hfd))

theorem Head.pass (h : Head sfd s S) (hp : ∀ cfd, p.accept = some cfd → sfd < cfd) :
    ((∃ s', (eventLoop sfd).Serves p s s') ↔ S.Feasible sfd (· < FD_SETSIZE) p) ∧
      ∀ s', (eventLoop sfd).Serves p s s' → Head sfd s' (S.pass sfd p) := by
  have hfree : S.table.files sfd = none := h.kept.shows.table ▸ h.kept.inv.free
  exact EventLoop.serves_of_walk h.open_iff h.begins (walks sfd p)
    (fun hr => first_step (h.first hr) hp) (fun hr => first_stuck (h.first hr)) hfree

end Head

/-- **The select server does what a pass is**, when the numbers it is given are greater than that of
the listening socket. -/
theorem performs (sfd : Fd) : (eventLoop sfd).Performs sfd (· < FD_SETSIZE)
    (fun p => ∀ cfd, p.accept = some cfd → sfd < cfd) (Head sfd) where
  start hp := ⟨hp, init_inv sfd, fun fd hm => by
    have : fd = sfd := by simpa [eventLoop, init, AddFd, insertFd] using hm
    exact le_of_eq this.symm, Service.shows_empty⟩
  timeout {s s' S} h hs := by
    have hs' : step sfd s .selectTimeout = some s' := hs
    cases outcome_of_step hs' with
    | timeout => exact h
  feasible hp h := (h.pass hp).1
  pass hp h hs := (h.pass hp).2 _ hs

end PracticeCode.SelectServer
