import PracticeCode.Lib.Cursor
import PracticeCode.Linux.EventLoop
import PracticeCode.PollServer.Defs
import Mathlib.Data.List.InsertIdx

/-!
# The passes of the poll server

`fds` is walked in the order of arrival, with the listening socket at its front.  A client that is
accepted comes to the end of the vector, with no event yet; an entry that is erased leaves the
iterator at the next one.
-/

namespace PracticeCode.PollServer

open Lib Linux

/-- The next action, in a pass with the results of `p`. -/
def act (p : Pass) (s : State) : Option Act :=
  match s.point with
  | .loop => some .dispatch
  | .accept => some (.accept p.accept)
  | .recv fd => (s.table.files fd).map fun c => .recv (p.recv c)
  | .send fd _ => (s.table.files fd).map fun c => .send (p.send c)
  | .close _ => some .close
  | .poll | .exited => none

/-- The descriptors of the vector. -/
def numbers (fds : List PollFd) : List Fd := fds.map PollFd.fd

def eventLoop (sfd : Fd) : EventLoop State Act where
  step := step sfd
  init := init sfd
  ready := .poll
  timeout := .pollTimeout
  watches s fd := fd ∈ numbers s.fds
  act := act
  head s := s.point = .poll

/-- From a point in a pass to its end. -/
abbrev Ends (sfd : Fd) (p : Pass) : State → State → Prop := (eventLoop sfd).Ends p

/-- The vector has the open descriptors, each once, and the listening socket first. -/
structure Listed (sfd : Fd) (fds : List PollFd) (t : Table) : Prop where
  nodup : (numbers fds).Nodup
  mem : ∀ fd, fd ∈ numbers fds ↔ t.Open sfd fd
  first : (numbers fds).head? = some sfd
  free : t.files sfd = none

/-- What holds in the loop, and where the server waits. -/
structure Kept (sfd : Fd) (s : State) (S : Service) : Prop where
  listed : Listed sfd s.fds s.table
  shows : S.Shows s.table s.log

/-- What a state shows where the server waits. -/
structure Head (sfd : Fd) (s : State) (S : Service) : Prop where
  point : s.point = .poll
  kept : Kept sfd s S

/-- The walk is at the head of its loop, behind the listening socket. -/
structure Walk (sfd : Fd) (p : Pass) (s : State) (l : List Fd) (S : Service) : Prop where
  point : s.point = .loop
  kept : Kept sfd s S
  revents : ∀ e ∈ s.fds, e.revents = decide (e.fd ∈ p.ready)
  rest : numbers (s.fds.drop s.iter) = l
  behind : sfd ∉ l

section Listed

variable {sfd fd : Fd} {fds : List PollFd} {t : Table} {i : ℕ} {e : PollFd}

theorem listed_init (sfd : Fd) : Listed sfd [⟨sfd, false⟩] .empty where
  nodup := List.nodup_singleton sfd
  mem fd := by simp [numbers, Table.Open, Table.empty]
  first := rfl
  free := rfl

theorem Listed.accept (h : Listed sfd fds t) {cfd : Fd} (hfree : t.files cfd = none)
    (hne : cfd ≠ sfd) : Listed sfd (fds ++ [⟨cfd, false⟩]) (t.accept cfd) where
  nodup := by
    have hm : cfd ∉ numbers fds := by simp [h.mem, Table.Open, hfree, hne]
    unfold numbers
    rw [List.map_append]
    exact h.nodup.append (List.nodup_singleton cfd) (List.disjoint_singleton.mpr hm)
  mem fd := by
    rw [Table.open_accept, ← h.mem]
    simp [numbers, or_comm]
  first := by
    have hf := h.first
    unfold numbers at hf ⊢
    rw [List.map_append, List.head?_append, hf]
    rfl
  free := by
    rw [Table.files_accept, if_neg hne.symm]
    exact h.free

/-- The entry of a connection that is closed is erased. -/
theorem Listed.close (h : Listed sfd fds t) (hi : fds[i]? = some e) (hne : e.fd ≠ sfd) :
    Listed sfd (fds.eraseIdx i) (t.close e.fd) := by
  obtain ⟨hlt, rfl⟩ := List.getElem?_eq_some_iff.mp hi
  have hlt' : i < (numbers fds).length := by simpa [numbers] using hlt
  have hn : numbers (fds.eraseIdx i) = (numbers fds).erase fds[i].fd := by
    have := h.nodup.erase_getElem i hlt'
    simp only [numbers, List.getElem_map] at this ⊢
    rw [this, List.eraseIdx_map]
  refine ⟨?_, fun fd => ?_, ?_, ?_⟩
  · rw [hn]
    exact h.nodup.sublist List.erase_sublist
  · rw [hn, h.nodup.mem_erase_iff, h.mem, Table.open_close hne, and_comm]
  · rw [hn]
    obtain ⟨l, hl⟩ := List.head?_eq_some_iff.mp h.first
    rw [hl, List.erase_cons_tail (by simpa using hne.symm)]
    rfl
  · rw [Table.files_close, if_neg hne.symm]
    exact h.free

end Listed

section Pass

variable {sfd fd : Fd} {p : Pass} {s s' t : State} {S : Service} {l : List Fd} {a : Act}
  {c : Conn} {bytes : List UInt8}

theorem ends_of_step (ha : act p s = some a) (hs : step sfd s a = some t) :
    Ends sfd p s s' ↔ Ends sfd p t s' :=
  (eventLoop sfd).ends_of_step ha hs

/-- The entry that the iterator stands at. -/
theorem Walk.current (h : Walk sfd p s (fd :: l) S) :
    ∃ e, s.fds[s.iter]? = some e ∧ e.fd = fd ∧ numbers (s.fds.drop (s.iter + 1)) = l ∧ fd ≠ sfd ∧
      ∃ c, s.table.files fd = some c ∧ S.table.files fd = some c := by
  have hr := h.rest
  have hne : fd ≠ sfd := by
    rintro rfl
    exact h.behind (List.mem_cons_self ..)
  cases hi : s.fds[s.iter]? with
  | none =>
    rw [List.drop_eq_nil_of_le (List.getElem?_eq_none_iff.mp hi)] at hr
    cases hr
  | some e =>
    rw [drop_of_getElem? hi] at hr
    obtain ⟨rfl, hl⟩ : e.fd = fd ∧ numbers (s.fds.drop (s.iter + 1)) = l := List.cons.inj hr
    have hm := (h.kept.listed.mem e.fd).mp (List.mem_map_of_mem (List.mem_of_getElem? hi))
    obtain ⟨c, hc⟩ := Option.isSome_iff_exists.mp (hm.resolve_left hne)
    exact ⟨e, rfl, rfl, hl, hne, c, hc, h.kept.shows.table ▸ hc⟩

/-- The end of the walk. -/
theorem walk_nil (h : Walk sfd p s [] S) :
    ∃ t, (∀ s', Ends sfd p s s' ↔ s' = t) ∧ Head sfd t S := by
  have hi : s.fds[s.iter]? = none := by
    have hr := h.rest
    simpa [numbers] using hr
  have ha : act p s = some .dispatch := by simp [act, h.point]
  have hs : step sfd s .dispatch = some { s with point := .poll } := by
    simp [step, h.point, hi]
  refine ⟨{ s with point := .poll }, fun s' => ?_, rfl, h.kept.listed, h.kept.shows⟩
  exact (ends_of_step ha hs).trans ((eventLoop sfd).ends_of_stop rfl rfl)

theorem walk_skip (h : Walk sfd p s (fd :: l) S) (hr : fd ∉ p.ready) :
    ∃ t, Walk sfd p t l S ∧ ∀ s', Ends sfd p s s' ↔ Ends sfd p t s' := by
  obtain ⟨e, hi, rfl, hl, -⟩ := h.current
  have hev := h.revents e (List.mem_of_getElem? hi)
  have ha : act p s = some .dispatch := by simp [act, h.point]
  have hs : step sfd s .dispatch = some s.next := by
    simp [step, h.point, hi, hev, hr]
  have hk : Kept sfd s.next S := ⟨h.kept.listed, h.kept.shows⟩
  exact ⟨s.next, ⟨rfl, hk, h.revents, hl, fun hm => h.behind (List.mem_cons_of_mem _ hm)⟩,
    fun s' => ends_of_step ha hs⟩

/-- The entry of the iterator is readable. -/
theorem walk_dispatch (h : Walk sfd p s (fd :: l) S) (hr : fd ∈ p.ready) (s' : State) :
    Ends sfd p s s' ↔ Ends sfd p { s with point := .recv fd } s' := by
  obtain ⟨e, hi, rfl, -, hne, -⟩ := h.current
  have hev := h.revents e (List.mem_of_getElem? hi)
  have ha : act p s = some .dispatch := by simp [act, h.point]
  have hs : step sfd s .dispatch = some { s with point := .recv e.fd } := by
    simp [step, h.point, hi, hev, hr, hne]
  exact ends_of_step ha hs

/-- A chunk comes in, and is sent back. -/
theorem walk_data (h : Walk sfd p s (fd :: l) S) (hr : fd ∈ p.ready)
    (hS : S.table.files fd = some c) (hres : p.recv c = .data bytes)
    (hfit : (p.recv c).Fits) :
    ∃ t, Walk sfd p t l (S.serve p fd c) ∧ ∀ s', Ends sfd p s s' ↔ Ends sfd p t s' := by
  have hc : s.table.files fd = some c := h.kept.shows.table ▸ hS
  obtain ⟨e, hi, -, hl, -⟩ := h.current
  have ha₁ : act p { s with point := .recv fd } = some (.recv (.data bytes)) := by
    simp [act, hc, hres]
  have hcan : s.table.CanRecv fd (.data bytes) := (Table.canRecv_iff hc).mpr (hres ▸ hfit)
  have hs₁ : step sfd { s with point := .recv fd } (.recv (.data bytes)) =
      some { s.call (.recv fd (s.table.files fd) (.data bytes)) with
        point := .send fd (fill bytes) } := by
    simp [step, hcan, State.call]
  have ha₂ : act p { s.call (.recv fd (s.table.files fd) (.data bytes)) with
      point := .send fd (fill bytes) } = some (.send (p.send c)) := by
    simp [act, State.call, hc]
  have hs₂ : step sfd { s.call (.recv fd (s.table.files fd) (.data bytes)) with
      point := .send fd (fill bytes) } (.send (p.send c)) = some (({ s with
        log := s.log ++ p.calls fd c } : State).next) := by
    simp [step, State.call, State.next, hc, Pass.calls, hres]
  have hsh := h.kept.shows.serve p fd c
  simp only [Pass.leaves, hres, Bool.false_eq_true, if_false] at hsh
  have hk : Kept sfd ({ s with log := s.log ++ p.calls fd c } : State).next (S.serve p fd c) :=
    ⟨h.kept.listed, hsh⟩
  exact ⟨({ s with log := s.log ++ p.calls fd c } : State).next,
    ⟨rfl, hk, h.revents, hl, fun hm => h.behind (List.mem_cons_of_mem _ hm)⟩,
    fun s' => (walk_dispatch h hr s').trans ((ends_of_step ha₁ hs₁).trans (ends_of_step ha₂ hs₂))⟩

/-- The connection has ended or failed, and is closed. -/
theorem walk_stop (h : Walk sfd p s (fd :: l) S) (hr : fd ∈ p.ready)
    (hS : S.table.files fd = some c) (hres : ∀ bytes, p.recv c ≠ .data bytes) :
    ∃ t, Walk sfd p t l (S.serve p fd c) ∧ ∀ s', Ends sfd p s s' ↔ Ends sfd p t s' := by
  have hc : s.table.files fd = some c := h.kept.shows.table ▸ hS
  obtain ⟨e, hi, he, hl, hne, -⟩ := h.current
  have hlv := Pass.calls_of_stop fd hres
  have ha₁ : act p { s with point := .recv fd } = some (.recv (p.recv c)) := by simp [act, hc]
  have hs₁ : step sfd { s with point := .recv fd } (.recv (p.recv c)) =
      some { s.call (.recv fd (s.table.files fd) (p.recv c)) with
        fds := s.fds.eraseIdx s.iter, point := .close fd } := by
    cases hp : p.recv c with
    | data bytes => exact absurd hp (hres bytes)
    | eof | again | fail => simp [step, Table.CanRecv, State.call]
  have hs₂ : step sfd { s.call (.recv fd (s.table.files fd) (p.recv c)) with
      fds := s.fds.eraseIdx s.iter, point := .close fd } .close =
      some { s with
        table := s.table.close fd, fds := s.fds.eraseIdx s.iter, point := .loop
        log := s.log ++ p.calls fd c } := by
    simp [step, State.call, hc, hlv.2]
  have hsh := h.kept.shows.serve p fd c
  simp only [hlv.1, if_true] at hsh
  obtain ⟨hlt, -⟩ := List.getElem?_eq_some_iff.mp hi
  refine ⟨_, ⟨rfl, ⟨?_, hsh⟩, fun x hx => h.revents x (List.mem_of_mem_eraseIdx hx), ?_,
    fun hm => h.behind (List.mem_cons_of_mem _ hm)⟩, fun s' =>
      (walk_dispatch h hr s').trans ((ends_of_step ha₁ hs₁).trans (ends_of_step rfl hs₂))⟩
  · subst he
    exact h.kept.listed.close hi hne
  · show numbers ((s.fds.eraseIdx s.iter).drop s.iter) = l
    rw [drop_eraseIdx hlt, hl]

/-- A number under which nothing can be received. -/
theorem walk_refuse (h : Walk sfd p s (fd :: l) S) (hr : fd ∈ p.ready)
    (hS : S.table.files fd = some c) (hfit : ¬ (p.recv c).Fits) (s' : State) :
    ¬ Ends sfd p s s' := by
  have hc : s.table.files fd = some c := h.kept.shows.table ▸ hS
  rw [walk_dispatch h hr]
  have ha : act p { s with point := .recv fd } = some (.recv (p.recv c)) := by simp [act, hc]
  have hcan : ¬ s.table.CanRecv fd (p.recv c) := mt (Table.canRecv_iff hc).mp hfit
  have hs : step sfd { s with point := .recv fd } (.recv (p.recv c)) = none := by
    simp [step, hcan]
  exact (eventLoop sfd).not_ends ha hs

theorem walks (sfd : Fd) (p : Pass) : Service.Walks p (Ends sfd p) (Walk sfd p) (Head sfd) where
  stop := walk_nil
  conn h := by
    obtain ⟨-, -, -, -, -, c, -, hS⟩ := h.current
    exact ⟨c, hS⟩
  skip := walk_skip
  data := walk_data
  leave := walk_stop
  refuse := walk_refuse

/-! ## The listening socket -/

/-- The walk is at its first entry. -/
structure First (sfd : Fd) (p : Pass) (s : State) (S : Service) : Prop where
  point : s.point = .loop
  kept : Kept sfd s S
  revents : ∀ e ∈ s.fds, e.revents = decide (e.fd ∈ p.ready)
  iter : s.iter = 0
  ready : ∀ fd ∈ p.ready, s.table.Open sfd fd

/-- Behind the listening socket the walk is as it has to be. -/
theorem Kept.behind (h : Kept sfd s S) (hp : s.point = .loop) (hi : s.iter = 1)
    (hev : ∀ e ∈ s.fds, e.revents = decide (e.fd ∈ p.ready))
    (hr : ∀ fd ∈ p.ready, s.table.Open sfd fd) :
    ∃ l, Walk sfd p s l S ∧ l.Nodup ∧ ∀ fd ∈ p.ready, fd ∈ l ↔ fd ≠ sfd := by
  obtain ⟨l, hl⟩ := List.head?_eq_some_iff.mp h.listed.first
  have hnd := h.listed.nodup
  rw [hl, List.nodup_cons] at hnd
  have hrest : numbers (s.fds.drop s.iter) = l := by
    rw [numbers, List.map_drop, hi, ← numbers, hl]
    rfl
  refine ⟨l, ⟨hp, h, hev, hrest, hnd.1⟩, hnd.2, fun fd hfd => ?_⟩
  have hm := (h.listed.mem fd).mpr (hr fd hfd)
  rw [hl, List.mem_cons] at hm
  constructor
  · rintro hfl rfl
    exact hnd.1 hfl
  · exact hm.resolve_left

theorem First.entry (h : First sfd p s S) :
    ∃ e, s.fds[s.iter]? = some e ∧ e.fd = sfd ∧ e.revents = decide (sfd ∈ p.ready) := by
  obtain ⟨l, hl⟩ := List.head?_eq_some_iff.mp h.kept.listed.first
  cases hf : s.fds with
  | nil => simp [hf, numbers] at hl
  | cons e es =>
    rw [hf] at hl
    obtain ⟨rfl, -⟩ : e.fd = sfd ∧ numbers es = l := List.cons.inj hl
    exact ⟨e, by rw [h.iter]; rfl, rfl, h.revents e (by simp [hf])⟩

theorem First.dispatch (h : First sfd p s S) (hr : sfd ∈ p.ready) (s' : State) :
    Ends sfd p s s' ↔ Ends sfd p { s with point := .accept } s' := by
  obtain ⟨e, hi, he, hev⟩ := h.entry
  have ha : act p s = some .dispatch := by simp [act, h.point]
  have hs : step sfd s .dispatch = some { s with point := .accept } := by
    simp [step, h.point, hi, hev, he, hr]
  exact ends_of_step ha hs

theorem first_step (h : First sfd p s S) (hg : S.CanGreet sfd (fun _ => True) p) :
    ∃ t l, Walk sfd p t l (S.first sfd p) ∧ l.Nodup ∧ (∀ fd ∈ p.ready, fd ∈ l ↔ fd ≠ sfd) ∧
      ∀ s', Ends sfd p s s' ↔ Ends sfd p t s' := by
  unfold Service.first
  split
  · rename_i hr
    have ha : act p { s with point := .accept } = some (.accept p.accept) := rfl
    cases hacc : p.accept with
    | none =>
      rw [hacc] at ha
      have hs : step sfd { s with point := .accept } (.accept none) =
          some (s.call (.accept none)).next := rfl
      have hk : Kept sfd (s.call (.accept none)).next (S.greet none) :=
        ⟨h.kept.listed, h.kept.shows.greet_none⟩
      obtain ⟨l, hw, hnd, hm⟩ := hk.behind rfl (congrArg (· + 1) h.iter) h.revents h.ready
      exact ⟨_, l, hw, hnd, hm, fun s' => (h.dispatch hr s').trans (ends_of_step ha hs)⟩
    | some cfd =>
      rw [hacc] at ha
      obtain ⟨hfree, hne, -⟩ := hg hr cfd hacc
      have hfree' : s.table.files cfd = none := by rw [h.kept.shows.table, hfree]
      have hs : step sfd { s with point := .accept } (.accept (some cfd)) =
          some ({ (s.call (.accept (some cfd))) with
            table := s.table.accept cfd, fds := s.fds ++ [⟨cfd, false⟩] } : State).next := by
        simp [step, State.call, State.next, hfree', hne]
      have hk : Kept sfd ({ (s.call (.accept (some cfd))) with
          table := s.table.accept cfd, fds := s.fds ++ [⟨cfd, false⟩] } : State).next
          (S.greet (some cfd)) :=
        ⟨h.kept.listed.accept hfree' hne, h.kept.shows.greet cfd⟩
      -- the new client was not there when `poll` looked
      have hnew : cfd ∉ p.ready := fun hm => by
        rcases h.ready cfd hm with e | ho
        · exact hne e
        · simp [hfree'] at ho
      obtain ⟨l, hw, hnd, hm⟩ := hk.behind rfl (congrArg (· + 1) h.iter)
        (List.forall_mem_append.mpr ⟨h.revents, by simp [hnew]⟩)
        fun fd hfd => Table.open_accept.mpr (.inr (h.ready fd hfd))
      exact ⟨_, l, hw, hnd, hm, fun s' => (h.dispatch hr s').trans (ends_of_step ha hs)⟩
  · rename_i hr
    obtain ⟨e, hi, he, hev⟩ := h.entry
    have ha : act p s = some .dispatch := by simp [act, h.point]
    have hs : step sfd s .dispatch = some s.next := by
      simp [step, h.point, hi, hev, hr]
    have hk : Kept sfd s.next S := ⟨h.kept.listed, h.kept.shows⟩
    obtain ⟨l, hw, hnd, hm⟩ := hk.behind rfl (congrArg (· + 1) h.iter) h.revents h.ready
    exact ⟨_, l, hw, hnd, hm, fun s' => ends_of_step ha hs⟩

/-- No connection comes in under a number that is in use. -/
theorem first_stuck (h : First sfd p s S) (hg : ¬ S.CanGreet sfd (fun _ => True) p) (s' : State) :
    ¬ Ends sfd p s s' := by
  unfold Service.CanGreet at hg
  push Not at hg
  obtain ⟨hr, cfd, hacc, hno⟩ := hg
  rw [h.dispatch hr]
  have ha : act p { s with point := .accept } = some (.accept (some cfd)) := by simp [act, hacc]
  have hbusy : ¬ (s.table.files cfd = none ∧ cfd ≠ sfd) := fun hfree =>
    hno (h.kept.shows.table ▸ hfree.1) hfree.2
  have hs : step sfd { s with point := .accept } (.accept (some cfd)) = none := by
    simp [step, hbusy]
  exact (eventLoop sfd).not_ends ha hs

end Pass

/-! ## Pass by pass -/

/-- The state in which a pass starts. -/
def State.begin (s : State) (ready : List Fd) : State :=
  { s with
    fds := s.fds.map fun p => { p with revents := ready.contains p.fd }
    iter := 0, point := .loop }

section Head

variable {sfd : Fd} {p : Pass} {s s' : State} {S : Service}

theorem numbers_begin (s : State) (ready : List Fd) :
    numbers (s.begin ready).fds = numbers s.fds := by
  simp [numbers, State.begin, Function.comp_def]

theorem Head.begins (h : Head sfd s S) :
    step sfd s (.poll p.ready) = some (s.begin p.ready) := by
  simp only [step, h.point]
  rfl

theorem Head.watches_iff (h : Head sfd s S) (fd : Fd) :
    (eventLoop sfd).watches s fd ↔ S.table.Open sfd fd := by
  rw [← h.kept.shows.table]
  exact h.kept.listed.mem fd

theorem Head.first (h : Head sfd s S) (hr : ∀ fd ∈ p.ready, S.table.Open sfd fd) :
    First sfd p (s.begin p.ready) S where
  point := rfl
  kept := by
    have hl := h.kept.listed
    refine ⟨⟨?_, ?_, ?_, hl.free⟩, h.kept.shows⟩
    · rw [numbers_begin]
      exact hl.nodup
    · rw [numbers_begin]
      exact hl.mem
    · rw [numbers_begin]
      exact hl.first
  revents e he := by
    obtain ⟨x, -, rfl⟩ := List.mem_map.mp he
    exact List.contains_eq_mem ..
  iter := rfl
  ready := h.kept.shows.table ▸ hr

theorem Head.pass (h : Head sfd s S) :
    ((∃ s', (eventLoop sfd).Serves p s s') ↔ S.Feasible sfd (fun _ => True) p) ∧
      ∀ s', (eventLoop sfd).Serves p s s' → Head sfd s' (S.pass sfd p) := by
  have hfree : S.table.files sfd = none := h.kept.shows.table ▸ h.kept.listed.free
  exact EventLoop.serves_of_walk h.watches_iff (fun _ => h.begins) (walks sfd p)
    (fun hr => first_step (h.first hr)) (fun hr => first_stuck (h.first hr)) hfree

end Head

/-- **The poll server does what a pass is.** -/
theorem performs (sfd : Fd) :
    (eventLoop sfd).Performs sfd (fun _ => True) (fun _ => True) (Head sfd) where
  start hp := ⟨hp, listed_init sfd, Service.shows_empty⟩
  timeout {s s' S} h hs := by
    have hs' : step sfd s .pollTimeout = some s' := hs
    cases outcome_of_step hs' with
    | timeout => exact h
  feasible _ h := h.pass.1
  pass _ h hs := h.pass.2 _ hs

end PracticeCode.PollServer
