import PracticeCode.MultiplexClient.Epoll

/-!
# The poll client inside the epoll client

What the poll client does, as long as no `recv` of it fails, the epoll client without `etMode` can
do too, call for call, but for its calls of `epoll_ctl` (`epollClient_of_pollClient`).  The events
come in the order of the vector then.  Only the failed `recv` makes a difference: the poll client
keeps the socket.
-/

namespace PracticeCode.MultiplexClient.Epoll

open Lib Linux

/-- A call other than `epoll_ctl`. -/
def socketCall : Call → Bool
  | .ctlAdd .. | .ctlDel .. => false
  | _ => true

theorem filter_call {log : List Call} {x : Call} (hx : socketCall x = true) :
    (log ++ [x]).filter socketCall = log.filter socketCall ++ [x] := by
  simp [List.filter_cons_of_pos hx]

theorem filter_ctl {log : List Call} {x : Call} (hx : socketCall x = false) :
    (log ++ [x]).filter socketCall = log.filter socketCall := by
  simp [hx]

/-- What `epoll_wait` reports where `poll` fills an element. -/
def ofPoll (p : PollFd) : Event := ⟨p.fd, p.pollin, p.pollout⟩

/-- The rounds of the first loop that remain. -/
def left : MultiplexClient.Point ℕ → ℕ
  | .socket n | .connect _ n => n
  | _ => 0

/-- The clients are at the same point of their walks. -/
inductive PointTwin (evs : List Event) (regs : List PollFd) : MultiplexClient.Point ℕ → Point → Prop
  | socket {n} : PointTwin evs regs (.socket n) (.socket n)
  | connect {fd n} : PointTwin evs regs (.connect fd n) (.connect fd n)
  | wait : PointTwin evs regs .wait .wait
  | write {i} : evs = regs.map ofPoll → PointTwin evs regs (.write i) (.write i)
  | send {i} : evs = regs.map ofPoll → PointTwin evs regs (.send i) (.send i)
  | read {i j} : evs.drop j = (regs.drop i).map ofPoll → PointTwin evs regs (.read i) (.read j)
  | close {i j e} : evs[j]? = some e → evs.drop (j + 1) = (regs.drop i).map ofPoll →
      PointTwin evs regs (.close e.fd i) (.close j)
  /-- No socket is left, and `epoll_wait` reports nothing. -/
  | idle {p} : regs = [] → p = .write 0 ∨ p = .read 0 → PointTwin evs regs p .wait
  | exited : PointTwin evs regs .exited .exited

structure Twin (t : MultiplexClient.State (List PollFd) ℕ) (s : State) : Prop where
  table : s.table = t.table
  log : s.log.filter socketCall = t.log
  interest : s.interest = t.regs.map PollFd.fd
  few : t.regs.length + left t.point ≤ CLIENT_NUM
  point : PointTwin s.evs t.regs t.point s.point

section Points

variable {evs : List Event} {regs : List PollFd} {q : Point} {i n : ℕ} {fd : Fd} {e : PollFd}

theorem PointTwin.of_socket (h : PointTwin evs regs (.socket n) q) : q = .socket n := by
  cases h with
  | socket => rfl
  | idle _ hp => simp at hp

theorem PointTwin.of_connect (h : PointTwin evs regs (.connect fd n) q) : q = .connect fd n := by
  cases h with
  | connect => rfl
  | idle _ hp => simp at hp

theorem PointTwin.of_wait (h : PointTwin evs regs .wait q) : q = .wait := by
  cases h with
  | wait => rfl
  | idle _ hp => rfl

theorem PointTwin.of_write (h : PointTwin evs regs (.write i) q) :
    q = .write i ∧ evs = regs.map ofPoll ∨ regs = [] ∧ i = 0 ∧ q = .wait := by
  cases h with
  | write he => exact .inl ⟨rfl, he⟩
  | idle hr hp => exact .inr ⟨hr, by simpa using hp, rfl⟩

theorem PointTwin.of_send (h : PointTwin evs regs (.send i) q) :
    q = .send i ∧ evs = regs.map ofPoll := by
  cases h with
  | send he => exact ⟨rfl, he⟩
  | idle _ hp => simp at hp

theorem PointTwin.of_read (h : PointTwin evs regs (.read i) q) :
    (∃ j, q = .read j ∧ evs.drop j = (regs.drop i).map ofPoll) ∨ regs = [] ∧ i = 0 ∧ q = .wait := by
  cases h with
  | read he => exact .inl ⟨_, rfl, he⟩
  | idle hr hp => exact .inr ⟨hr, by simpa using hp, rfl⟩

theorem PointTwin.of_close (h : PointTwin evs regs (.close fd i) q) : ∃ j e, q = .close j ∧
    evs[j]? = some e ∧ e.fd = fd ∧ evs.drop (j + 1) = (regs.drop i).map ofPoll := by
  cases h with
  | close he hd => exact ⟨_, _, rfl, he, rfl, hd⟩
  | idle _ hp => simp at hp

/-- The event where the vector has an element. -/
theorem event_of_drop {j : ℕ} (h : evs.drop j = (regs.drop i).map ofPoll) (he : regs[i]? = some e) :
    evs[j]? = some (ofPoll e) ∧ evs.drop (j + 1) = (regs.drop (i + 1)).map ofPoll := by
  rw [drop_of_getElem? he, List.map_cons] at h
  exact ⟨getElem?_of_drop h, drop_succ_of_drop h⟩

end Points

section Step

variable {inherited : List Fd} {t t' : MultiplexClient.State (List PollFd) ℕ} {s : State}
  {a : MultiplexClient.Act} {fd : Fd}

theorem twin_init : Twin (MultiplexClient.init pollRegistry) init where
  table := rfl
  log := rfl
  interest := rfl
  few := le_refl _
  point := .socket

theorem Twin.lowest_iff (h : Twin t s) : s.lowest inherited fd ↔ t.lowest inherited fd := by
  unfold State.lowest State.taken MultiplexClient.State.lowest MultiplexClient.State.taken
  rw [h.table]

/-- One step of the epoll client goes with one of the poll client. -/
theorem exists_run {b : Act} {s' : State} (h : Twin t s')
    (hs : PollClient false inherited s b = some s') :
    ∃ bs s', Run (PollClient false inherited) free s bs s' ∧ Twin t s' :=
  ⟨[b], s', .cons trivial hs .nil, h⟩

theorem Twin.goto (h : Twin t s) {p : MultiplexClient.Point ℕ} {q : Point}
    (hl : left p ≤ left t.point) (hq : PointTwin s.evs t.regs p q) :
    Twin { t with point := p } { s with point := q } where
  table := h.table
  log := h.log
  interest := h.interest
  few := (Nat.add_le_add_left hl _).trans h.few
  point := hq

theorem Twin.call (h : Twin t s) {x : Call} {p : MultiplexClient.Point ℕ} {q : Point}
    (hx : socketCall x = true) (hl : left p ≤ left t.point)
    (hq : PointTwin s.evs t.regs p q) : Twin (t.call x p) (s.call x q) where
  table := h.table
  log := by
    rw [State.call, filter_call hx, h.log]
    rfl
  interest := h.interest
  few := (Nat.add_le_add_left hl _).trans h.few
  point := hq

theorem Twin.socket (h : Twin t s) (hI : MultiplexClient.Inv t) {n : ℕ}
    (hp : t.point = .socket (n + 1)) (hl : t.lowest inherited fd) :
    ∃ bs s', Run (PollClient false inherited) free s bs s' ∧
      Twin ⟨t.table.accept fd, t.regs ++ [⟨fd, false, false⟩], .connect fd n,
        t.log ++ [.socket (some fd)]⟩ s' := by
  have hq : s.point = .socket (n + 1) := (hp ▸ h.point).of_socket
  have hnew : fd ∉ s.interest := by
    rw [h.interest, hI.mem]
    exact fun hm => hl.1 (.inr hm.1)
  have hopen : ((s.table.accept fd).files fd).isSome := isSome_accept.mpr (.inl rfl)
  have hs₁ : PollClient false inherited s (.socket (some fd)) =
      some { (s.call (.socket (some fd)) (.ctlAdd fd n)) with table := s.table.accept fd } := by
    simp only [PollClient, hq, if_pos (h.lowest_iff.mpr hl)]
  have hs₂ : PollClient false inherited
      { (s.call (.socket (some fd)) (.ctlAdd fd n)) with table := s.table.accept fd }
      (.ctlAdd true) = some ⟨s.table.accept fd, s.interest ++ [fd], s.evs, .connect fd n,
        s.log ++ [.socket (some fd)] ++ [.ctlAdd fd ((s.table.accept fd).files fd) true]⟩ := by
    simp only [PollClient, State.call, if_true]
    exact if_pos ⟨hopen, hnew⟩
  refine ⟨_, _, .cons trivial hs₁ (.cons trivial hs₂ .nil), ?_⟩
  have hfew := h.few
  rw [hp] at hfew
  refine ⟨congrArg (·.accept fd) h.table, ?_, ?_, ?_, .connect⟩
  · rw [filter_ctl rfl, filter_call rfl, h.log]
  · simp [h.interest]
  · simp only [left, List.length_append, List.length_singleton] at hfew ⊢
    omega

theorem Twin.wait (h : Twin t s) (hI : MultiplexClient.Inv t) {rs ws : List Fd}
    {regs : List PollFd} (hp : t.point = .wait)
    (hr : pollRegistry.report t.regs rs ws = some regs) :
    ∃ bs s', Run (PollClient false inherited) free s bs s' ∧
      Twin { t with regs := regs, point := .write 0 } s' := by
  have hq : s.point = .wait := (hp ▸ h.point).of_wait
  simp only [pollRegistry, Option.ite_none_right_eq_some, Option.some.injEq] at hr
  obtain ⟨-, rfl⟩ := hr
  have hfd : (t.regs.map fun p => (⟨p.fd, rs.contains p.fd, ws.contains p.fd⟩ : PollFd)).map
      PollFd.fd = t.regs.map PollFd.fd := by
    simp [Function.comp_def]
  have hfew := h.few
  rw [hp] at hfew
  by_cases hnil : t.regs = []
  · refine ⟨[], s, .nil, h.table, h.log, h.interest.trans hfd.symm, ?_, ?_⟩
    · simpa [left] using hfew
    · rw [hq]
      exact .idle (by simp [hnil]) (.inl rfl)
  · generalize hregs : (t.regs.map fun p => (⟨p.fd, rs.contains p.fd, ws.contains p.fd⟩ : PollFd)) =
      regs at hfd ⊢
    have hevs : (regs.map ofPoll).map Event.fd = t.regs.map PollFd.fd := by
      rw [← hfd, List.map_map]
      rfl
    have hne : regs.map ofPoll ≠ [] := by
      rw [← hregs]
      simpa using hnil
    have hc : s.CanWait (regs.map ofPoll) := by
      refine ⟨?_, ?_, fun e he => ?_⟩
      · rw [← hregs, List.length_map, List.length_map]
        exact hfew.trans (by decide)
      · rw [hevs]
        exact hI.nodup
      · rw [h.interest, ← hevs]
        exact List.mem_map_of_mem he
    have hs : PollClient false inherited s (.wait (regs.map ofPoll)) =
        some { s with evs := regs.map ofPoll, point := .write 0 } := by
      simp only [PollClient, hq, if_pos hc, if_neg hne]
    refine ⟨_, _, .cons trivial hs .nil, h.table, h.log, h.interest.trans hfd.symm, ?_, .write rfl⟩
    rw [← hregs]
    simpa [left] using hfew

/-- Where the first walk has an element, the other client has an event. -/
theorem Twin.at_write (h : Twin t s) {i : ℕ} (hp : t.point = .write i)
    (hi : pollRegistry.fd t.regs i = some fd) : ∃ e, t.regs[i]? = some e ∧ e.fd = fd ∧
      s.point = .write i ∧ s.evs = t.regs.map ofPoll ∧ s.evs[i]? = some (ofPoll e) := by
  obtain ⟨e, he, hfd⟩ := Option.map_eq_some_iff.mp hi
  rcases (hp ▸ h.point).of_write with ⟨hq, hev⟩ | ⟨hnil, -, -⟩
  · refine ⟨e, he, hfd, hq, hev, ?_⟩
    rw [hev, List.getElem?_map, he]
    rfl
  · rw [hnil] at he
    cases he

theorem Twin.at_read (h : Twin t s) {i : ℕ} (hp : t.point = .read i)
    (hi : pollRegistry.fd t.regs i = some fd) : ∃ e j, t.regs[i]? = some e ∧ e.fd = fd ∧
      s.point = .read j ∧ s.evs[j]? = some (ofPoll e) ∧
      s.evs.drop (j + 1) = (t.regs.drop (i + 1)).map ofPoll := by
  obtain ⟨e, he, hfd⟩ := Option.map_eq_some_iff.mp hi
  rcases (hp ▸ h.point).of_read with ⟨j, hq, hd⟩ | ⟨hnil, -, -⟩
  · exact ⟨e, j, he, hfd, hq, event_of_drop hd he⟩
  · rw [hnil] at he
    cases he

/-- The end of a stream: the other client makes its call of `epoll_ctl` before the `close`. -/
theorem Twin.eof (h : Twin t s) (hI : MultiplexClient.Inv t) {i j : ℕ} {e : PollFd}
    (he : t.regs[i]? = some e) (hr : e.pollin = true)
    (hq : s.point = .read j) (hget : s.evs[j]? = some (ofPoll e))
    (hd : s.evs.drop (j + 1) = (t.regs.drop (i + 1)).map ofPoll) :
    ∃ bs s', Run (PollClient false inherited) free s bs s' ∧
      Twin ⟨t.table, t.regs.eraseIdx i, .close e.fd i,
        t.log ++ [.recv e.fd (t.table.files e.fd) .eof]⟩ s' := by
  obtain ⟨hlt, rfl⟩ := List.getElem?_eq_some_iff.mp he
  have hopen : (s.table.files t.regs[i].fd).isSome := by
    rw [h.table]
    exact hI.isSome (i := i) (by simp only [pollRegistry, he]; rfl)
  have hin : t.regs[i].fd ∈ s.interest := by
    rw [h.interest]
    exact List.mem_map_of_mem (List.getElem_mem hlt)
  have hs₁ : PollClient false inherited s (.recv .eof) =
      some (s.call (.recv t.regs[i].fd (s.table.files t.regs[i].fd) .eof) (.ctlDel j)) := by
    simp [PollClient, hq, hget, ofPoll, hr, Table.CanRecv, afterRecv]
  have hs₂ : PollClient false inherited
      (s.call (.recv t.regs[i].fd (s.table.files t.regs[i].fd) .eof) (.ctlDel j)) .ctlDel =
      some ⟨s.table, s.interest.erase t.regs[i].fd, s.evs, .close j,
        s.log ++ [.recv t.regs[i].fd (s.table.files t.regs[i].fd) .eof] ++
          [.ctlDel t.regs[i].fd (s.table.files t.regs[i].fd) true]⟩ := by
    simp [PollClient, State.call, State.fd, hget, ofPoll, hopen, hin]
  refine ⟨_, _, .cons trivial hs₁ (.cons trivial hs₂ .nil), h.table, ?_, ?_, ?_, ?_⟩
  · rw [filter_ctl rfl, filter_call rfl, h.log, h.table]
  · rw [map_eraseIdx hI.nodup hlt, h.interest]
  · have hfew := h.few
    rw [List.length_eraseIdx_of_lt hlt]
    simp only [left]
    omega
  · exact .close (e := ofPoll t.regs[i]) hget (by rw [hd, drop_eraseIdx hlt])

/-- **The step lemma.** -/
theorem twin_step (h : Twin t s) (hI : MultiplexClient.Inv t) (hg : a ≠ .recv .fail)
    (hs : MultiplexClient.PollClient inherited t a = some t') :
    ∃ bs s', Run (PollClient false inherited) free s bs s' ∧ Twin t' s' := by
  cases outcome_of_client hs with
  | @socketFail n hp =>
    have hq := (hp ▸ h.point).of_socket
    refine exists_run (b := .socket none) (h.call rfl (by simp [hp, left]) .socket) ?_
    simp only [PollClient, hq]
  | socket hp hl hadd =>
    obtain rfl := Option.some.inj hadd
    exact h.socket hI hp hl
  | overflow hp hadd => cases hadd
  | @connect fd n hp =>
    have hq := (hp ▸ h.point).of_connect
    refine exists_run (b := .connect) (h.call rfl (by simp [hp, left]) .socket) ?_
    simp only [PollClient, hq, h.table]
  | opened hp =>
    have hq := (hp ▸ h.point).of_socket
    refine exists_run (b := .dispatch) (h.goto (by simp [left]) .wait) ?_
    simp only [PollClient, hq]
  | wait hp hr => exact h.wait hI hp hr
  | timeout _ hl => cases hl
  | waitFail hp =>
    have hq := (hp ▸ h.point).of_wait
    refine exists_run (b := .waitFail) (h.goto (by simp [left]) .exited) ?_
    simp only [PollClient, hq]
  | @writeEnd i hp hi =>
    have hnone : t.regs[i]? = none := Option.map_eq_none_iff.mp hi
    rcases (hp ▸ h.point).of_write with ⟨hq, he⟩ | ⟨hnil, rfl, hq⟩
    · have hev : s.evs[i]? = none := by rw [he, List.getElem?_map, hnone]; rfl
      refine exists_run (b := .dispatch)
        (h.goto (by simp [left]) (.read (j := 0) (by simp [pollRegistry, he]))) ?_
      simp only [PollClient, hq, hev]
    · refine ⟨[], s, .nil, ?_⟩
      have hg := h.goto (p := .read 0) (by simp [left]) (.idle hnil (.inr rfl))
      rw [← hq] at hg
      exact hg
  | @writeSkip i fd hp hi hw =>
    obtain ⟨e, he, rfl, hq, hev, hget⟩ := h.at_write hp hi
    simp only [pollRegistry, he, Option.any_some] at hw
    refine exists_run (b := .dispatch)
      (h.goto (by simp [left]) (.write (i := i + 1) hev)) ?_
    simp [PollClient, hq, hget, ofPoll, hw]
  | @readEnd i hp hi =>
    have hnone : t.regs[i]? = none := Option.map_eq_none_iff.mp hi
    rcases (hp ▸ h.point).of_read with ⟨j, hq, hd⟩ | ⟨hnil, rfl, hq⟩
    · have hev : s.evs[j]? = none := by
        rw [List.drop_of_length_le (List.getElem?_eq_none_iff.mp hnone)] at hd
        exact List.getElem?_eq_none_iff.mpr (List.drop_eq_nil_iff.mp hd)
      refine exists_run (b := .dispatch) (h.goto (by simp [left]) .wait) ?_
      simp only [PollClient, hq, hev]
    · refine ⟨[], s, .nil, ?_⟩
      have hg := h.goto (p := .wait) (by simp [left]) .wait
      rw [← hq] at hg
      exact hg
  | @readSkip i fd hp hi hr =>
    obtain ⟨e, j, he, rfl, hq, hget, hd⟩ := h.at_read hp hi
    simp only [pollRegistry, he, Option.any_some] at hr
    refine exists_run (b := .dispatch) (h.goto (by simp [left]) (.read hd)) ?_
    simp [PollClient, hq, hget, ofPoll, hr]
  | @getsockopt i fd res hp hi hw =>
    obtain ⟨e, he, rfl, hq, hev, hget⟩ := h.at_write hp hi
    simp only [pollRegistry, he, Option.any_some] at hw
    by_cases hres : res = some 0
    · rw [if_pos hres]
      refine exists_run (b := .getsockopt res) (h.call rfl (by simp [left]) (.send hev)) ?_
      simp [PollClient, hq, hget, ofPoll, hw, hres, h.table]
    · rw [if_neg hres]
      refine exists_run (b := .getsockopt res)
        (h.call rfl (by simp [left]) (.write (i := i + 1) hev)) ?_
      simp [PollClient, hq, hget, ofPoll, hw, hres, h.table]
  | @send i fd res hp hi =>
    obtain ⟨hq, hev⟩ := (hp ▸ h.point).of_send
    obtain ⟨e, he, rfl⟩ := Option.map_eq_some_iff.mp hi
    refine exists_run (b := .send res)
      (h.call rfl (by simp [left]) (.write (i := i + 1) hev)) ?_
    simp [PollClient, hq, State.fd, hev, he, ofPoll, h.table]
  | @eof i fd hp hi hr =>
    obtain ⟨e, j, he, rfl, hq, hget, hd⟩ := h.at_read hp hi
    simp only [pollRegistry, he, Option.any_some] at hr
    exact h.eof hI he hr hq hget hd
  | @recv i fd res hp hi hr hcan hne =>
    obtain ⟨e, j, he, rfl, hq, hget, hd⟩ := h.at_read hp hi
    simp only [pollRegistry, he, Option.any_some] at hr
    have hnext : afterRecv false j res = .read (j + 1) := by
      cases res with
      | data chunk | again => rfl
      | eof => exact absurd rfl hne
      | fail => exact absurd rfl hg
    refine exists_run (b := .recv res) (h.call rfl (by simp [left]) (.read hd)) ?_
    simp [PollClient, hq, hget, ofPoll, hr, hcan, hnext, h.table]
  | @close fd i hp =>
    obtain ⟨j, e, hq, he, rfl, hd⟩ := (hp ▸ h.point).of_close
    have hnot : e.fd ∉ s.interest := by
      rw [h.interest, hI.mem]
      exact fun hm => hm.2 i hp
    have hs' : PollClient false inherited s .close = some ⟨s.table.close e.fd, s.interest, s.evs,
        .read (j + 1), s.log ++ [.close e.fd (s.table.files e.fd)]⟩ := by
      simp [PollClient, hq, State.fd, he, State.call, List.erase_of_not_mem hnot]
    have htwin : Twin ⟨t.table.close e.fd, t.regs, .read i,
        t.log ++ [.close e.fd (t.table.files e.fd)]⟩ ⟨s.table.close e.fd, s.interest, s.evs,
        .read (j + 1), s.log ++ [.close e.fd (s.table.files e.fd)]⟩ :=
      ⟨congrArg (·.close e.fd) h.table, by rw [filter_call rfl, h.log, h.table], h.interest,
        (Nat.add_le_add_left (Nat.zero_le _) _).trans h.few, .read hd⟩
    exact exists_run htwin hs'

end Step

section Runs

variable {inherited : List Fd} {t : MultiplexClient.State (List PollFd) ℕ}
  {as : List MultiplexClient.Act}

/-- **The poll client inside the epoll client.**  Every run of the poll client in which no `recv`
fails but with `EAGAIN` is one of the epoll client without `etMode`: the same calls with the same
results, but for `epoll_ctl`, the same sockets, and the same sockets to wait for.  The number of the
epoll instance is one of `inherited`, so that both are given the same numbers. -/
theorem epollClient_of_pollClient
    (h : Run (MultiplexClient.PollClient inherited) (fun _ a => a ≠ .recv .fail)
      (MultiplexClient.init pollRegistry) as t) :
    ∃ bs s, Run (PollClient false inherited) free init bs s ∧ s.log.filter socketCall = t.log ∧
      s.table = t.table ∧ s.interest = t.regs.map PollFd.fd ∧
      (t.point = .wait → s.point = .wait) := by
  obtain ⟨bs, s, hr, htwin, -⟩ := h.simulate_runs
    (fun t s => Twin t s ∧ MultiplexClient.Inv t) ⟨twin_init, MultiplexClient.inv_init⟩
    fun t a t' s hR hg hs => by
      obtain ⟨bs, s', hr, htwin⟩ := twin_step hR.1 hR.2 hg hs
      exact ⟨bs, s', hr, htwin, MultiplexClient.inv_step hR.2 hs⟩
  exact ⟨bs, s, hr, htwin.log, htwin.table, htwin.interest, fun hp => (hp ▸ htwin.point).of_wait⟩

/-- The first socket becomes writable, and the second one is closed by the server. -/
def greetAndClose : List MultiplexClient.Act :=
  [.socket (some 4), .connect, .socket none, .socket (some 5), .connect, .socket none, .socket none,
    .dispatch, .wait [5] [4], .getsockopt (some 0), .send (some 1024), .dispatch, .dispatch,
    .dispatch, .recv .eof, .close, .dispatch]

theorem epollClient_of_pollClient_two : ∃ t bs s,
    Run (MultiplexClient.PollClient [0, 1, 2, 3]) (fun _ a => a ≠ .recv .fail)
      (MultiplexClient.init pollRegistry) greetAndClose t ∧ t.log.length = 11 ∧
    Run (PollClient false [0, 1, 2, 3]) free init bs s ∧ s.log.filter socketCall = t.log ∧
    s.point = .wait := by
  obtain ⟨t, h, hlen, hp⟩ : ∃ t,
      Run (MultiplexClient.PollClient [0, 1, 2, 3]) (fun _ a => a ≠ .recv .fail)
        (MultiplexClient.init pollRegistry) greetAndClose t ∧ t.log.length = 11 ∧
      t.point = .wait := Run.exists_of_exec _ _ (by decide)
  obtain ⟨bs, s, hr, hlog, -, -, hq⟩ := epollClient_of_pollClient h
  exact ⟨t, bs, s, h, hlen, hr, hlog, hq hp⟩

end Runs

end PracticeCode.MultiplexClient.Epoll
