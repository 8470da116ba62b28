import PracticeCode.Lib.Cursor
import PracticeCode.NonblockingServer.Defs

/-!
# The rounds of the nonblocking server

`client_fds` is walked by position while entries are erased from it, and numbers that were closed
come back through `accept`.  An entry is erased by the step that closes it, so that the vector has
the open connections at every step (`Inv`); and what `recv` was called with in a round, followed by
what is still in front of the iterator, is the vector at the start of the round (`rest`).

`client_fds_exact`: the vector after every round, the calls of every round, and at most one `close`
for each connection.
-/

namespace PracticeCode.NonblockingServer

open Lib Linux

/-! ## What a log says -/

/-- What `recv` was called with. -/
def recvs (log : List Call) : List Fd :=
  log.filterMap fun
    | .recv fd _ _ => some fd
    | _ => none

def closes (c : Conn) : Call → Bool
  | .close _ (some d) => d == c
  | _ => false

/-- How often the connection was closed. -/
def closings (c : Conn) (log : List Call) : ℕ := log.countP (closes c)

/-! ## The invariant -/

section Step

variable {sfd : Fd} {s s' : State} {a : Act}

/-- The iterator stands at the entry whose `send` or `close` is to come. -/
def AtPoint (s : State) : Prop :=
  match s.point with
  | .send fd _ | .close fd => s.client_fds[s.iter]? = some fd
  | _ => True

/-- Each connection was closed once at most, and is then not open any more. -/
def ClosedOnce (t : Table) (log : List Call) : Prop :=
  ∀ c, closings c log ≤ 1 ∧ (0 < closings c log → c < t.made ∧ ∀ fd, t.files fd ≠ some c)

structure Inv (s : State) : Prop where
  nodup : s.client_fds.Nodup
  mem : ∀ fd, fd ∈ s.client_fds ↔ (s.table.files fd).isSome
  table : s.table.Wf
  closed : ClosedOnce s.table s.log
  aimed : ∀ fd, Call.close fd none ∉ s.log
  point : AtPoint s

theorem init_inv : Inv init where
  nodup := List.nodup_nil
  mem fd := by simp [init, Table.empty]
  table := Table.wf_empty
  closed c := by simp [init, closings]
  aimed fd h := by cases h
  point := trivial

theorem closings_append (c : Conn) (log : List Call) (call : Call) :
    closings c (log ++ [call]) = closings c log + if closes c call then 1 else 0 := by
  unfold closings
  rw [List.countP_append, List.countP_singleton]

section Closings

variable {t : Table} {log : List Call} {call : Call}

theorem ClosedOnce.other (h : ClosedOnce t log) (hc : ∀ fd target, call ≠ .close fd target) :
    ClosedOnce t (log ++ [call]) := by
  intro c
  have hcl : closes c call = false := by
    cases call with
    | close fd target => exact absurd rfl (hc fd target)
    | _ => rfl
  rw [closings_append, hcl]
  exact h c

theorem ClosedOnce.accept (h : ClosedOnce t log) (fd : Fd) : ClosedOnce (t.accept fd) log := by
  intro c
  refine ⟨(h c).1, fun hpos => ?_⟩
  obtain ⟨hlt, hne⟩ := (h c).2 hpos
  refine ⟨Nat.lt_succ_of_lt hlt, fun x hx => ?_⟩
  rw [Table.files_accept] at hx
  split at hx
  · exact ne_of_lt hlt (Option.some.inj hx).symm
  · exact hne x hx

/-- The first `close` of an open connection. -/
theorem ClosedOnce.close (h : ClosedOnce t log) (ht : t.Wf) {fd : Fd} {c : Conn}
    (hf : t.files fd = some c) : ClosedOnce (t.close fd) (log ++ [.close fd (some c)]) := by
  intro d
  obtain ⟨hle, hd⟩ := h d
  rw [closings_append]
  by_cases e : c = d
  · subst e
    have h0 : closings c log = 0 := by
      by_contra hpos
      exact (hd (Nat.pos_of_ne_zero hpos)).2 fd hf
    simp only [closes, beq_self_eq_true, if_true, h0]
    refine ⟨le_rfl, fun _ => ⟨ht.made hf, fun x hx => ?_⟩⟩
    obtain ⟨hne, hx⟩ := Table.files_close_eq_some.mp hx
    exact hne (ht.inj hx hf)
  · simp only [closes, beq_eq_false_iff_ne.mpr e, Bool.false_eq_true, if_false, add_zero]
    refine ⟨hle, fun hpos => ⟨(hd hpos).1, fun x hx => ?_⟩⟩
    exact (hd hpos).2 x (Table.files_close_eq_some.mp hx).2

end Closings

theorem aimed_call {log : List Call} {call : Call} (h : ∀ fd, Call.close fd none ∉ log)
    (hc : ∀ fd target, call ≠ .close fd target) : ∀ fd, Call.close fd none ∉ log ++ [call] := by
  intro fd hm
  rcases List.mem_append.mp hm with hm | hm
  · exact h fd hm
  · exact hc fd none (List.mem_singleton.mp hm).symm

/-- A call that closes nothing, with the table and the vector as they are. -/
theorem inv_call (h : Inv s) {call : Call} {iter : ℕ} {pt : Point}
    (hc : ∀ fd target, call ≠ .close fd target)
    (hpt : AtPoint { s.call call with iter := iter, point := pt }) :
    Inv { s.call call with iter := iter, point := pt } where
  nodup := h.nodup
  mem := h.mem
  table := h.table
  closed := h.closed.other hc
  aimed := aimed_call h.aimed hc
  point := hpt

theorem inv_accept (h : Inv s) {fd : Fd} (hfree : s.table.files fd = none) :
    Inv { (s.call (.accept (some fd))) with
      table := s.table.accept fd, client_fds := s.client_fds ++ [fd], iter := 0,
      point := .round } where
  nodup := by
    have hm : fd ∉ s.client_fds := by simp [h.mem, hfree]
    exact h.nodup.append (List.nodup_singleton fd) (List.disjoint_singleton.mpr hm)
  mem x := by
    simp only [List.mem_append, List.mem_singleton, h.mem, Table.accept, Function.update_apply]
    split
    · simp [*]
    · simp [*]
  table := h.table.accept fd
  closed := (h.closed.accept fd).other (by simp)
  aimed := aimed_call h.aimed (by simp)
  point := trivial

/-- The connection of the entry is closed for the first time, and leaves the vector. -/
theorem inv_close (h : Inv s) {fd : Fd} (hp : s.client_fds[s.iter]? = some fd) :
    Inv { (s.call (.close fd (s.table.files fd))) with
      table := s.table.close fd, client_fds := s.client_fds.eraseIdx s.iter, point := .round } := by
  obtain ⟨hi, rfl⟩ := List.getElem?_eq_some_iff.mp hp
  obtain ⟨c, hc⟩ := Option.isSome_iff_exists.mp ((h.mem _).mp (List.getElem_mem hi))
  rw [hc, ← h.nodup.erase_getElem s.iter hi]
  refine ⟨h.nodup.sublist List.erase_sublist, fun x => ?_, h.table.close _,
    h.closed.close h.table hc, fun x hm => ?_, trivial⟩
  · rw [h.nodup.mem_erase_iff, h.mem, Table.files_close]
    split <;> simp [*]
  · rcases List.mem_append.mp hm with hm | hm
    · exact h.aimed x hm
    · simp at hm

/-- **Every step keeps the vector and the open connections together.** -/
theorem inv_step (h : Inv s) (hs : step sfd s a = some s') : Inv s' := by
  have hpt := h.point
  cases outcome_of_step hs with
  | accept hp hfree => exact inv_accept h hfree
  | acceptAgain | acceptFail => exact inv_call h (by simp) trivial
  | recvData hp hi => exact inv_call h (by simp) hi
  | recvAgain hp hi => exact inv_call h (by simp) (by simp [AtPoint, State.call, hp])
  | recvStop hp hi => exact inv_call h (by simp) hi
  | send hp => exact inv_call h (by simp) trivial
  | close hp =>
    simp only [AtPoint, hp] at hpt
    exact inv_close h hpt
  | endRound => exact ⟨h.nodup, h.mem, h.table, h.closed, h.aimed, trivial⟩

/-! ## One round -/

/-- The actions of a round. -/
def inRound (_ : State) : Act → Prop
  | .accept _ | .acceptAgain | .acceptFail => False
  | _ => True

/-- What `recv` is still to be called with in this round. -/
def State.rest (s : State) : List Fd :=
  match s.point with
  | .round => s.client_fds.drop s.iter
  | .send _ _ | .close _ => s.client_fds.drop (s.iter + 1)
  | .accept | .returned => []

theorem recvs_append (log log' : List Call) : recvs (log ++ log') = recvs log ++ recvs log' :=
  List.filterMap_append ..

/-- The entry at the cursor is the first of the rest. -/
theorem State.rest_of_round {fd : Fd} (hp : s.point = .round)
    (hi : s.client_fds[s.iter]? = some fd) : s.rest = fd :: s.client_fds.drop (s.iter + 1) := by
  rw [State.rest, hp]
  exact drop_of_getElem? hi

/-- **A step of a round takes from the rest what it calls `recv` with.** -/
theorem round_step (h : Inv s) (hg : inRound s a) (hs : step sfd s a = some s') :
    ∃ calls, s'.log = s.log ++ calls ∧ recvs calls ++ s'.rest = s.rest := by
  have hpt := h.point
  cases outcome_of_step hs with
  | accept | acceptAgain | acceptFail => exact hg.elim
  | recvData hp hi | recvStop hp hi => exact ⟨[_], rfl, (State.rest_of_round hp hi).symm⟩
  | recvAgain hp hi =>
    refine ⟨[_], rfl, ?_⟩
    rw [State.rest_of_round hp hi, State.rest, State.call, hp]
    rfl
  | send hp => exact ⟨[_], rfl, by simp [State.rest, State.call, hp, recvs]⟩
  | close hp =>
    simp only [AtPoint, hp] at hpt
    obtain ⟨hi, -⟩ := List.getElem?_eq_some_iff.mp hpt
    exact ⟨[_], rfl, by simp [State.rest, State.call, hp, recvs, drop_eraseIdx hi]⟩
  | endRound hp hle => exact ⟨[], by simp, by simp [State.rest, hp, recvs, hle]⟩

theorem round_run {bs : List Act} (h : Inv s) (hr : Run (step sfd) inRound s bs s') :
    ∃ calls, s'.log = s.log ++ calls ∧ recvs calls ++ s'.rest = s.rest := by
  suffices hI : Inv s' ∧ ∃ calls, s'.log = s.log ++ calls ∧
      recvs calls ++ s'.rest = s.rest from hI.2
  refine hr.invariant (I := fun t => Inv t ∧ ∃ calls, t.log = s.log ++ calls ∧
    recvs calls ++ t.rest = s.rest) ⟨h, [], by simp, by simp [recvs]⟩ ?_
  rintro t b t' ⟨ht, calls, hlog, hrest⟩ hg hs
  obtain ⟨calls', hlog', hrest'⟩ := round_step ht hg hs
  refine ⟨inv_step ht hs, calls ++ calls', ?_, ?_⟩
  · rw [hlog', hlog, List.append_assoc]
  · rw [recvs_append, List.append_assoc, hrest', hrest]

end Step

/-! ## Whole runs -/

theorem inv_of_run {sfd : Fd} {as : List Act} {s : State} (h : Run (step sfd) free init as s) :
    Inv s :=
  h.invariant init_inv fun _ _ _ hi _ hs => inv_step hi hs

/-- A round starts at the first entry, behind the call of `accept`. -/
theorem iter_of_accept {sfd : Fd} {s s' : State} {a : Act} (hp : s.point = .accept)
    (hs : step sfd s a = some s') (hp' : s'.point = .round) : s'.iter = 0 := by
  cases outcome_of_step hs with
  | accept | acceptAgain => rfl
  | acceptFail => cases hp'
  | recvData h | recvAgain h | recvStop h | send h | close h | endRound h => simp [hp] at h

/-- **The bookkeeping of the nonblocking server.**  After every round `client_fds` has each accepted
connection that is not closed, once; in every round `recv` is called with the entries that the
vector has behind the call of `accept`, each once and in their order; and a connection is closed at
most once, and nothing else is. -/
theorem client_fds_exact {sfd : Fd} {as : List Act} {s : State}
    (h : Run (step sfd) free init as s) :
    (s.point = .accept → s.client_fds.Nodup ∧
      ∀ fd, fd ∈ s.client_fds ↔ (s.table.files fd).isSome) ∧
    (s.point = .accept → ∀ a s₁, step sfd s a = some s₁ → s₁.point = .round →
      ∀ bs t, Run (step sfd) inRound s₁ bs t → t.point = .accept →
        s₁.client_fds.Nodup ∧ ∃ calls, t.log = s₁.log ++ calls ∧ recvs calls = s₁.client_fds) ∧
    (∀ c, closings c s.log ≤ 1) ∧ ∀ fd, Call.close fd none ∉ s.log := by
  have hi := inv_of_run h
  refine ⟨fun _ => ⟨hi.nodup, hi.mem⟩, fun hp a s₁ hs hp₁ bs t hr ht => ?_,
    fun c => (hi.closed c).1, hi.aimed⟩
  have hi₁ := inv_step hi hs
  obtain ⟨calls, hlog, hrest⟩ := round_run hi₁ hr
  refine ⟨hi₁.nodup, calls, hlog, ?_⟩
  simpa [State.rest, ht, hp₁, iter_of_accept hp hs hp₁] using hrest

instance (s : State) (a : Act) : Decidable (inRound s a) := by
  induction a using Act.casesOn <;> unfold inRound <;> infer_instance

def twoClients : List Act :=
  [.accept 4, .recv .again, .endRound, .accept 5, .recv .again, .recv .again, .endRound]

/-- 4 is erased in front of 5. -/
def leaveRound : List Act := [.recv .eof, .close, .recv (.data [7]), .send (some 1024), .endRound]

theorem client_fds_exact_leave : ∃ s s₁ t, Run (step 3) free init twoClients s ∧
    step 3 s .acceptAgain = some s₁ ∧ Run (step 3) inRound s₁ leaveRound t ∧ t.client_fds = [5] ∧
      s₁.client_fds.Nodup ∧ ∃ calls, t.log = s₁.log ++ calls ∧ recvs calls = s₁.client_fds := by
  obtain ⟨s, hs, hp, s₁, h₁, hp₁, t, hr, ht, hc⟩ : ∃ s, Run (step 3) free init twoClients s ∧
      s.point = .accept ∧ ∃ s₁ ∈ step 3 s .acceptAgain, s₁.point = .round ∧
        ∃ t ∈ exec (step 3) inRound s₁ leaveRound, t.point = .accept ∧ t.client_fds = [5] :=
    Run.exists_of_exec _ _ (by decide)
  have hr' := Run.of_exec hr
  exact ⟨s, s₁, t, hs, h₁, hr', hc, (client_fds_exact hs).2.1 hp _ _ h₁ hp₁ _ _ hr' ht⟩

end PracticeCode.NonblockingServer
