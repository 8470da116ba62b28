import PracticeCode.Server2.Lifetime

/-!
# Server 2 is a rewriting of server 1

Server 1 has the descriptor itself in the event and compares it with `sfd`; server 2 has a pointer
there, and calls what it finds behind it.  Behind every pointer of a batch is the object of its
descriptor, with the callback that belongs to it (`Inv`), and so the two dispatch the same way:
`abs` forgets the objects and takes every step of server 2 to the same step of server 1, or to none
when the step only allocates or frees.

`same_calls`: on the same batches and the same results the two make the same calls, and end at the
same one.
-/

namespace PracticeCode.Server2

open Lib Linux

/-! ## The state without the objects -/

/-- The descriptors of the objects that a batch points to. -/
def client_fds (heap : Addr → Option reactor_event) (evs : List Addr) : List Fd :=
  evs.filterMap fun rev => (heap rev).map reactor_event.client_fd

/-- The point of server 1.  What only allocates or frees is still to come, or done, there. -/
def Point.abs (heap : Addr → Option reactor_event) : Point → Server1.Point
  | .wait => .wait
  | .loop evs => .loop (client_fds heap evs)
  | .accept _ evs => .accept (client_fds heap evs)
  | .bind cfd evs | .add _ cfd evs => .add cfd (client_fds heap evs)
  | .recv _ cfd evs => .recv cfd (client_fds heap evs)
  | .send cfd buf evs => .send cfd buf (client_fds heap evs)
  | .del _ cfd evs => .del cfd (client_fds heap evs)
  | .unbind _ cfd evs | .close cfd evs => .close cfd (client_fds heap evs)
  | .exited | .undefined => .exited

def abs (s : State) : Server1.State := ⟨s.kernel.numbers, s.point.abs s.heap, s.log⟩

/-- The action of server 1. -/
def erase : Act → Option Server1.Act
  | .common a => some a
  | .bind _ | .unbind => none

theorem abs_init (efd sfd : Fd) (rev : Addr) : abs (init efd sfd rev) = Server1.init efd sfd := by
  unfold abs init Server1.init Epoll.boot Epoll.numbers
  congr 2
  funext fd
  dsimp only
  split
  · rename_i e
    rw [e]
    rfl
  · rfl

section Step

variable {sfd : Fd} {s s' : State} {a : Act}

theorem client_fds_congr {heap heap' : Addr → Option reactor_event} {evs : List Addr}
    (h : ∀ rev ∈ evs, heap' rev = heap rev) : client_fds heap' evs = client_fds heap evs :=
  List.filterMap_congr fun rev hm => by rw [h rev hm]

theorem client_fds_cons {heap : Addr → Option reactor_event} {rev : Addr} {r : reactor_event}
    (h : heap rev = some r) (evs : List Addr) :
    client_fds heap (rev :: evs) = r.client_fd :: client_fds heap evs := by
  simp [client_fds, h]

/-- A batch points to the objects of its numbers. -/
theorem Inv.client_fds_wait (h : Inv sfd s) {fds : List Fd}
    (hreg : ∀ fd ∈ fds, (s.kernel.reg fd).isSome) :
    client_fds s.heap (fds.filterMap s.kernel.reg) = fds := by
  unfold client_fds
  rw [List.filterMap_filterMap]
  refine Eq.trans (List.filterMap_congr fun fd hfd => ?_) List.filterMap_some
  obtain ⟨rev, hrev⟩ := Option.isSome_iff_exists.mp (hreg fd hfd)
  rw [hrev, Option.bind_some, (h.reg hrev).1]
  rfl

/-- The rest of a batch keeps its objects when the one that comes or goes is not registered. -/
theorem Inv.client_fds_update (h : Inv sfd s) {rev : Addr} {evs : List Addr}
    (hb : s.point.batch = evs) (hr : ∀ fd, s.kernel.reg fd ≠ some rev) (r : Option reactor_event) :
    client_fds (Function.update s.heap rev r) evs = client_fds s.heap evs := by
  refine client_fds_congr fun rev' hm => Function.update_of_ne ?_ ..
  rintro rfl
  obtain ⟨fd, hreg⟩ := h.batch rev' (hb ▸ hm)
  exact hr fd hreg

/-- **Every step of server 2 is the same step of server 1, or none.** -/
theorem step_abs (h : Inv sfd s) (hs : step s a = some s') :
    Follows (Server1.step sfd) (abs s) (erase a) (abs s') := by
  have hpt := h.point
  cases outcome_of_step hs with
  | epollWait hp hk =>
    obtain ⟨-, hreg, rfl⟩ := Epoll.wait_eq_some hk
    simp only [erase, Follows, abs, hp, Point.abs, Server1.step, Epoll.numbers_wait, hk,
      Option.map_some, h.client_fds_wait hreg]
  | epollFail hp | batchEnd hp =>
    simp only [erase, Follows, abs, hp, Point.abs, Server1.step]
    rfl
  | connection hp hr =>
    simp only [erase, Follows, abs, hp, Point.abs, Server1.step, client_fds_cons hr]
    exact if_pos (eq_of_handlerOf (h.callback hp hr))
  | data hp hr =>
    simp only [erase, Follows, abs, hp, Point.abs, Server1.step, client_fds_cons hr]
    exact if_neg (ne_of_handlerOf (h.callback hp hr))
  | wild hp hr =>
    obtain ⟨fd, -, hobj, -, -⟩ := h.object hp
    rw [hobj] at hr
    cases hr
  | acceptFail hp =>
    simp only [AtPoint, hp] at hpt
    simp only [erase, Follows, abs, hp, Point.abs, Server1.step, Server1.handle_connection, hpt]
    rfl
  | accept hp hc =>
    simp only [AtPoint, hp] at hpt
    simp only [erase, Follows, abs, hp, Point.abs, Server1.step, Server1.handle_connection, hpt]
    exact if_pos hc
  | bind hp hfree =>
    have hne : ∀ fd, s.kernel.reg fd ≠ some _ := fun fd hreg => by
      rw [(h.reg hreg).1] at hfree
      cases hfree
    simp only [erase, Follows, abs, hp, Point.abs]
    rw [h.client_fds_update (by rw [hp]; rfl) hne]
  | add hp hk =>
    simp only [erase, Follows, abs, hp, Point.abs, Server1.step, Server1.handle_connection]
    rw [← Epoll.numbers_add, hk]
    rfl
  | addFail hp =>
    simp only [erase, Follows, abs, hp, Point.abs, Server1.step, Server1.handle_connection]
    rfl
  | recvData hp hfit =>
    simp only [erase, Follows, abs, hp, Point.abs, Server1.step, Server1.handle_data]
    exact if_pos hfit
  | @recvStop _ _ _ res hp hres =>
    simp only [erase, Follows, abs, hp, Point.abs, Server1.step, Server1.handle_data]
    cases res with
    | data bytes => exact absurd rfl (hres bytes)
    | eof | again | fail => exact if_pos trivial
  | sendFail hp | send hp | delFail hp =>
    simp only [erase, Follows, abs, hp, Point.abs, Server1.step, Server1.handle_data]
    rfl
  | del hp hk =>
    simp only [erase, Follows, abs, hp, Point.abs, Server1.step, Server1.handle_data]
    rw [← Epoll.numbers_del, hk]
    rfl
  | unbind hp =>
    simp only [AtPoint, hp] at hpt
    have hne : ∀ fd, s.kernel.reg fd ≠ some _ := fun fd hreg => by
      have := (h.reg hreg).1
      rw [hpt.2] at this
      obtain ⟨rfl, -⟩ := reactor_event.mk.inj (Option.some.inj this)
      rw [hpt.1.reg] at hreg
      cases hreg
    simp only [erase, Follows, abs, hp, Point.abs]
    rw [h.client_fds_update (by rw [hp]; rfl) hne]
  | doubleFree hp hr =>
    simp only [AtPoint, hp] at hpt
    rw [hpt.2] at hr
    cases hr
  | close hp =>
    simp only [erase, Follows, abs, hp, Point.abs, Server1.step, Server1.handle_data]
    rw [Epoll.numbers_close]
    rfl

/-- The points where server 1 has a step to do too. -/
def Point.Settled : Point → Prop
  | .bind _ _ | .unbind _ _ _ => False
  | _ => True

theorem dispatch_enabled (h : Inv sfd s) :
    (step s (.common .dispatch)).isSome = (Server1.step sfd (abs s) .dispatch).isSome := by
  cases hp : s.point with
  | loop evs =>
    cases evs with
    | nil =>
      simp only [step, Server1.step, abs, hp, Point.abs]
      rfl
    | cons rev evs =>
      obtain ⟨fd, -, hobj, -, -⟩ := h.object hp
      simp only [step, Server1.step, abs, hp, Point.abs, hobj, client_fds_cons hobj]
      unfold handlerOf
      by_cases e : fd = sfd
      · simp [e]
      · simp [e]
  | _ => simp only [step, Server1.step, abs, hp, Point.abs, Option.isSome_none]

/-- A step of server 1 is a step of server 2, once that has allocated or freed. -/
theorem step_enabled (h : Inv sfd s) (hset : s.point.Settled) (b : Server1.Act) :
    (step s (.common b)).isSome = (Server1.step sfd (abs s) b).isSome := by
  cases b with
  | dispatch => exact dispatch_enabled h
  | epollWait fds =>
    cases hp : s.point <;>
      simp only [step, Server1.step, abs, hp, Point.abs, Epoll.numbers_wait, Option.isSome_map,
        Option.isSome_none]
  | epollFail =>
    cases hp : s.point <;>
      simp only [step, Server1.step, abs, hp, Point.abs, Option.isSome_some, Option.isSome_none]
  | accept res =>
    cases hp : s.point <;>
      simp only [step, connection_handler, Server1.step, Server1.handle_connection, abs, hp,
        Point.abs, Option.isSome_none]
    cases res with
    | none => rfl
    | some cfd => by_cases hc : s.kernel.isOpen cfd = false <;> simp [hc, Epoll.numbers]
  | ctlAdd ok =>
    cases hp : s.point with
    | bind cfd evs =>
      rw [hp] at hset
      exact hset.elim
    | add rev cfd evs =>
      simp only [step, connection_handler, Server1.step, Server1.handle_connection, abs, hp,
        Point.abs, ← Epoll.numbers_add s.kernel cfd rev]
      cases ok <;> simp
    | _ =>
      simp only [step, connection_handler, Server1.step, Server1.handle_connection, abs, hp,
        Point.abs, Option.isSome_none]
  | recv res =>
    cases hp : s.point <;>
      simp only [step, data_handler, Server1.step, Server1.handle_data, abs, hp, Point.abs,
        Option.isSome_none]
    by_cases hf : res.Fits <;> cases res <;> simp [hf]
  | send res =>
    cases hp : s.point <;>
      simp only [step, data_handler, Server1.step, Server1.handle_data, abs, hp, Point.abs,
        Option.isSome_none]
    cases res <;> rfl
  | ctlDel ok =>
    cases hp : s.point <;>
      simp only [step, data_handler, Server1.step, Server1.handle_data, abs, hp, Point.abs,
        Option.isSome_none, ← Epoll.numbers_del]
    cases ok <;> simp
  | close =>
    cases hp : s.point with
    | unbind rev cfd evs =>
      rw [hp] at hset
      exact hset.elim
    | _ =>
      simp only [step, data_handler, Server1.step, Server1.handle_data, abs, hp, Point.abs,
        Option.isSome_some, Option.isSome_none]

/-- `malloc` finds an address, and `free` frees what it is given. -/
theorem exists_settled (h : Inv sfd s) :
    ∃ as s', Run step free s as s' ∧ as.filterMap erase = [] ∧ s'.point.Settled := by
  have hpt := h.point
  cases hp : s.point with
  | bind cfd evs =>
    obtain ⟨n, hn⟩ := h.bounded
    have hs : step s (.bind n) = some { s with
        heap := Function.update s.heap n (some ⟨cfd, .data_handler⟩)
        point := .add n cfd evs } := by
      simp only [step, connection_handler, hp]
      exact if_pos (hn n le_rfl)
    exact ⟨[.bind n], _, Run.nil.snoc trivial hs, rfl, trivial⟩
  | unbind rev cfd evs =>
    simp only [AtPoint, hp] at hpt
    have hs : step s .unbind = some { s with
        heap := Function.update s.heap rev none, point := .close cfd evs } := by
      simp only [step, data_handler, hp, hpt.2]
    exact ⟨[.unbind], _, Run.nil.snoc trivial hs, rfl, trivial⟩
  | _ => exact ⟨[], s, .nil, rfl, by rw [hp]; trivial⟩

/-- **Every step of server 1 is one of server 2.** -/
theorem lift_step (h : Inv sfd s) {b : Server1.Act} {t : Server1.State}
    (hs : Server1.step sfd (abs s) b = some t) :
    ∃ as s', Run step free s as s' ∧ as.filterMap erase = [b] ∧ abs s' = t := by
  obtain ⟨as, s₁, hr, he, hset⟩ := exists_settled h
  have h₁ : Inv sfd s₁ := hr.invariant h fun _ _ _ hi _ hs => inv_step hi hs
  have habs : abs s₁ = abs s := by
    have := hr.refine abs erase h (fun _ _ _ hi _ hs => inv_step hi hs)
      fun _ _ _ hi _ hs => step_abs hi hs
    rw [he] at this
    have hnil : Run (Server1.step sfd) free (abs s) [] (abs s) := .nil
    exact hnil.unique this
  rw [← habs] at hs
  obtain ⟨s', hs'⟩ := Option.isSome_iff_exists.mp
    ((step_enabled h₁ hset b).trans (Option.isSome_iff_exists.mpr ⟨t, hs⟩))
  have := step_abs h₁ hs'
  refine ⟨as ++ [.common b], s', hr.snoc trivial hs', ?_, ?_⟩
  · rw [List.filterMap_append, he]
    rfl
  · exact Option.some.inj (this.symm.trans hs)

end Step

/-! ## The runs -/

/-- The same calls so far, and both have ended or neither. -/
structure Agree (s : State) (t : Server1.State) : Prop where
  log : s.log = t.log
  exited : s.point = .exited ↔ t.point = .exited

theorem Inv.agree {sfd : Fd} {s : State} (h : Inv sfd s) : Agree s (abs s) where
  log := rfl
  exited := by
    have hpt := h.point
    cases hp : s.point with
    | undefined => simp only [AtPoint, hp] at hpt
    | _ => simp [abs, hp, Point.abs]

/-- **Server 2 is a rewriting of server 1.**  Every run of server 2 makes the calls of a run of
server 1 with the same batches and results; and for every run of server 1 there are runs of server 2
with these batches and results, all with the same calls. -/
theorem same_calls (efd sfd : Fd) (rev : Addr) :
    (∀ as s, Run step free (init efd sfd rev) as s →
      ∃ t, Run (Server1.step sfd) free (Server1.init efd sfd) (as.filterMap erase) t ∧ Agree s t) ∧
    ∀ bs t, Run (Server1.step sfd) free (Server1.init efd sfd) bs t →
      (∃ as s, Run step free (init efd sfd rev) as s ∧ as.filterMap erase = bs) ∧
      ∀ as s, Run step free (init efd sfd rev) as s → as.filterMap erase = bs → Agree s t := by
  have hsim : ∀ as s, Run step free (init efd sfd rev) as s →
      Run (Server1.step sfd) free (Server1.init efd sfd) (as.filterMap erase) (abs s) := by
    intro as s h
    rw [← abs_init efd sfd rev]
    exact h.refine abs erase (init_inv efd sfd rev) (fun _ _ _ hi _ hs => inv_step hi hs)
      fun _ _ _ hi _ hs => step_abs hi hs
  refine ⟨fun as s h => ⟨_, hsim as s h, (inv_of_run h).agree⟩, fun bs t ht => ⟨?_, ?_⟩⟩
  · rw [← abs_init efd sfd rev] at ht
    obtain ⟨as, s, hr, he, -⟩ := Run.lift abs erase (init_inv efd sfd rev)
      (fun _ _ _ hi _ hs => inv_step hi hs) (fun _ _ _ hi hs => lift_step hi hs) ht
    exact ⟨as, s, hr, he⟩
  · rintro as s h rfl
    rw [(hsim as s h).unique ht]
    exact (inv_of_run h).agree

/-- The run where a number and an address are given out again in the middle of a batch. -/
theorem same_calls_reuse :
    ∃ t, Run (Server1.step 4) free (Server1.init 3 4) (reuse.filterMap erase) t ∧
      ∃ s, Run step free (init 3 4 100) reuse s ∧ Agree s t := by
  obtain ⟨t, ht, -⟩ : ∃ t, Run (Server1.step 4) free (Server1.init 3 4) (reuse.filterMap erase) t ∧
      t.point = .loop [6] := Run.exists_of_exec _ _ (by decide)
  obtain ⟨s, hs, -⟩ : ∃ s, Run step free (init 3 4 100) reuse s ∧ s.point = .loop [102] :=
    Run.exists_of_exec _ _ (by decide)
  exact ⟨t, ht, s, hs, ((same_calls 3 4 100).2 _ t ht).2 _ s hs rfl⟩

end PracticeCode.Server2
