import PracticeCode.Server2.Defs

/-!
# The life of a `reactor_event` in server 2

The batch that `epoll_wait` filled has raw pointers, and the handlers of its first events free
objects, allocate others at the same addresses and give descriptor numbers out again before the last
ones are dispatched.  An object is only freed by the handler of its own event, and a number is in a
batch at most once; so the other pointers of the batch keep the object that is registered with them
(`Inv`).

`reactor_events_live`: at the head of both loops the objects are one to one with the registered
descriptors, and a pointer that is dispatched has its object, on an open descriptor.
-/

namespace PracticeCode.Server2

open Lib Linux

/-! ## The inversion of `step` -/

inductive Outcome (s : State) : Act → State → Prop
  | epollWait {fds evs} : s.point = .wait → s.kernel.wait 10 fds = some evs →
      Outcome s (.common (.epollWait fds)) { s with point := .loop evs }
  | epollFail : s.point = .wait → Outcome s (.common .epollFail) s.exit
  | batchEnd : s.point = .loop [] → Outcome s (.common .dispatch) { s with point := .wait }
  | connection {rev evs fd} : s.point = .loop (rev :: evs) →
      s.heap rev = some ⟨fd, .connection_handler⟩ →
      Outcome s (.common .dispatch) { s with point := .accept fd evs }
  | data {rev evs fd} : s.point = .loop (rev :: evs) → s.heap rev = some ⟨fd, .data_handler⟩ →
      Outcome s (.common .dispatch) { s with point := .recv rev fd evs }
  | wild {rev evs} : s.point = .loop (rev :: evs) → s.heap rev = none →
      Outcome s (.common .dispatch) { s with point := .undefined }
  | acceptFail {lfd evs} : s.point = .accept lfd evs →
      Outcome s (.common (.accept none)) (s.call (.accept lfd none)).exit
  | accept {lfd evs cfd} : s.point = .accept lfd evs → s.kernel.isOpen cfd = false →
      Outcome s (.common (.accept (some cfd))) { s.call (.accept lfd (some cfd)) with
        kernel := s.kernel.accept cfd, point := .bind cfd evs }
  | bind {rev cfd evs} : s.point = .bind cfd evs → s.heap rev = none →
      Outcome s (.bind rev) { s with
        heap := Function.update s.heap rev (some ⟨cfd, .data_handler⟩)
        point := .add rev cfd evs }
  | add {rev cfd evs k} : s.point = .add rev cfd evs → s.kernel.add cfd rev = some k →
      Outcome s (.common (.ctlAdd true)) { s.call (.ctlAdd cfd true) with
        kernel := k, point := .loop evs }
  | addFail {rev cfd evs} : s.point = .add rev cfd evs →
      Outcome s (.common (.ctlAdd false)) (s.call (.ctlAdd cfd false)).exit
  | recvData {rev cfd evs bytes} : s.point = .recv rev cfd evs → (Recv.data bytes).Fits →
      Outcome s (.common (.recv (.data bytes))) { s.call (.recv cfd (.data bytes)) with
        point := .send cfd (fill bytes) evs }
  | recvStop {rev cfd evs res} : s.point = .recv rev cfd evs → (∀ bytes, res ≠ .data bytes) →
      Outcome s (.common (.recv res)) { s.call (.recv cfd res) with point := .del rev cfd evs }
  | sendFail {cfd buf evs} : s.point = .send cfd buf evs →
      Outcome s (.common (.send none)) (s.call (.send cfd buf none)).exit
  | send {cfd buf evs m} : s.point = .send cfd buf evs →
      Outcome s (.common (.send (some m))) { s.call (.send cfd buf (some m)) with
        point := .loop evs }
  | del {rev cfd evs k} : s.point = .del rev cfd evs → s.kernel.del cfd = some k →
      Outcome s (.common (.ctlDel true)) { s.call (.ctlDel cfd true) with
        kernel := k, point := .unbind rev cfd evs }
  | delFail {rev cfd evs} : s.point = .del rev cfd evs →
      Outcome s (.common (.ctlDel false)) (s.call (.ctlDel cfd false)).exit
  | unbind {rev cfd evs r} : s.point = .unbind rev cfd evs → s.heap rev = some r →
      Outcome s .unbind { s with
        heap := Function.update s.heap rev none, point := .close cfd evs }
  | doubleFree {rev cfd evs} : s.point = .unbind rev cfd evs → s.heap rev = none →
      Outcome s .unbind { s with point := .undefined }
  | close {cfd evs} : s.point = .close cfd evs →
      Outcome s (.common .close) { s.call (.close cfd) with
        kernel := s.kernel.close cfd, point := .loop evs }

section Outcome

variable {s s' : State} {a : Act}

theorem outcome_of_connection_handler (h : connection_handler s a = some s') : Outcome s a s' := by
  unfold connection_handler at h
  split at h
  · rename_i res
    split at h
    · rename_i hp
      cases res with
      | none =>
        obtain rfl := Option.some.inj h
        exact .acceptFail hp
      | some cfd =>
        simp only [Option.ite_none_right_eq_some, Option.some.injEq] at h
        obtain ⟨hopen, rfl⟩ := h
        exact .accept hp hopen
    · cases h
  · split at h
    · rename_i hp
      simp only [Option.ite_none_right_eq_some, Option.some.injEq] at h
      obtain ⟨hfree, rfl⟩ := h
      exact .bind hp hfree
    · cases h
  · rename_i ok
    split at h
    · rename_i hp
      cases ok with
      | true =>
        obtain ⟨k, hk, rfl⟩ := Option.map_eq_some_iff.mp h
        exact .add hp hk
      | false =>
        obtain rfl := Option.some.inj h
        exact .addFail hp
    · cases h
  · cases h

theorem outcome_of_data_handler (h : data_handler s a = some s') : Outcome s a s' := by
  unfold data_handler at h
  split at h
  · rename_i res
    split at h
    · rename_i hp
      simp only [Option.ite_none_right_eq_some] at h
      obtain ⟨hfit, h⟩ := h
      cases res with
      | data bytes =>
        obtain rfl := Option.some.inj h
        exact .recvData hp hfit
      | eof | again | fail =>
        obtain rfl := Option.some.inj h
        exact .recvStop hp nofun
    · cases h
  · rename_i res
    split at h
    · rename_i hp
      cases res with
      | none =>
        obtain rfl := Option.some.inj h
        exact .sendFail hp
      | some m =>
        obtain rfl := Option.some.inj h
        exact .send hp
    · cases h
  · rename_i ok
    split at h
    · rename_i hp
      cases ok with
      | true =>
        obtain ⟨k, hk, rfl⟩ := Option.map_eq_some_iff.mp h
        exact .del hp hk
      | false =>
        obtain rfl := Option.some.inj h
        exact .delFail hp
    · cases h
  · split at h
    · rename_i hp
      split at h
      · rename_i hr
        obtain rfl := Option.some.inj h
        exact .unbind hp hr
      · rename_i hr
        obtain rfl := Option.some.inj h
        exact .doubleFree hp hr
    · cases h
  · split at h
    · rename_i hp
      obtain rfl := Option.some.inj h
      exact .close hp
    · cases h
  · cases h

theorem outcome_of_step (h : step s a = some s') : Outcome s a s' := by
  unfold step at h
  split at h
  · split at h
    · rename_i hp
      obtain ⟨evs, hk, rfl⟩ := Option.map_eq_some_iff.mp h
      exact .epollWait hp hk
    · cases h
  · split at h
    · rename_i hp
      obtain rfl := Option.some.inj h
      exact .epollFail hp
    · cases h
  · split at h
    · rename_i hp
      obtain rfl := Option.some.inj h
      exact .batchEnd hp
    · rename_i hp
      split at h
      · rename_i hr
        obtain rfl := Option.some.inj h
        exact .connection hp hr
      · rename_i hr
        obtain rfl := Option.some.inj h
        exact .data hp hr
      · rename_i hr
        obtain rfl := Option.some.inj h
        exact .wild hp hr
    · cases h
  · exact outcome_of_connection_handler h
  · exact outcome_of_connection_handler h
  · exact outcome_of_connection_handler h
  · exact outcome_of_data_handler h
  · exact outcome_of_data_handler h
  · exact outcome_of_data_handler h
  · exact outcome_of_data_handler h
  · exact outcome_of_data_handler h

end Outcome

/-! ## The invariant -/

/-- The events of the batch that are still to be dispatched. -/
def Point.batch : Point → List Addr
  | .loop evs | .accept _ evs | .bind _ evs | .add _ _ evs | .recv _ _ evs | .send _ _ evs
  | .del _ _ evs | .unbind _ _ evs | .close _ evs => evs
  | .wait | .exited | .undefined => []

/-- The object that is on its way between `malloc` and `EPOLL_CTL_ADD`, or between `EPOLL_CTL_DEL`
and `free`; behind the end of the process, any. -/
def Point.holds (rev : Addr) : Point → Prop
  | .add rev' _ _ | .unbind rev' _ _ => rev' = rev
  | .exited => True
  | _ => False

/-- The handler that `main` and `connection_handler` bind to a number. -/
def handlerOf (sfd fd : Fd) : Handler :=
  if fd = sfd then .connection_handler else .data_handler

theorem eq_of_handlerOf {sfd fd : Fd} (h : handlerOf sfd fd = .connection_handler) : fd = sfd := by
  by_contra hne
  rw [handlerOf, if_neg hne] at h
  cases h

theorem ne_of_handlerOf {sfd fd : Fd} (h : handlerOf sfd fd = .data_handler) : fd ≠ sfd := by
  rintro rfl
  rw [handlerOf, if_pos rfl] at h
  cases h

/-- `cfd` is open and not registered, and no other socket has it. -/
structure Unregistered (sfd : Fd) (s : State) (cfd : Fd) : Prop where
  isOpen : s.kernel.isOpen cfd = true
  reg : s.kernel.reg cfd = none
  ne : cfd ≠ sfd

def AtPoint (sfd : Fd) (s : State) : Prop :=
  match s.point with
  | .accept lfd _ => lfd = sfd
  | .bind cfd _ => Unregistered sfd s cfd
  | .add rev cfd _ | .unbind rev cfd _ =>
    Unregistered sfd s cfd ∧ s.heap rev = some ⟨cfd, .data_handler⟩
  | .recv rev cfd evs | .del rev cfd evs =>
    s.kernel.reg cfd = some rev ∧ cfd ≠ sfd ∧ rev ∉ evs
  | .close cfd _ => s.kernel.reg cfd = none ∧ cfd ≠ sfd
  | .undefined => False
  | _ => True

structure Inv (sfd : Fd) (s : State) : Prop where
  reg : ∀ {fd rev}, s.kernel.reg fd = some rev →
    s.heap rev = some ⟨fd, handlerOf sfd fd⟩ ∧ s.kernel.isOpen fd = true
  listening : s.kernel.isOpen sfd = true
  heap : ∀ {rev r}, s.heap rev = some r →
    s.kernel.reg r.client_fd = some rev ∨ s.point.holds rev
  nodup : s.point.batch.Nodup
  batch : ∀ rev ∈ s.point.batch, ∃ fd, s.kernel.reg fd = some rev
  point : AtPoint sfd s
  bounded : ∃ n, ∀ rev, n ≤ rev → s.heap rev = none

theorem init_inv (efd sfd : Fd) (rev : Addr) : Inv sfd (init efd sfd rev) where
  reg {fd rev'} h := by
    simp only [init, Epoll.boot, Option.ite_none_right_eq_some, Option.some.injEq] at h
    obtain ⟨rfl, rfl⟩ := h
    simp [init, Epoll.boot, handlerOf]
  listening := by simp [init, Epoll.boot]
  heap {rev' r} h := by
    simp only [init, Function.update_apply, Option.ite_none_right_eq_some, Option.some.injEq] at h
    obtain ⟨rfl, rfl⟩ := h
    simp [init, Epoll.boot]
  nodup := List.nodup_nil
  batch rev h := by cases h
  point := trivial
  bounded := ⟨rev + 1, fun rev' h => by
    have : rev' ≠ rev := Nat.ne_of_gt h
    simp [init, this]⟩

section Step

variable {sfd : Fd} {s s' : State} {a : Act}

/-- An object is registered with one number at most. -/
theorem Inv.reg_inj (h : Inv sfd s) {fd fd' : Fd} {rev : Addr} (h1 : s.kernel.reg fd = some rev)
    (h2 : s.kernel.reg fd' = some rev) : fd = fd' := by
  have hr := (h.reg h1).1
  rw [(h.reg h2).1] at hr
  exact (congrArg reactor_event.client_fd (Option.some.inj hr)).symm

theorem Inv.reg_of_closed (h : Inv sfd s) {fd : Fd} (hf : s.kernel.isOpen fd = false) :
    s.kernel.reg fd = none := by
  cases hr : s.kernel.reg fd with
  | none => rfl
  | some rev =>
    rw [(h.reg hr).2] at hf
    cases hf

/-- Where no object is on its way, every object is registered. -/
theorem Inv.registered (h : Inv sfd s) (hp : ∀ rev, ¬ s.point.holds rev) {rev : Addr}
    {r : reactor_event} (hr : s.heap rev = some r) : s.kernel.reg r.client_fd = some rev :=
  (h.heap hr).resolve_right (hp rev)

/-- The events that are still to be dispatched. -/
theorem Inv.pending (h : Inv sfd s) {evs : List Addr} (hb : s.point.batch = evs) :
    evs.Nodup ∧ ∀ rev ∈ evs, ∃ fd, s.kernel.reg fd = some rev :=
  hb ▸ ⟨h.nodup, h.batch⟩

/-- The end of the process: the memory stays as it is. -/
theorem Inv.exit (h : Inv sfd s) (log : List Epoll.Call) :
    Inv sfd { s with point := .exited, log := log } where
  reg := h.reg
  listening := h.listening
  heap _ := .inr trivial
  nodup := List.nodup_nil
  batch rev h := by cases h
  point := trivial
  bounded := h.bounded

/-- The pointers of a batch are those of its numbers. -/
theorem inv_wait (h : Inv sfd s) {fds : List Fd} {evs : List Addr} (hp : s.point = .wait)
    (hk : s.kernel.wait 10 fds = some evs) : Inv sfd { s with point := .loop evs } where
  reg := h.reg
  listening := h.listening
  heap hr := .inl (h.registered (by simp [hp, Point.holds]) hr)
  nodup := by
    obtain ⟨hnd, -, rfl⟩ := Epoll.wait_eq_some hk
    exact hnd.filterMap fun _ _ _ h1 h2 => h.reg_inj h1 h2
  batch rev hm := by
    obtain ⟨fd, -, hreg⟩ := Epoll.exists_of_mem_wait hk hm
    exact ⟨fd, hreg⟩
  point := trivial
  bounded := h.bounded

/-- The first event of a batch is dispatched. -/
theorem inv_dispatch (h : Inv sfd s) {rev : Addr} {evs : List Addr} {pt : Point}
    (hp : s.point = .loop (rev :: evs)) (hpt : AtPoint sfd { s with point := pt })
    (hb : pt.batch = evs) : Inv sfd { s with point := pt } where
  reg := h.reg
  listening := h.listening
  heap hr := .inl (h.registered (by simp [hp, Point.holds]) hr)
  nodup := by
    rw [hb]
    exact (List.nodup_cons.mp (h.pending (congrArg Point.batch hp)).1).2
  batch rev' hm := by
    rw [hb] at hm
    exact (h.pending (congrArg Point.batch hp)).2 rev' (List.mem_cons_of_mem _ hm)
  point := hpt
  bounded := h.bounded

/-- The object of the event that is dispatched. -/
theorem Inv.object (h : Inv sfd s) {rev : Addr} {evs : List Addr}
    (hp : s.point = .loop (rev :: evs)) : ∃ fd, s.kernel.reg fd = some rev ∧
      s.heap rev = some ⟨fd, handlerOf sfd fd⟩ ∧ s.kernel.isOpen fd = true ∧ rev ∉ evs := by
  obtain ⟨hnd, hbatch⟩ := h.pending (congrArg Point.batch hp)
  obtain ⟨fd, hreg⟩ := hbatch rev (List.mem_cons_self ..)
  exact ⟨fd, hreg, (h.reg hreg).1, (h.reg hreg).2, (List.nodup_cons.mp hnd).1⟩

/-- The callback of that object is the one of its number. -/
theorem Inv.callback (h : Inv sfd s) {rev : Addr} {evs : List Addr} {r : reactor_event}
    (hp : s.point = .loop (rev :: evs)) (hr : s.heap rev = some r) :
    handlerOf sfd r.client_fd = r.callback := by
  obtain ⟨fd, -, hobj, -, -⟩ := h.object hp
  rw [hr] at hobj
  rw [Option.some.inj hobj]

theorem inv_accept (h : Inv sfd s) {lfd cfd : Fd} {evs : List Addr} (hp : s.point = .accept lfd evs)
    (hc : s.kernel.isOpen cfd = false) : Inv sfd { s.call (.accept lfd (some cfd)) with
      kernel := s.kernel.accept cfd, point := .bind cfd evs } := by
  have hopen : ∀ fd, s.kernel.isOpen fd = true → (s.kernel.accept cfd).isOpen fd = true := by
    intro fd hfd
    simp only [Epoll.accept, Function.update_apply]
    split
    · rfl
    · exact hfd
  have hne : cfd ≠ sfd := by
    rintro rfl
    rw [h.listening] at hc
    cases hc
  obtain ⟨hnd, hbatch⟩ := h.pending (congrArg Point.batch hp)
  exact ⟨fun hreg => ⟨(h.reg hreg).1, hopen _ (h.reg hreg).2⟩, hopen _ h.listening,
    fun hr => .inl (h.registered (by simp [hp, Point.holds]) hr), hnd, hbatch,
    ⟨Function.update_self .., h.reg_of_closed hc, hne⟩, h.bounded⟩

theorem inv_bind (h : Inv sfd s) {rev : Addr} {cfd : Fd} {evs : List Addr}
    (hp : s.point = .bind cfd evs) (hfree : s.heap rev = none) : Inv sfd { s with
      heap := Function.update s.heap rev (some ⟨cfd, .data_handler⟩)
      point := .add rev cfd evs } := by
  have hpt := h.point
  simp only [AtPoint, hp] at hpt
  have hne : ∀ {fd rev'}, s.kernel.reg fd = some rev' → rev' ≠ rev := by
    rintro fd rev' hreg rfl
    rw [(h.reg hreg).1] at hfree
    cases hfree
  obtain ⟨hnd, hbatch⟩ := h.pending (congrArg Point.batch hp)
  refine ⟨fun {fd rev'} hreg => ⟨?_, (h.reg hreg).2⟩, h.listening, fun {rev' r} hr => ?_, hnd,
    hbatch, ⟨⟨hpt.isOpen, hpt.reg, hpt.ne⟩, Function.update_self ..⟩, ?_⟩
  · simp only [Function.update_of_ne (hne hreg)]
    exact (h.reg hreg).1
  · by_cases e : rev' = rev
    · exact .inr e.symm
    · simp only [Function.update_of_ne e] at hr
      exact .inl (h.registered (by simp [hp, Point.holds]) hr)
  · obtain ⟨n, hn⟩ := h.bounded
    refine ⟨max n (rev + 1), fun rev' hle => ?_⟩
    have hle' : n ≤ rev' ∧ rev + 1 ≤ rev' := Nat.max_le.mp hle
    have hrev : rev' ≠ rev := Nat.ne_of_gt hle'.2
    simp only [Function.update_of_ne hrev]
    exact hn rev' hle'.1

theorem inv_add (h : Inv sfd s) {rev : Addr} {cfd : Fd} {evs : List Addr} {k : Epoll Addr}
    (hp : s.point = .add rev cfd evs) (hk : s.kernel.add cfd rev = some k) :
    Inv sfd { s.call (.ctlAdd cfd true) with kernel := k, point := .loop evs } := by
  have hpt := h.point
  simp only [AtPoint, hp] at hpt
  obtain ⟨hu, hrev⟩ := hpt
  obtain ⟨-, -, rfl⟩ := Epoll.add_eq_some hk
  obtain ⟨hnd, hbatch⟩ := h.pending (congrArg Point.batch hp)
  refine ⟨fun {fd rev'} hreg => ?_, h.listening, fun {rev' r} hr => .inl ?_, hnd,
    fun rev' hm => ?_, trivial, h.bounded⟩
  · simp only [Function.update_apply] at hreg
    split at hreg
    · rename_i e
      obtain rfl := Option.some.inj hreg
      rw [e, handlerOf, if_neg hu.ne]
      exact ⟨hrev, hu.isOpen⟩
    · exact h.reg hreg
  · simp only [Function.update_apply]
    rcases h.heap hr with hreg | hh
    · rw [if_neg]
      · exact hreg
      · intro e
        rw [e, hu.reg] at hreg
        cases hreg
    · rw [hp] at hh
      obtain rfl : rev = rev' := hh
      rw [show s.heap rev = some r from hr] at hrev
      obtain rfl := Option.some.inj hrev
      rw [if_pos rfl]
  · obtain ⟨fd, hreg⟩ := hbatch rev' hm
    have hne : fd ≠ cfd := by
      rintro rfl
      rw [hu.reg] at hreg
      cases hreg
    refine ⟨fd, ?_⟩
    simp only [Function.update_of_ne hne]
    exact hreg

theorem inv_del (h : Inv sfd s) {rev : Addr} {cfd : Fd} {evs : List Addr} {k : Epoll Addr}
    (hp : s.point = .del rev cfd evs) (hk : s.kernel.del cfd = some k) :
    Inv sfd { s.call (.ctlDel cfd true) with kernel := k, point := .unbind rev cfd evs } := by
  have hpt := h.point
  simp only [AtPoint, hp] at hpt
  obtain ⟨hreg₀, hne, hm₀⟩ := hpt
  obtain rfl := Epoll.del_eq_some hk
  have hrev := (h.reg hreg₀).1
  rw [handlerOf, if_neg hne] at hrev
  obtain ⟨hnd, hbatch⟩ := h.pending (congrArg Point.batch hp)
  refine ⟨fun {fd rev'} hreg => ?_, h.listening, fun {rev' r} hr => ?_, hnd, fun rev' hm => ?_,
    ⟨⟨(h.reg hreg₀).2, Function.update_self .., hne⟩, hrev⟩, h.bounded⟩
  · simp only [Function.update_apply] at hreg
    split at hreg
    · cases hreg
    · exact h.reg hreg
  · have hreg := h.registered (by simp [hp, Point.holds]) hr
    simp only [Function.update_apply]
    split
    · rename_i e
      rw [e, hreg₀] at hreg
      exact .inr (Option.some.inj hreg)
    · exact .inl hreg
  · obtain ⟨fd, hreg⟩ := hbatch rev' hm
    have hfd : fd ≠ cfd := by
      rintro rfl
      rw [hreg₀] at hreg
      obtain rfl := Option.some.inj hreg
      exact hm₀ hm
    refine ⟨fd, ?_⟩
    simp only [Function.update_of_ne hfd]
    exact hreg

theorem inv_unbind (h : Inv sfd s) {rev : Addr} {cfd : Fd} {evs : List Addr}
    (hp : s.point = .unbind rev cfd evs) : Inv sfd { s with
      heap := Function.update s.heap rev none, point := .close cfd evs } := by
  have hpt := h.point
  simp only [AtPoint, hp] at hpt
  obtain ⟨hu, hrev⟩ := hpt
  obtain ⟨hnd, hbatch⟩ := h.pending (congrArg Point.batch hp)
  refine ⟨fun {fd rev'} hreg => ⟨?_, (h.reg hreg).2⟩, h.listening, fun {rev' r} hr => ?_, hnd,
    hbatch, ⟨hu.reg, hu.ne⟩, ?_⟩
  · have hne : rev' ≠ rev := by
      rintro rfl
      rw [(h.reg hreg).1] at hrev
      obtain ⟨rfl, -⟩ := reactor_event.mk.inj (Option.some.inj hrev)
      rw [hu.reg] at hreg
      cases hreg
    simp only [Function.update_of_ne hne]
    exact (h.reg hreg).1
  · simp only [Function.update_apply] at hr
    split at hr
    · cases hr
    · rename_i hne
      have := h.heap hr
      rw [hp] at this
      exact this.imp_right fun e => hne e.symm
  · obtain ⟨n, hn⟩ := h.bounded
    refine ⟨n, fun rev' hle => ?_⟩
    simp only [Function.update_apply]
    split
    · rfl
    · exact hn rev' hle

theorem inv_close (h : Inv sfd s) {cfd : Fd} {evs : List Addr} (hp : s.point = .close cfd evs) :
    Inv sfd { s.call (.close cfd) with kernel := s.kernel.close cfd, point := .loop evs } := by
  have hpt := h.point
  simp only [AtPoint, hp] at hpt
  obtain ⟨hreg₀, hne⟩ := hpt
  -- nothing was registered with the number
  have hsame : (s.kernel.close cfd).reg = s.kernel.reg := by
    funext fd
    simp only [Epoll.close, Function.update_apply]
    split
    · rename_i e
      rw [e, hreg₀]
    · rfl
  have hopen : ∀ {fd}, fd ≠ cfd → s.kernel.isOpen fd = true →
      (s.kernel.close cfd).isOpen fd = true := by
    intro fd hfd ho
    simp only [Epoll.close, Function.update_of_ne hfd]
    exact ho
  obtain ⟨hnd, hbatch⟩ := h.pending (congrArg Point.batch hp)
  refine ⟨fun {fd rev'} hreg => ?_, hopen hne.symm h.listening, fun {rev' r} hr => .inl ?_, hnd,
    fun rev' hm => ?_, trivial, h.bounded⟩
  · simp only [hsame] at hreg
    refine ⟨(h.reg hreg).1, hopen ?_ (h.reg hreg).2⟩
    rintro rfl
    rw [hreg₀] at hreg
    cases hreg
  · simp only [hsame]
    exact h.registered (by simp [hp, Point.holds]) hr
  · simp only [hsame]
    exact hbatch rev' hm

/-- A step that touches neither the kernel nor the memory. -/
theorem inv_goto (h : Inv sfd s) {pt : Point} {log : List Epoll.Call}
    (hholds : ∀ rev, ¬ s.point.holds rev) (hpt : AtPoint sfd { s with point := pt, log := log })
    (hb : pt.batch = s.point.batch) : Inv sfd { s with point := pt, log := log } where
  reg := h.reg
  listening := h.listening
  heap hr := .inl (h.registered hholds hr)
  nodup := by rw [hb]; exact h.nodup
  batch rev hm := h.batch rev (hb ▸ hm)
  point := hpt
  bounded := h.bounded

/-- **Every step keeps the objects with their numbers.** -/
theorem inv_step (h : Inv sfd s) (hs : step s a = some s') : Inv sfd s' := by
  have hpt := h.point
  cases outcome_of_step hs with
  | epollWait hp hk => exact inv_wait h hp hk
  | epollFail | acceptFail | addFail | sendFail | delFail => exact h.exit _
  | batchEnd hp => exact inv_goto h (by simp [hp, Point.holds]) trivial (by rw [hp]; rfl)
  | connection hp hr => exact inv_dispatch h hp (eq_of_handlerOf (h.callback hp hr)) rfl
  | data hp hr =>
    obtain ⟨fd, hreg, hobj, -, hm⟩ := h.object hp
    obtain ⟨rfl, -⟩ := reactor_event.mk.inj (Option.some.inj (hr.symm.trans hobj))
    exact inv_dispatch h hp ⟨hreg, ne_of_handlerOf (h.callback hp hr), hm⟩ rfl
  | wild hp hr =>
    obtain ⟨fd, -, hobj, -, -⟩ := h.object hp
    rw [hobj] at hr
    cases hr
  | accept hp hc => exact inv_accept h hp hc
  | bind hp hfree => exact inv_bind h hp hfree
  | add hp hk => exact inv_add h hp hk
  | recvData hp => exact inv_goto h (by simp [hp, Point.holds]) trivial (by rw [hp]; rfl)
  | recvStop hp =>
    simp only [AtPoint, hp] at hpt
    exact inv_goto h (by simp [hp, Point.holds]) hpt (by rw [hp]; rfl)
  | send hp => exact inv_goto h (by simp [hp, Point.holds]) trivial (by rw [hp]; rfl)
  | del hp hk => exact inv_del h hp hk
  | unbind hp => exact inv_unbind h hp
  | doubleFree hp hr =>
    simp only [AtPoint, hp] at hpt
    rw [hpt.2] at hr
    cases hr
  | close hp => exact inv_close h hp

end Step

/-! ## Objects and descriptors -/

/-- The objects and the registered descriptors are one to one. -/
structure OneToOne (s : State) : Prop where
  object : ∀ {fd rev}, s.kernel.reg fd = some rev → ∃ r, s.heap rev = some r ∧ r.client_fd = fd
  registered : ∀ {rev r}, s.heap rev = some r → s.kernel.reg r.client_fd = some rev

theorem Inv.oneToOne {sfd : Fd} {s : State} (h : Inv sfd s) (hp : ∀ rev, ¬ s.point.holds rev) :
    OneToOne s where
  object hreg := ⟨_, (h.reg hreg).1, rfl⟩
  registered hr := h.registered hp hr

theorem inv_of_run {efd sfd : Fd} {rev : Addr} {as : List Act} {s : State}
    (h : Run step free (init efd sfd rev) as s) : Inv sfd s :=
  h.invariant (init_inv efd sfd rev) fun _ _ _ hi _ hs => inv_step hi hs

/-- **The life of a `reactor_event`.**  In every run the objects are one to one with the registered
descriptors whenever the process is at the head of the loop over the batches or of the loop over a
batch, a pointer that is dispatched there has its object, on an open descriptor, and no step goes
through a pointer that has none. -/
theorem reactor_events_live {efd sfd : Fd} {rev : Addr} {as : List Act} {s : State}
    (h : Run step free (init efd sfd rev) as s) :
    (s.point = .wait → OneToOne s) ∧
    (∀ evs, s.point = .loop evs → OneToOne s) ∧
    (∀ ev evs, s.point = .loop (ev :: evs) →
      ∃ r, s.heap ev = some r ∧ s.kernel.isOpen r.client_fd = true) ∧
    s.point ≠ .undefined := by
  have hi := inv_of_run h
  refine ⟨fun hp => hi.oneToOne (by simp [hp, Point.holds]),
    fun evs hp => hi.oneToOne (by simp [hp, Point.holds]), fun ev evs hp => ?_, fun hp => ?_⟩
  · obtain ⟨fd, -, hr, hopen, -⟩ := hi.object hp
    exact ⟨_, hr, hopen⟩
  · have hpt := hi.point
    simp only [AtPoint, hp] at hpt

/-- Two clients, at 5 and 6.  Then a batch of three: 5 is at its end, its object is freed and its
number given out again with the address, and 6 is still to be dispatched. -/
def reuse : List Act := [.common (.epollWait [4]), .common .dispatch, .common (.accept (some 5)),
  .bind 101, .common (.ctlAdd true), .common .dispatch, .common (.epollWait [4]),
  .common .dispatch, .common (.accept (some 6)), .bind 102, .common (.ctlAdd true),
  .common .dispatch, .common (.epollWait [5, 4, 6]), .common .dispatch, .common (.recv .eof),
  .common (.ctlDel true), .unbind, .common .close, .common .dispatch,
  .common (.accept (some 5)), .bind 101, .common (.ctlAdd true)]

theorem reactor_events_live_reuse : ∃ s, Run step free (init 3 4 100) reuse s ∧
    s.point = .loop [102] ∧ OneToOne s ∧
    ∃ r, s.heap 102 = some r ∧ s.kernel.isOpen r.client_fd = true := by
  obtain ⟨s, hr, hp⟩ : ∃ s, Run step free (init 3 4 100) reuse s ∧ s.point = .loop [102] :=
    Run.exists_of_exec _ _ (by decide)
  have hl := reactor_events_live hr
  exact ⟨s, hr, hp, hl.2.1 _ hp, hl.2.2.1 _ _ hp⟩

end PracticeCode.Server2
