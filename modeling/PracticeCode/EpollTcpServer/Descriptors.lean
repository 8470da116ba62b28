import PracticeCode.EpollTcpServer.Outcome

/-!
# The accepted descriptors of `EpollTcpServer`

An accepted descriptor is registered by `OnSocketAccept` or closed there; afterwards the loop, or
`OnSocketRead`, closes it once.  `Accounted` says that this works out: at the head of the loop the
open connections are the registered ones, no descriptor is closed twice, and no call is made on a
closed one.

It does when `getpeername` succeeds (its error branch forgets the descriptor) and no `write` fails
for good (`SendData` closes the descriptor below `OnSocketRead`, which reads and closes it again).
-/

namespace PracticeCode.EpollTcpServer

open Lib Linux

/-- A `read`, `write` or `close` is on a number that is open. -/
def Op.OnOpen : Op → Prop
  | .read target _ | .write target _ _ | .close target => target ≠ none
  | .epollWait _ | .accept _ | .callback _ => True

/-- The number of times the descriptor of the connection `c` was closed. -/
def State.closes (s : State) (c : Conn) : ℕ := s.log.count (.close (some (.sock c)))

/-- **Descriptor accounting.** -/
structure Accounted (s : State) : Prop where
  registered : s.point = .head → ∀ fd,
    (∃ c, s.files fd = some (.sock c)) ↔ s.interest fd = true ∧ s.self.handle_ ≠ some fd
  once : ∀ c, s.closes c ≤ 1
  onOpen : ∀ op ∈ s.log, op.OnOpen

/-- `getpeername` succeeds. -/
def peerKnown : State → Act → Prop
  | _, .getpeername ok => ok = true
  | _, _ => True

def unbroken (s : State) (a : Act) : Prop := peerKnown s a ∧ writable s a

instance (s : State) (a : Act) : Decidable (peerKnown s a) := by
  induction a using Act.casesOn with
  | getpeername ok => unfold peerKnown; infer_instance
  | _ => exact isTrue trivial

instance (s : State) (a : Act) : Decidable (unbroken s a) := by unfold unbroken; infer_instance

/-! ## The invariant -/

/-- The descriptor `accept` returned, until it is registered or closed. -/
def Point.client : Point → Option Fd
  | .getpeername cli_fd _ | .getfl cli_fd _ | .setfl cli_fd _ | .ctlAdd cli_fd _
  | .closeClient cli_fd _ => some cli_fd
  | _ => none

/-- The descriptors the thread has an event of: the one it handles and the rest of the batch. -/
def Point.pending : Point → List Fd
  | .loop evs | .accept evs | .getpeername _ evs | .getfl _ evs | .setfl _ evs | .ctlAdd _ evs
  | .closeClient _ evs => evs.map Prod.fst
  | .read fd evs | .testCallback _ fd evs | .callback _ fd evs | .write _ fd evs
  | .closeSend _ fd evs | .close fd evs => fd :: evs.map Prod.fst
  | .start | .head | .wait | .done | .terminated => []

/-- The packet goes back to the descriptor it came from, and no `write` has failed for good. -/
def Point.Wf : Point → Prop
  | .testCallback data fd _ | .callback data fd _ | .write data fd _ => data.fd = some fd
  | .closeSend .. => False
  | _ => True

structure Inv (s : State) : Prop where
  point : s.point.Wf
  registered : ∀ {fd}, s.interest fd = true →
    s.self.handle_ = some fd ∨ ∃ c, s.files fd = some (.sock c)
  listed : ∀ {fd c}, s.files fd = some (.sock c) → s.interest fd = true ∨ s.point.client = some fd
  handle : ∀ {fd c}, s.files fd = some (.sock c) → s.self.handle_ ≠ some fd
  opened : ∀ {fd}, s.interest fd = true → s.files fd ≠ none
  client : ∀ {fd}, s.point.client = some fd →
    s.interest fd = false ∧ ∃ c, s.files fd = some (.sock c)
  pending : ∀ {fd}, fd ∈ s.point.pending → s.interest fd = true
  nodup : s.point.pending.Nodup
  inj : ∀ {fd fd' c}, s.files fd = some (.sock c) → s.files fd' = some (.sock c) → fd = fd'
  conn_lt : ∀ {fd} {c : ℕ}, s.files fd = some (.sock c) → c < s.conns
  once : ∀ c, s.closes c ≤ 1
  fresh : ∀ {c : ℕ}, s.conns ≤ c ∨ (∃ fd, s.files fd = some (.sock c)) → s.closes c = 0
  onOpen : ∀ op ∈ s.log, op.OnOpen

theorem init_inv : Inv init := by
  have hfiles : ∀ {fd c}, init.files fd ≠ some (.sock c) := by
    intro fd c
    simp only [init]
    grind
  refine ⟨trivial, ?_, fun h => absurd h hfiles, fun h => absurd h hfiles, ?_, nofun, nofun,
    List.nodup_nil, fun h => absurd h hfiles, fun h => absurd h hfiles, fun _ => Nat.zero_le 1,
    fun _ => rfl, nofun⟩
  · intro fd h
    simp only [init, decide_eq_true_eq] at h
    exact .inl (by rw [h]; rfl)
  · intro fd h
    simp only [init, decide_eq_true_eq] at h
    subst h
    nofun

/-! ## The steps -/

section Step

variable {s : State} {fd : Fd} {p : Point}

@[simp] theorem closes_goto (c : Conn) : (s.goto p).closes c = s.closes c := rfl

/-- The thread goes on with what is left of its events. -/
theorem Inv.goto (h : Inv s) (hw : p.Wf) (hc : p.client = s.point.client)
    (hp : p.pending.Sublist s.point.pending) : Inv (s.goto p) :=
  { point := hw
    registered := h.registered
    listed := fun hf => by
      have := h.listed hf
      rwa [← hc] at this
    handle := h.handle
    opened := h.opened
    client := fun hcl => h.client (hc ▸ hcl)
    pending := fun hm => h.pending (hp.subset hm)
    nodup := h.nodup.sublist hp
    inj := h.inj
    conn_lt := h.conn_lt
    once := h.once
    fresh := h.fresh
    onOpen := h.onOpen }

/-- A call that changes no descriptor. -/
theorem Inv.record {o : Op} (h : Inv s) (ho : o.OnOpen) (hc : ∀ c, o ≠ .close (some (.sock c))) :
    Inv (s.record o) := by
  have hcount : ∀ c, (s.record o).closes c = s.closes c := by
    intro c
    unfold State.closes State.record
    rw [List.count_append, List.count_singleton, if_neg (by simpa using hc c), Nat.add_zero]
  refine { h with once := fun c => ?_, fresh := fun hc => ?_, onOpen := ?_ }
  · rw [hcount]
    exact h.once c
  · rw [hcount]
    exact h.fresh hc
  · intro op hop
    rcases List.mem_append.mp hop with hop | hop
    · exact h.onOpen op hop
    · rw [List.mem_singleton.mp hop]
      exact ho

theorem Inv.call {o : Op} (h : Inv s) (ho : o.OnOpen) (hc : ∀ c, o ≠ .close (some (.sock c)))
    (hw : p.Wf) (hcl : p.client = s.point.client) (hp : p.pending.Sublist s.point.pending) :
    Inv ((s.goto p).record o) :=
  (h.goto hw hcl hp).record ho hc

/-- Closing a descriptor that the thread then forgets. -/
theorem Inv.closeFd (h : Inv s) (hopen : s.files fd ≠ none) (hw : p.Wf) (hnone : p.client = none)
    (hclient : ∀ {fd'}, s.point.client = some fd' → fd' = fd)
    (hp : p.pending.Sublist s.point.pending) (hnot : fd ∉ p.pending) :
    Inv ((s.closeFd fd).goto p) := by
  have hle : ∀ {a f}, (s.closeFd fd).files a = some f → a ≠ fd ∧ s.files a = some f := by
    intro a f ha
    simp only [State.closeFd, Function.update_apply] at ha
    split at ha
    · cases ha
    · exact ⟨‹_›, ha⟩
  have hint : ∀ {a}, (s.closeFd fd).interest a = true → a ≠ fd ∧ s.interest a = true := by
    intro a ha
    simp only [State.closeFd, Function.update_apply] at ha
    split at ha
    · cases ha
    · exact ⟨‹_›, ha⟩
  have hcount : ∀ c, (s.closeFd fd).closes c =
      s.closes c + if s.files fd = some (.sock c) then 1 else 0 := by
    intro c
    simp [State.closes, State.closeFd, List.count_singleton]
  constructor
  · exact hw
  · intro a ha
    obtain ⟨hne, ha⟩ := hint ha
    have hfiles : (s.closeFd fd).files a = s.files a := Function.update_of_ne hne ..
    exact (h.registered ha).imp_right fun ⟨c, hc⟩ => ⟨c, hfiles.trans hc⟩
  · intro a c ha
    obtain ⟨hne, ha⟩ := hle ha
    have hi : (s.closeFd fd).interest a = s.interest a := Function.update_of_ne hne ..
    rcases h.listed ha with hl | hcl
    · exact .inl (hi.trans hl)
    · exact absurd (hclient hcl) hne
  · intro a c ha
    exact h.handle (hle ha).2
  · intro a ha
    obtain ⟨hne, ha⟩ := hint ha
    have hfiles : (s.closeFd fd).files a = s.files a := Function.update_of_ne hne ..
    rw [State.goto, hfiles]
    exact h.opened ha
  · intro a ha
    have : p.client = some a := ha
    rw [hnone] at this
    cases this
  · intro a ha
    have hne : a ≠ fd := fun e => hnot (e ▸ ha)
    have hi : (s.closeFd fd).interest a = s.interest a := Function.update_of_ne hne ..
    exact hi.trans (h.pending (hp.subset ha))
  · exact h.nodup.sublist hp
  · intro a b c ha hb
    exact h.inj (hle ha).2 (hle hb).2
  · intro a c ha
    exact h.conn_lt (hle ha).2
  · intro c
    rw [closes_goto, hcount]
    split
    · rename_i hf
      have := h.fresh (.inr ⟨fd, hf⟩)
      omega
    · exact h.once c
  · intro c hc
    rw [closes_goto, hcount]
    rcases hc with hc | ⟨a, ha⟩
    · rw [h.fresh (.inl hc), if_neg fun hf => Nat.not_lt.mpr hc (h.conn_lt hf)]
    · obtain ⟨hne, ha⟩ := hle ha
      rw [h.fresh (.inr ⟨a, ha⟩), if_neg fun hf => hne (h.inj ha hf)]
  · intro op hop
    rcases List.mem_append.mp hop with hop | hop
    · exact h.onOpen op hop
    · rw [List.mem_singleton.mp hop]
      exact hopen

/-- A new connection on a number that was not open. -/
theorem Inv.accept {cli_fd : Fd} {evs : List Event} (h : Inv s) (hp : s.point = .accept evs)
    (hl : s.listening = some .listening) (hf : s.files cli_fd = none) :
    Inv ({ s with
      files := Function.update s.files cli_fd (some (.sock s.conns))
      conns := s.conns + 1 }.goto (.getpeername cli_fd evs)) := by
  have hint : s.interest cli_fd = false := by
    by_contra hi
    exact h.opened (by simpa using hi) hf
  have hnone : s.point.client = none := by rw [hp]; rfl
  have hne : ∀ {a}, s.interest a = true → a ≠ cli_fd := by
    rintro a ha rfl
    rw [hint] at ha
    cases ha
  have hcases : ∀ {a c}, Function.update s.files cli_fd (some (.sock s.conns)) a = some (.sock c) →
      (a = cli_fd ∧ c = s.conns) ∨ s.files a = some (.sock c) := by
    intro a c ha
    rw [Function.update_apply] at ha
    split at ha
    · rename_i e
      cases ha
      exact .inl ⟨e, rfl⟩
    · exact .inr ha
  constructor
  · trivial
  · intro a ha
    refine (h.registered ha).imp_right fun ⟨c, hc⟩ => ⟨c, ?_⟩
    exact (Function.update_of_ne (hne ha) ..).trans hc
  · intro a c ha
    rcases hcases ha with ⟨rfl, -⟩ | ha
    · exact .inr rfl
    · refine (h.listed ha).imp_right fun hcl => ?_
      rw [hnone] at hcl
      cases hcl
  · intro a c ha
    rcases hcases ha with ⟨rfl, -⟩ | ha
    · -- the listening socket is open
      intro he
      have : s.listening = s.files a := by
        unfold State.listening
        rw [show s.self.handle_ = some a from he]
        rfl
      rw [this, hf] at hl
      cases hl
    · exact h.handle ha
  · intro a ha
    have : Function.update s.files cli_fd (some (.sock s.conns)) a = s.files a :=
      Function.update_of_ne (hne ha) ..
    exact fun hn => h.opened ha (this.symm.trans hn)
  · intro a ha
    cases ha
    exact ⟨hint, s.conns, Function.update_self ..⟩
  · intro a ha
    exact h.pending (by rw [hp]; exact ha)
  · have := h.nodup
    rwa [hp] at this
  · intro a b c ha hb
    rcases hcases ha with ⟨ea, rfl⟩ | ha
    · rcases hcases hb with ⟨eb, -⟩ | hb
      · rw [ea, eb]
      · exact absurd (h.conn_lt hb) (Nat.lt_irrefl _)
    · rcases hcases hb with ⟨-, rfl⟩ | hb
      · exact absurd (h.conn_lt ha) (Nat.lt_irrefl _)
      · exact h.inj ha hb
  · intro a c ha
    rcases hcases ha with ⟨-, rfl⟩ | ha
    · exact Nat.lt_succ_self _
    · exact Nat.lt_succ_of_lt (h.conn_lt ha)
  · exact h.once
  · intro c hc
    rcases hc with hc | ⟨a, ha⟩
    · exact h.fresh (.inl (Nat.le_of_succ_le hc))
    · rcases hcases ha with ⟨-, rfl⟩ | ha
      · exact h.fresh (.inl (Nat.le_refl _))
      · exact h.fresh (.inr ⟨a, ha⟩)
  · exact h.onOpen

/-- The connection is registered. -/
theorem Inv.ctlAdd {cli_fd : Fd} {evs : List Event} (h : Inv s)
    (hp : s.point = .ctlAdd cli_fd evs) :
    Inv ({ s with interest := Function.update s.interest cli_fd true }.goto (.accept evs)) := by
  have hclient : s.point.client = some cli_fd := by rw [hp]; rfl
  obtain ⟨-, c₀, hf⟩ := h.client hclient
  have hcases : ∀ {a}, Function.update s.interest cli_fd true a = true →
      a = cli_fd ∨ s.interest a = true := by
    intro a ha
    rw [Function.update_apply] at ha
    split at ha
    · exact .inl ‹_›
    · exact .inr ha
  have hkeep : ∀ {a}, s.interest a = true → Function.update s.interest cli_fd true a = true := by
    intro a ha
    rw [Function.update_apply]
    split
    · rfl
    · exact ha
  refine { h with point := trivial, registered := ?_, listed := ?_, opened := ?_, client := nofun,
                  pending := ?_, nodup := ?_ }
  · intro a ha
    rcases hcases ha with rfl | ha
    · exact .inr ⟨c₀, hf⟩
    · exact h.registered ha
  · intro a c ha
    left
    rcases h.listed ha with hl | hcl
    · exact hkeep hl
    · rw [hclient, Option.some.injEq] at hcl
      subst hcl
      exact Function.update_self ..
  · intro a ha
    rcases hcases ha with rfl | ha
    · rw [State.goto, hf]
      nofun
    · exact h.opened ha
  · intro a ha
    exact hkeep (h.pending (by rw [hp]; exact ha))
  · have := h.nodup
    rwa [hp] at this

/-- `epoll_wait` returns registered descriptors, each of them once. -/
theorem Inv.epollWait {evs : List Event} (h : Inv s) (hp : s.point = .wait)
    (hw : CanWait s evs) : Inv (s.goto (.loop evs)) := by
  have hnone : s.point.client = none := by rw [hp]; rfl
  refine { h with point := trivial, listed := fun hf => ?_, client := nofun, pending := ?_,
                  nodup := ?_ }
  · refine (h.listed hf).imp_right fun hcl => ?_
    rw [hnone] at hcl
    cases hcl
  · intro fd hm
    rcases hw with rfl | ⟨-, -, -, hreg⟩
    · cases hm
    · obtain ⟨e, he, rfl⟩ := List.mem_map.mp hm
      exact hreg e he
  · rcases hw with rfl | ⟨-, -, hnd, -⟩
    · exact List.nodup_nil
    · exact hnd

/-- The packet is written to the descriptor that is being handled, which is open. -/
theorem Inv.writeOpen {data : Packet} {sfd : Fd} {evs : List Event} (h : Inv s)
    (hp : s.point = .write data fd evs) (hd : data.fd = some sfd) : s.files sfd ≠ none := by
  have hw := h.point
  rw [hp] at hw
  have e : sfd = fd := Option.some.inj (hd.symm.trans hw)
  exact h.opened (h.pending (by rw [hp, e]; exact List.mem_cons_self))

end Step

/-- **Every step keeps the books**, when `getpeername` succeeds and no `write` fails for good. -/
theorem inv_step {s s' : State} {a : Act} (h : Inv s) (hg : unbroken s a)
    (hs : step s a = some s') : Inv s' := by
  have hw := h.point
  have hnd := h.nodup
  cases outcome_of_step hs with
  | enter hp | test hp | batchEnd hp | terminate hp _ =>
    exact h.goto trivial (by rw [hp]; rfl) (List.nil_sublist _)
  | stop hp =>
    exact h.goto trivial (by rcases hp with hp | hp <;> rw [hp] <;> rfl) (List.nil_sublist _)
  | @epollWait evs hp hw => exact (h.epollWait hp hw).record trivial nofun
  | hangup hp => exact h.goto trivial (by rw [hp]; rfl) (by rw [hp]; exact .refl _)
  | report hp | incoming hp _ =>
    exact h.goto trivial (by rw [hp]; rfl) (by rw [hp]; exact List.sublist_cons_self ..)
  | readable hp _ => exact h.goto trivial (by rw [hp]; rfl) (by rw [hp]; exact .refl _)
  | @close fd evs hp =>
    rw [hp] at hnd
    have hopen := h.opened (h.pending (by rw [hp]; exact List.mem_cons_self))
    exact h.closeFd hopen trivial rfl (by rw [hp]; nofun)
      (by rw [hp]; exact List.sublist_cons_self ..) (List.nodup_cons.mp hnd).1
  | accept hp hl hf => exact (h.accept hp hl hf).record trivial nofun
  | acceptAgain hp =>
    exact h.call trivial nofun trivial (by rw [hp]; rfl) (by rw [hp]; exact .refl _)
  | acceptError hp => exact h.call trivial nofun trivial (by rw [hp]) (by rw [hp])
  | getpeername hp | getfl hp | setfl hp =>
    exact h.goto trivial (by rw [hp]; rfl) (by rw [hp]; exact .refl _)
  | getpeernameFail hp => exact absurd hg.1 nofun
  | clientFail hp =>
    rcases hp with hp | hp | hp <;>
      exact h.goto trivial (by rw [hp]; rfl) (by rw [hp]; exact .refl _)
  | ctlAdd hp _ => exact h.ctlAdd hp
  | @closeClient cli_fd evs hp =>
    have hclient : s.point.client = some cli_fd := by rw [hp]; rfl
    obtain ⟨hint, c, hf⟩ := h.client hclient
    refine h.closeFd (by rw [hf]; nofun) trivial rfl (fun he => ?_) (by rw [hp]; exact .refl _)
      fun hm => ?_
    · rw [hclient, Option.some.injEq] at he
      exact he.symm
    · rw [h.pending (by rw [hp]; exact hm)] at hint
      cases hint
  | readData hp _ =>
    have hopen := h.opened (h.pending (by rw [hp]; exact List.mem_cons_self))
    exact h.call hopen nofun rfl (by rw [hp]; rfl) (by rw [hp]; exact .refl _)
  | readAgain hp =>
    have hopen := h.opened (h.pending (by rw [hp]; exact List.mem_cons_self))
    exact h.call hopen nofun trivial (by rw [hp]; rfl) (by rw [hp]; exact List.sublist_cons_self ..)
  | readStop hp =>
    have hopen := h.opened (h.pending (by rw [hp]; exact List.mem_cons_self))
    exact h.call hopen nofun trivial (by rw [hp]; rfl) (by rw [hp]; exact .refl _)
  | hasCallback hp =>
    rw [hp] at hw
    exact h.goto hw (by rw [hp]; rfl) (by rw [hp]; exact .refl _)
  | noCallback hp _ => exact h.goto trivial (by rw [hp]; rfl) (by rw [hp]; exact .refl _)
  | callback hp =>
    rw [hp] at hw
    exact h.call trivial nofun hw (by rw [hp]; rfl) (by rw [hp]; exact .refl _)
  | noFd hp _ => exact h.goto trivial (by rw [hp]; rfl) (by rw [hp]; exact .refl _)
  | write hp hd _ | writeAgain hp hd =>
    exact h.call (h.writeOpen hp hd) nofun trivial (by rw [hp]; rfl) (by rw [hp]; exact .refl _)
  | writeError hp hd => exact absurd rfl hg.2
  | closeSend hp =>
    rw [hp] at hw
    exact hw.elim

/-- **The accepted descriptors are accounted for**, in every run whose `getpeername` calls succeed
and whose `write` calls fail with `EAGAIN` only. -/
theorem accounted {as : List Act} {s : State} (h : Run step unbroken init as s) : Accounted s := by
  have hi : Inv s := h.invariant (I := Inv) init_inv fun _ _ _ => inv_step
  refine ⟨fun hp fd => ⟨?_, ?_⟩, hi.once, hi.onOpen⟩
  · rintro ⟨c, hf⟩
    refine ⟨(hi.listed hf).resolve_right ?_, hi.handle hf⟩
    rw [hp]
    nofun
  · rintro ⟨hint, hne⟩
    exact (hi.registered hint).resolve_left hne

/-- Two clients, one after the other, on the number 5; the first is served until it closes. -/
def twoClientsRun : List Act :=
  [.calloc true, .test, .epollWait [(4, .readable)], .dispatch,
    .accept (.ok 5), .getpeername true, .getfl true, .setfl true, .ctlAdd true, .accept .again,
    .dispatch, .test, .epollWait [(5, .readable)], .dispatch,
    .read (.data [104]), .testCallback, .callback, .write (.ok 1), .read .eof, .close,
    .dispatch, .test, .epollWait [(4, .readable)], .dispatch,
    .accept (.ok 5), .getpeername true, .getfl true, .setfl true, .ctlAdd true, .accept .again,
    .dispatch]

theorem accounted_twoClients : ∃ s, Run step unbroken init twoClientsRun s ∧
    (s.point = .head ∧ s.files 5 = some (.sock 1) ∧ s.closes 0 = 1) ∧ Accounted s := by
  obtain ⟨s, hr, hp⟩ : ∃ s, Run step unbroken init twoClientsRun s ∧
      s.point = .head ∧ s.files 5 = some (.sock 1) ∧ s.closes 0 = 1 :=
    Run.exists_of_exec _ _ (by decide)
  exact ⟨s, hr, hp, accounted hr⟩

/-! ## Without the guard -/

/-- `getpeername` fails: the loop goes on with the next `accept`. -/
def leakRun : List Act :=
  [.calloc true, .test, .epollWait [(4, .readable)], .dispatch,
    .accept (.ok 5), .getpeername false, .accept .again, .dispatch]

/-- `write` fails: `SendData` closes the descriptor, and `OnSocketRead` reads it. -/
def brokenRun : List Act :=
  [.calloc true, .test, .epollWait [(4, .readable)], .dispatch,
    .accept (.ok 5), .getpeername true, .getfl true, .setfl true, .ctlAdd true, .accept .again,
    .dispatch, .test, .epollWait [(5, .readable)], .dispatch,
    .read (.data [104]), .testCallback, .callback, .write .error, .close, .read .error, .close]

/-- **Each of the two conditions is needed**: a descriptor stays open and is not registered, and a
descriptor that was closed is read and closed again. -/
theorem not_accounted :
    (¬ ∀ as s, Run step (fun s a => lowestFree s a ∧ writable s a) init as s → Accounted s) ∧
    ¬ ∀ as s, Run step (fun s a => lowestFree s a ∧ peerKnown s a) init as s → Accounted s := by
  constructor
  · intro h
    obtain ⟨s, hr, hp, hf, hi⟩ : ∃ s,
        Run step (fun s a => lowestFree s a ∧ writable s a) init leakRun s ∧
        s.point = .head ∧ s.files 5 = some (.sock 0) ∧ s.interest 5 = false :=
      Run.exists_of_exec _ _ (by decide)
    have := (((h _ _ hr).registered hp 5).mp ⟨0, hf⟩).1
    rw [hi] at this
    cases this
  · intro h
    obtain ⟨s, hr, hp⟩ : ∃ s,
        Run step (fun s a => lowestFree s a ∧ peerKnown s a) init brokenRun s ∧
        .read none [] ∈ s.log ∧ .close none ∈ s.log :=
      Run.exists_of_exec _ _ (by decide)
    exact (h _ _ hr).onOpen _ hp.2 rfl

end PracticeCode.EpollTcpServer
