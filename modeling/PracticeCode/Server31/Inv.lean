import PracticeCode.Server31.Outcome

/-!
# The bookkeeping invariant of server 3.1

* a bound connection is in one of three phases: both descriptors refer to it, only the eventfd is
  left (between the two `close` calls), or it is closed;
* a registered number carries the object of the connection it refers to;
* an event of the batch for a socket is for a serving connection, since only the handler of the
  event itself closes it, and no object is twice in a batch;
* the tasks of the pool are `data_handler` calls on bound objects.
-/

namespace PracticeCode.Server31

open Lib Linux

/-! ## What the reactor's point tells -/

/-- The events of the batch that the reactor has not looked at yet. -/
def Reactor.batch : Reactor → List Event
  | .loop evs | .conn _ _ evs | .data _ _ _ _ evs | .rsp _ _ _ _ evs => evs
  | .wait | .exited => []

/-- The object `data_handler_by_worker` runs for. -/
def Reactor.reading : Reactor → Option RevPtr
  | .data rev _ _ _ _ => some rev
  | _ => none

/-- The object whose socket is closed and whose eventfd is not. -/
def Reactor.closing : Reactor → Option RevPtr
  | .data rev _ _ .closeRsp _ => some rev
  | _ => none

/-- Both descriptors of the connection refer to it. -/
structure Serving (s : State) (c : Conn) (r : ReactorEvent) : Prop where
  bound : s.heap (.data c) = some r
  live : s.live (.data c) = true
  sock : s.kernel.files r.client_fd = some (.sock c)
  event : s.kernel.files r.rsp_event_fd = some (.event c)

inductive Phase (s : State) (c : Conn) (r : ReactorEvent) : Prop
  | serving : Serving s c r → Phase s c r
  | closing : s.reactor.closing = some (.data c) → (∀ fd, s.kernel.files fd ≠ some (.sock c)) →
      s.kernel.files r.rsp_event_fd = some (.event c) → Phase s c r
  | closed : (∀ fd, s.kernel.files fd ≠ some (.sock c)) →
      (∀ fd, s.kernel.files fd ≠ some (.event c)) → Phase s c r

def Unregistered (s : State) (p : RevPtr) : Prop := ∀ fd, s.kernel.reg fd ≠ some p

def AtData (s : State) (c : Conn) (r : ReactorEvent) : DataPoint → Prop
  | .recv | .push _ | .addQueue | .delClient => Serving s c r
  | .delRsp => Serving s c r ∧ Unregistered s (.data c)
  | .closeClient => Serving s c r ∧ Unregistered s (.data c) ∧ Unregistered s (.rsp c)
  | .closeRsp => (∀ fd, s.kernel.files fd ≠ some (.sock c)) ∧
      s.kernel.files r.rsp_event_fd = some (.event c) ∧
      Unregistered s (.data c) ∧ Unregistered s (.rsp c)
  | .unbind => (∀ fd, s.kernel.files fd ≠ some (.sock c)) ∧
      (∀ fd, s.kernel.files fd ≠ some (.event c)) ∧
      Unregistered s (.data c) ∧ Unregistered s (.rsp c)

def AtConn (s : State) : ConnPoint → Prop
  | .accept => True
  | .eventfd c cfd => s.heap (.data c) = none ∧ s.kernel.Accepted c ∧
      s.kernel.files cfd = some (.sock c) ∧ ∀ fd, s.kernel.files fd ≠ some (.event c)
  | .addClient c cfd evfd => s.heap (.data c) = none ∧ s.kernel.Accepted c ∧
      s.kernel.files cfd = some (.sock c) ∧ s.kernel.files evfd = some (.event c)
  | .addRsp c cfd evfd => s.heap (.rsp c) = none ∧
      ∃ r, Serving s c r ∧ r = ⟨efd, cfd, evfd, some c, some c, .data_handler_by_worker⟩

/-- What holds where the reactor is. -/
def At (s : State) : Reactor → Prop
  | .wait | .loop _ => True
  | .exited => ∀ fd, s.kernel.files fd = none
  | .conn _ pt _ => AtConn s pt
  | .data rev cfd rspfd pt _ => ∃ c r, rev = .data c ∧ s.heap rev = some r ∧ r.client_fd = cfd ∧
      r.rsp_event_fd = rspfd ∧ AtData s c r pt
  | .rsp rev cfd evfd _ _ => ∃ c r, rev = .rsp c ∧ s.heap rev = some r ∧ r.client_fd = cfd ∧
      r.rsp_event_fd = evfd

/-- A `data_handler` call on a bound object. -/
def IsTask (heap : RevPtr → Option ReactorEvent) (rev : RevPtr) : Prop :=
  ∃ c r, rev = .data c ∧ heap rev = some r

structure Inv (s : State) : Prop where
  kernel : s.kernel.Wf
  event_accepted : ∀ {fd c}, s.kernel.files fd = some (.event c) → s.kernel.Accepted c
  listen : s.heap .listen = some ⟨efd, sfd, 0, none, none, .connection_handler⟩
  data : ∀ {c r}, s.heap (.data c) = some r → r.callback = .data_handler_by_worker ∧
    r.req_queue = some c ∧ r.rsp_queue = some c ∧ s.kernel.Accepted c ∧ Phase s c r
  rsp : ∀ {c r}, s.heap (.rsp c) = some r →
    ∃ r', s.heap (.data c) = some r' ∧ r = { r' with callback := .rsp_handler }
  regData : ∀ {fd c}, s.kernel.reg fd = some (.data c) → ∃ r, Serving s c r ∧ fd = r.client_fd
  regRsp : ∀ {fd c}, s.kernel.reg fd = some (.rsp c) →
    s.heap (.rsp c) ≠ none ∧ ∃ r, Serving s c r ∧ fd = r.rsp_event_fd
  regListen : ∀ {fd}, s.kernel.reg fd = some .listen →
    s.kernel.files fd = some .listening ∧ fd = sfd
  batchData : ∀ {c b}, (.data c, b) ∈ s.reactor.batch → ∃ r, Serving s c r
  batchRsp : ∀ {c b}, (.rsp c, b) ∈ s.reactor.batch → s.heap (.rsp c) ≠ none
  nodup : (s.reactor.reading.toList ++ s.reactor.batch.map Prod.fst).Nodup
  point : At s s.reactor
  queue : ∀ {rev}, rev ∈ s.task_queue → IsTask s.heap rev
  workers : ∀ {rev pt}, .run rev pt ∈ s.workers → IsTask s.heap rev

theorem init_inv (n : ℕ) : Inv (init n) := by
  have hfiles : ∀ {fd c}, (init n).kernel.files fd ≠ some (.event c) := by
    intro fd c; simp only [init, Kernel.boot]; grind
  have hbatch : ∀ {e}, e ∉ (init n).reactor.batch := List.not_mem_nil
  have hqueue : ∀ {rev}, rev ∉ (init n).task_queue := List.not_mem_nil
  refine ⟨Kernel.boot_wf .., fun h => absurd h hfiles, rfl, ?_, ?_, ?_, ?_, ?_,
    fun h => absurd h hbatch, fun h => absurd h hbatch, List.nodup_nil, trivial,
    fun h => absurd h hqueue, ?_⟩
  · intro c r h; simp [init] at h
  · intro c r h; simp [init] at h
  · intro fd c h; simp only [init, Kernel.boot] at h; grind
  · intro fd c h; simp only [init, Kernel.boot] at h; grind
  · intro fd h; simp only [init, Kernel.boot] at h ⊢; grind
  · intro rev pt h
    simp [init, List.mem_replicate] at h

section Frames

variable {s s' : State}

theorem Serving.unique {c : Conn} {r r' : ReactorEvent} (h : Serving s c r)
    (h' : s.heap (.data c) = some r') : r = r' := by
  have := h.bound
  rw [h'] at this
  exact (Option.some.inj this).symm

/-- A bound connection whose socket is open is served on the number it is bound to. -/
theorem Phase.serving_of_sock {c : Conn} {r : ReactorEvent} {fd : Fd} (h : Phase s c r)
    (hf : s.kernel.files fd = some (.sock c)) : Serving s c r := by
  cases h with
  | serving h => exact h
  | closing _ h => exact absurd hf (h fd)
  | closed h => exact absurd hf (h fd)

theorem Phase.serving_of_event {c : Conn} {r : ReactorEvent} {fd : Fd} (h : Phase s c r)
    (hc : s.reactor.closing ≠ some (.data c)) (hf : s.kernel.files fd = some (.event c)) :
    Serving s c r := by
  cases h with
  | serving h => exact h
  | closing h => exact absurd h hc
  | closed _ h => exact absurd hf (h fd)

/-! ## Steps that leave the table, the interest list and the heap alone -/

structure Same (s s' : State) : Prop where
  files : s'.kernel.files = s.kernel.files
  reg : s'.kernel.reg = s.kernel.reg
  accepted : ∀ {c}, s.kernel.Accepted c → s'.kernel.Accepted c
  heap : s'.heap = s.heap
  live : s'.live = s.live

/-- Reading a descriptor changes a counter or an inbox only. -/
theorem Same.readU64 {fd : Fd} (hk : s'.kernel = (s.kernel.readU64 fd).2) (hh : s'.heap = s.heap)
    (hl : s'.live = s.live) : Same s s' := by
  refine ⟨?_, ?_, fun hc => ?_, hh, hl⟩
  · rw [hk, Kernel.readU64_files]
  · rw [hk, Kernel.readU64_reg]
  · rw [hk]
    simpa [Kernel.Accepted] using hc

theorem Serving.same {c : Conn} {r : ReactorEvent} (h : Serving s c r) (hs : Same s s') :
    Serving s' c r :=
  ⟨by rw [hs.heap]; exact h.bound, by rw [hs.live]; exact h.live, by rw [hs.files]; exact h.sock,
    by rw [hs.files]; exact h.event⟩

theorem Unregistered.same {p : RevPtr} (h : Unregistered s p) (hs : Same s s') :
    Unregistered s' p := fun fd => by rw [hs.reg]; exact h fd

theorem AtData.same {c : Conn} {r : ReactorEvent} {pt : DataPoint} (h : AtData s c r pt)
    (hs : Same s s') : AtData s' c r pt := by
  cases pt with
  | recv | push | addQueue | delClient => exact Serving.same h hs
  | delRsp => exact ⟨h.1.same hs, h.2.same hs⟩
  | closeClient => exact ⟨h.1.same hs, h.2.1.same hs, h.2.2.same hs⟩
  | closeRsp =>
    exact ⟨by rw [hs.files]; exact h.1, by rw [hs.files]; exact h.2.1, h.2.2.1.same hs,
      h.2.2.2.same hs⟩
  | unbind =>
    exact ⟨by rw [hs.files]; exact h.1, by rw [hs.files]; exact h.2.1, h.2.2.1.same hs,
      h.2.2.2.same hs⟩

theorem At.same {r : Reactor} (h : At s r) (hs : Same s s') : At s' r := by
  cases r with
  | wait | loop => trivial
  | exited => exact fun fd => by rw [hs.files]; exact h fd
  | conn lfd pt evs =>
    cases pt with
    | accept => trivial
    | eventfd c cfd =>
      obtain ⟨h1, h2, h3, h4⟩ := h
      exact ⟨by rw [hs.heap]; exact h1, hs.accepted h2, by rw [hs.files]; exact h3,
        by rw [hs.files]; exact h4⟩
    | addClient c cfd evfd =>
      obtain ⟨h1, h2, h3, h4⟩ := h
      exact ⟨by rw [hs.heap]; exact h1, hs.accepted h2, by rw [hs.files]; exact h3,
        by rw [hs.files]; exact h4⟩
    | addRsp c cfd evfd =>
      obtain ⟨h1, r, h2, h3⟩ := h
      exact ⟨by rw [hs.heap]; exact h1, r, h2.same hs, h3⟩
  | data rev cfd rspfd pt evs =>
    obtain ⟨c, r, h1, h2, h3, h4, h5⟩ := h
    exact ⟨c, r, h1, by rw [hs.heap]; exact h2, h3, h4, h5.same hs⟩
  | rsp rev cfd evfd pt evs =>
    obtain ⟨c, r, h1, h2, h3⟩ := h
    exact ⟨c, r, h1, by rw [hs.heap]; exact h2, h3⟩

/-- The reactor may move on, and the pool may change its tasks. -/
theorem Inv.move (h : Inv s) (hs : Same s s') (hwf : s'.kernel.Wf)
    (hclosing : s'.reactor.closing = s.reactor.closing)
    (hbatch : ∀ e ∈ s'.reactor.batch, e ∈ s.reactor.batch)
    (hnodup : (s'.reactor.reading.toList ++ s'.reactor.batch.map Prod.fst).Nodup)
    (hpoint : At s' s'.reactor) (hqueue : ∀ {rev}, rev ∈ s'.task_queue → IsTask s.heap rev)
    (hworkers : ∀ {rev pt}, .run rev pt ∈ s'.workers → IsTask s.heap rev) : Inv s' where
  kernel := hwf
  event_accepted hf := hs.accepted (h.event_accepted (by rw [← hs.files]; exact hf))
  listen := by rw [hs.heap]; exact h.listen
  data hd := by
    rw [hs.heap] at hd
    obtain ⟨h1, h2, h3, h4, h5⟩ := h.data hd
    refine ⟨h1, h2, h3, hs.accepted h4, ?_⟩
    cases h5 with
    | serving h5 => exact .serving (h5.same hs)
    | closing a b d =>
      exact .closing (by rw [hclosing]; exact a) (by rw [hs.files]; exact b)
        (by rw [hs.files]; exact d)
    | closed a b => exact .closed (by rw [hs.files]; exact a) (by rw [hs.files]; exact b)
  rsp hr := by
    rw [hs.heap] at hr ⊢
    exact h.rsp hr
  regData hr := by
    rw [hs.reg] at hr
    obtain ⟨r, h1, h2⟩ := h.regData hr
    exact ⟨r, h1.same hs, h2⟩
  regRsp hr := by
    rw [hs.reg] at hr
    obtain ⟨h0, r, h1, h2⟩ := h.regRsp hr
    exact ⟨by rw [hs.heap]; exact h0, r, h1.same hs, h2⟩
  regListen hr := by
    rw [hs.reg] at hr
    rw [hs.files]
    exact h.regListen hr
  batchData hb := by
    obtain ⟨r, h1⟩ := h.batchData (hbatch _ hb)
    exact ⟨r, h1.same hs⟩
  batchRsp hb := by
    rw [hs.heap]
    exact h.batchRsp (hbatch _ hb)
  nodup := hnodup
  point := hpoint
  queue hm := by
    rw [hs.heap]
    exact hqueue hm
  workers hm := by
    rw [hs.heap]
    exact hworkers hm

/-- The handler goes on, or is left without its object having been read from. -/
theorem Inv.pass (h : Inv s) {re re' : Reactor} (hs : Same s s') (hwf : s'.kernel.Wf)
    (hr : s.reactor = re) (hr' : s'.reactor = re') (hclosing : re'.closing = re.closing)
    (hbatch : re'.batch = re.batch) (hreading : re'.reading = re.reading) (hpoint : At s' re')
    (hqueue : ∀ {rev}, rev ∈ s'.task_queue → IsTask s.heap rev)
    (hworkers : ∀ {rev pt}, .run rev pt ∈ s'.workers → IsTask s.heap rev) : Inv s' := by
  subst hr hr'
  refine h.move hs hwf hclosing (fun e he => hbatch ▸ he) ?_ hpoint hqueue hworkers
  rw [hreading, hbatch]
  exact h.nodup

/-- A step of a client or a worker. -/
theorem Inv.stay (h : Inv s) (hs : Same s s') (hwf : s'.kernel.Wf) (hr : s'.reactor = s.reactor)
    (hqueue : ∀ {rev}, rev ∈ s'.task_queue → IsTask s.heap rev)
    (hworkers : ∀ {rev pt}, .run rev pt ∈ s'.workers → IsTask s.heap rev) : Inv s' :=
  h.pass hs hwf rfl hr rfl rfl rfl (h.point.same hs) hqueue hworkers

theorem Inv.workers_set (h : Inv s) {w : ℕ} {x : Worker} (hx : ∀ rev pt, x = .run rev pt →
    IsTask s.heap rev) {rev : RevPtr} {pt : WorkPoint} (hm : .run rev pt ∈ s.workers.set w x) :
    IsTask s.heap rev := by
  rcases List.mem_or_eq_of_mem_set hm with hm | rfl
  · exact h.workers hm
  · exact hx _ _ rfl

/-! ## Steps that change the table or the interest list -/

/-- A step of the reactor that binds nothing; `P` are the connections it leaves in service. -/
theorem Inv.change (h : Inv s) (P : Conn → Prop) (hwf : s'.kernel.Wf) (hheap : s'.heap = s.heap)
    (hacc : ∀ {c}, s.kernel.Accepted c → s'.kernel.Accepted c)
    (hevent : ∀ {fd c}, s'.kernel.files fd = some (.event c) → s'.kernel.Accepted c)
    (hphase : ∀ {c r}, s.heap (.data c) = some r → Phase s c r → Phase s' c r)
    (hserv : ∀ {c r}, P c → Serving s c r → Serving s' c r)
    (hreg : ∀ {fd p}, s'.kernel.reg fd = some p →
      s.kernel.reg fd = some p ∧ s'.kernel.files fd = s.kernel.files fd)
    (hregData : ∀ {fd c}, s'.kernel.reg fd = some (.data c) → P c)
    (hregRsp : ∀ {fd c}, s'.kernel.reg fd = some (.rsp c) → P c)
    (hbatch : ∀ e ∈ s'.reactor.batch, e ∈ s.reactor.batch)
    (hbatchData : ∀ {c b}, (.data c, b) ∈ s'.reactor.batch → P c)
    (hnodup : (s'.reactor.reading.toList ++ s'.reactor.batch.map Prod.fst).Nodup)
    (hpoint : At s' s'.reactor) (hqueue : s'.task_queue = s.task_queue)
    (hworkers : s'.workers = s.workers) : Inv s' where
  kernel := hwf
  event_accepted := hevent
  listen := by rw [hheap]; exact h.listen
  data hd := by
    rw [hheap] at hd
    obtain ⟨h1, h2, h3, h4, h5⟩ := h.data hd
    exact ⟨h1, h2, h3, hacc h4, hphase hd h5⟩
  rsp hr := by
    rw [hheap] at hr ⊢
    exact h.rsp hr
  regData hr := by
    obtain ⟨r, h1, h2⟩ := h.regData (hreg hr).1
    exact ⟨r, hserv (hregData hr) h1, h2⟩
  regRsp hr := by
    obtain ⟨h0, r, h1, h2⟩ := h.regRsp (hreg hr).1
    exact ⟨by rw [hheap]; exact h0, r, hserv (hregRsp hr) h1, h2⟩
  regListen hr := by
    obtain ⟨h1, h2⟩ := hreg hr
    rw [h2]
    exact h.regListen h1
  batchData hb := by
    obtain ⟨r, h1⟩ := h.batchData (hbatch _ hb)
    exact ⟨r, hserv (hbatchData hb) h1⟩
  batchRsp hb := by
    rw [hheap]
    exact h.batchRsp (hbatch _ hb)
  nodup := hnodup
  point := hpoint
  queue hm := by
    rw [hheap]
    rw [hqueue] at hm
    exact h.queue hm
  workers hm := by
    rw [hheap]
    rw [hworkers] at hm
    exact h.workers hm

/-- A new number leaves the connections that have both of theirs in service. -/
theorem Serving.open_free {c : Conn} {r : ReactorEvent} {k : Kernel RevPtr} {re : Reactor} {fd : Fd}
    {f : File} (h : Serving s c r) (hfree : s.kernel.files fd = none)
    (hk : k.files = Function.update s.kernel.files fd (some f)) :
    Serving { s with kernel := k, reactor := re } c r := by
  have hne : ∀ {a g}, s.kernel.files a = some g → k.files a = some g := by
    intro a g ha
    have e : a ≠ fd := by rintro rfl; rw [hfree] at ha; cases ha
    rw [hk, Function.update_of_ne e]
    exact ha
  exact ⟨h.bound, h.live, hne h.sock, hne h.event⟩

/-- A new number of a connection that is not bound leaves the phases of the bound ones. -/
theorem Phase.open_free {c c₀ : Conn} {r : ReactorEvent} {k : Kernel RevPtr} {re : Reactor}
    {fd : Fd} {f : File} (h : Phase s c r) (hclosing : s.reactor.closing = none)
    (hfree : s.kernel.files fd = none) (hk : k.files = Function.update s.kernel.files fd (some f))
    (hf : f = .sock c₀ ∨ f = .event c₀) (hne : c ≠ c₀) :
    Phase { s with kernel := k, reactor := re } c r := by
  cases h with
  | serving h => exact .serving (h.open_free hfree hk)
  | closing h => rw [hclosing] at h; cases h
  | closed h1 h2 =>
    refine .closed (fun a ha => ?_) fun a ha => ?_
    · simp only [hk, Function.update_apply] at ha
      split at ha
      · cases ha
        rcases hf with e | e <;> cases e
        exact hne rfl
      · exact h1 a ha
    · simp only [hk, Function.update_apply] at ha
      split at ha
      · cases ha
        rcases hf with e | e <;> cases e
        exact hne rfl
      · exact h2 a ha

theorem Inv.accept (h : Inv s) {lfd fd : Fd} {evs : List Event} {p : Conn × Kernel RevPtr}
    (hr : s.reactor = .conn lfd .accept evs) (hk : s.kernel.accept lfd fd = some p) :
    Inv { s with kernel := p.2, reactor := .conn lfd (.eventfd p.1 fd) evs } := by
  have hwf := h.kernel.accept hk
  have hnew := Kernel.not_accepted_of_accept hk
  have hacc : ∀ {c}, s.kernel.Accepted c → p.2.Accepted c := fun hc => hc.accept hk
  obtain ⟨rest, hb, hfree, hp⟩ := Kernel.accept_eq_some hk
  have hfiles : p.2.files = Function.update s.kernel.files fd (some (.sock p.1)) := by rw [hp]
  have hself : p.2.files fd = some (.sock p.1) := by simp [hfiles]
  have hold : ∀ {a c}, p.2.files a = some (.event c) → s.kernel.files a = some (.event c) := by
    intro a c ha
    simp only [hfiles, Function.update_apply] at ha
    split at ha
    · cases ha
    · exact ha
  refine h.change (fun _ => True) hwf rfl hacc (fun ha => hacc (h.event_accepted (hold ha)))
    ?_ (fun _ hc => hc.open_free hfree hfiles) ?_ (fun _ => trivial) (fun _ => trivial)
    (by rw [hr]; exact fun _ he => he) (fun _ => trivial)
    (by have := h.nodup; rw [hr] at this; exact this) ?_ rfl rfl
  · intro c r hc hph
    refine hph.open_free (by rw [hr]; rfl) hfree hfiles (.inl rfl) ?_
    rintro rfl
    exact hnew (h.data hc).2.2.2.1
  · intro a q ha
    replace ha : s.kernel.reg a = some q := by simpa only [hp] using ha
    have hne : a ≠ fd := by
      rintro rfl
      rw [h.kernel.reg_open hfree] at ha
      cases ha
    exact ⟨ha, by rw [hfiles, Function.update_of_ne hne]⟩
  · refine ⟨?_, hwf.accepted_of_open hself, hself, fun a ha => hnew (h.event_accepted (hold ha))⟩
    cases hh : s.heap (.data p.1) with
    | none => rfl
    | some r => exact absurd (h.data hh).2.2.2.1 hnew

theorem Inv.eventfd (h : Inv s) {lfd cfd fd : Fd} {c₀ : Conn} {evs : List Event}
    {k : Kernel RevPtr} (hr : s.reactor = .conn lfd (.eventfd c₀ cfd) evs)
    (hk : s.kernel.eventfd fd c₀ = some k) :
    Inv { s with kernel := k, reactor := .conn lfd (.addClient c₀ cfd fd) evs } := by
  obtain ⟨hnone, hacc₀, hsock, hnoev⟩ : AtConn s (.eventfd c₀ cfd) := by
    have := h.point
    rw [hr] at this
    exact this
  have hwf := h.kernel.eventfd hnoev hk
  obtain ⟨hfree, hp⟩ := Kernel.eventfd_eq_some hk
  have hfiles : k.files = Function.update s.kernel.files fd (some (.event c₀)) := by rw [hp]
  have hacc : ∀ {c}, s.kernel.Accepted c → k.Accepted c := fun hc => by rw [hp]; exact hc
  refine h.change (fun _ => True) hwf rfl hacc ?_ ?_ (fun _ hc => hc.open_free hfree hfiles) ?_
    (fun _ => trivial) (fun _ => trivial) (by rw [hr]; exact fun _ he => he) (fun _ => trivial)
    (by have := h.nodup; rw [hr] at this; exact this) ?_ rfl rfl
  · intro a c ha
    simp only [hfiles, Function.update_apply] at ha
    split at ha
    · cases ha
      exact hacc hacc₀
    · exact hacc (h.event_accepted ha)
  · intro c r hc hph
    refine hph.open_free (by rw [hr]; rfl) hfree hfiles (.inr rfl) ?_
    rintro rfl
    rw [hnone] at hc
    cases hc
  · intro a q ha
    replace ha : s.kernel.reg a = some q := by simpa only [hp] using ha
    have hne : a ≠ fd := by
      rintro rfl
      rw [h.kernel.reg_open hfree] at ha
      cases ha
    exact ⟨ha, by rw [hfiles, Function.update_of_ne hne]⟩
  · have hne : cfd ≠ fd := by rintro rfl; rw [hfree] at hsock; cases hsock
    exact ⟨hnone, hacc hacc₀, by rw [hfiles, Function.update_of_ne hne]; exact hsock,
      by rw [hfiles, Function.update_self]⟩

/-- The object of a socket whose two numbers are `cfd` and `evfd`. -/
abbrev dataEvent (c : Conn) (cfd evfd : Fd) : ReactorEvent :=
  ⟨efd, cfd, evfd, some c, some c, .data_handler_by_worker⟩

section Bind

variable {p q : RevPtr} {c₀ : Conn} {cfd evfd : Fd} {cb : Callback} {r : ReactorEvent}

theorem bind_heap_of_ne (hne : q ≠ p) : (s.bind p c₀ cfd evfd cb).heap q = s.heap q :=
  Function.update_of_ne hne ..

theorem bind_live_of_ne (hne : q ≠ p) : (s.bind p c₀ cfd evfd cb).live q = s.live q :=
  Function.update_of_ne hne ..

/-- An object that is bound is not the one that is going to be bound. -/
theorem ne_of_bound (hnone : s.heap p = none) (hq : s.heap q = some r) : q ≠ p := by
  rintro rfl
  rw [hnone] at hq
  cases hq

theorem heap_bind (hnone : s.heap p = none) (hq : s.heap q = some r) :
    (s.bind p c₀ cfd evfd cb).heap q = some r := by
  rw [bind_heap_of_ne (ne_of_bound hnone hq)]
  exact hq

theorem heap_of_bind (hq : (s.bind p c₀ cfd evfd cb).heap q = some r) :
    q = p ∧ r = ⟨efd, cfd, evfd, some c₀, some c₀, cb⟩ ∨ s.heap q = some r := by
  by_cases e : q = p
  · subst e
    have hself : (s.bind q c₀ cfd evfd cb).heap q = some ⟨efd, cfd, evfd, some c₀, some c₀, cb⟩ :=
      Function.update_self ..
    rw [hself] at hq
    cases hq
    exact .inl ⟨rfl, rfl⟩
  · rw [bind_heap_of_ne e] at hq
    exact .inr hq

theorem Serving.bind {k : Kernel RevPtr} {re : Reactor} {c : Conn} (h : Serving s c r)
    (hnone : s.heap p = none) (hf : k.files = s.kernel.files) :
    Serving { s.bind p c₀ cfd evfd cb with kernel := k, reactor := re } c r := by
  have hlive : (s.bind p c₀ cfd evfd cb).live (.data c) = true :=
    (bind_live_of_ne (ne_of_bound hnone h.bound)).trans h.live
  exact ⟨heap_bind hnone h.bound, hlive, by rw [hf]; exact h.sock, by rw [hf]; exact h.event⟩

theorem IsTask.bind {rev : RevPtr} (h : IsTask s.heap rev) (hnone : s.heap p = none) :
    IsTask (s.bind p c₀ cfd evfd cb).heap rev := by
  obtain ⟨c, r, e, hr⟩ := h
  exact ⟨c, r, e, heap_bind hnone hr⟩

end Bind

/-- `bind_reacotr_event` and `EPOLL_CTL_ADD` of one of the two objects of a connection. -/
theorem Inv.bind (h : Inv s) {p : RevPtr} {c₀ : Conn} {cfd evfd fd : Fd} {cb : Callback}
    {k : Kernel RevPtr} {re : Reactor} (hnone : s.heap p = none)
    (hk : s.kernel.ctlAdd fd p = some k)
    (hp : p = .data c₀ ∧ cb = .data_handler_by_worker ∧ fd = cfd ∨
      p = .rsp c₀ ∧ cb = .rsp_handler ∧ fd = evfd)
    (hserv : Serving { s.bind p c₀ cfd evfd cb with kernel := k, reactor := re } c₀
      (dataEvent c₀ cfd evfd))
    (hclosing : s.reactor.closing = none) (hbatch : ∀ e ∈ re.batch, e ∈ s.reactor.batch)
    (hnodup : (re.reading.toList ++ re.batch.map Prod.fst).Nodup)
    (hpoint : At { s.bind p c₀ cfd evfd cb with kernel := k, reactor := re } re) :
    Inv { s.bind p c₀ cfd evfd cb with kernel := k, reactor := re } := by
  have hwf := h.kernel.ctlAdd hk
  obtain ⟨hopen, -, rfl⟩ := Kernel.ctlAdd_eq_some hk
  -- the new registration is the one of `p`, the others are old
  have hreg : ∀ {a q}, Function.update s.kernel.reg fd (some p) a = some q →
      a = fd ∧ q = p ∨ s.kernel.reg a = some q := by
    intro a q ha
    simp only [Function.update_apply] at ha
    split at ha
    · exact .inl ⟨by assumption, (Option.some.inj ha).symm⟩
    · exact .inr ha
  have hlive : ∀ {q}, s.heap q ≠ none → (s.bind p c₀ cfd evfd cb).heap q ≠ none := by
    intro q hq
    obtain ⟨r', hr'⟩ := Option.ne_none_iff_exists'.mp hq
    rw [heap_bind hnone hr']
    exact Option.some_ne_none r'
  exact {
    kernel := hwf
    event_accepted := h.event_accepted
    listen := heap_bind hnone h.listen
    data := by
      intro c r hc
      rcases heap_of_bind hc with ⟨e, rfl⟩ | hc
      · rcases hp with ⟨rfl, rfl, -⟩ | ⟨rfl, -⟩ <;> cases e
        exact ⟨rfl, rfl, rfl, h.event_accepted hserv.event, .serving hserv⟩
      · obtain ⟨h1, h2, h3, h4, h5⟩ := h.data hc
        refine ⟨h1, h2, h3, h4, ?_⟩
        cases h5 with
        | serving h5 => exact .serving (h5.bind hnone rfl)
        | closing a => rw [hclosing] at a; cases a
        | closed a b => exact .closed a b
    rsp := by
      intro c r hc
      rcases heap_of_bind hc with ⟨e, rfl⟩ | hc
      · rcases hp with ⟨rfl, -⟩ | ⟨rfl, rfl, -⟩ <;> cases e
        exact ⟨_, hserv.bound, rfl⟩
      · obtain ⟨r', hr', e⟩ := h.rsp hc
        exact ⟨r', heap_bind hnone hr', e⟩
    regData := by
      intro a c hr
      rcases hreg hr with ⟨rfl, rfl⟩ | hr
      · rcases hp with ⟨hp, -, hfd⟩ | ⟨hp, -⟩ <;> cases hp
        exact ⟨_, hserv, hfd⟩
      · obtain ⟨r, h1, h2⟩ := h.regData hr
        exact ⟨r, h1.bind hnone rfl, h2⟩
    regRsp := by
      intro a c hr
      rcases hreg hr with ⟨rfl, rfl⟩ | hr
      · rcases hp with ⟨hp, -⟩ | ⟨hp, -, hfd⟩ <;> cases hp
        exact ⟨by simp [State.bind], _, hserv, hfd⟩
      · obtain ⟨h0, r, h1, h2⟩ := h.regRsp hr
        exact ⟨hlive h0, r, h1.bind hnone rfl, h2⟩
    regListen := by
      intro a hr
      rcases hreg hr with ⟨rfl, rfl⟩ | hr
      · rcases hp with ⟨hp, -⟩ | ⟨hp, -⟩ <;> cases hp
      · exact h.regListen hr
    batchData := by
      intro c b hb
      obtain ⟨r, h1⟩ := h.batchData (hbatch _ hb)
      exact ⟨r, h1.bind hnone rfl⟩
    batchRsp := fun hb => hlive (h.batchRsp (hbatch _ hb))
    nodup := hnodup
    point := hpoint
    queue := fun hm => (h.queue hm).bind hnone
    workers := fun hm => (h.workers hm).bind hnone }

theorem Inv.addClient (h : Inv s) {lfd cfd evfd : Fd} {c₀ : Conn} {evs : List Event}
    {k : Kernel RevPtr} (hr : s.reactor = .conn lfd (.addClient c₀ cfd evfd) evs)
    (hk : s.kernel.ctlAdd cfd (.data c₀) = some k) :
    Inv { s.bind (.data c₀) c₀ cfd evfd .data_handler_by_worker with
      kernel := k, reactor := .conn lfd (.addRsp c₀ cfd evfd) evs } := by
  obtain ⟨hnone, -, hsock, hevent⟩ : AtConn s (.addClient c₀ cfd evfd) := by
    have := h.point
    rw [hr] at this
    exact this
  have hserv : Serving { s.bind (.data c₀) c₀ cfd evfd .data_handler_by_worker with
      kernel := k, reactor := .conn lfd (.addRsp c₀ cfd evfd) evs } c₀ (dataEvent c₀ cfd evfd) := by
    obtain ⟨-, -, rfl⟩ := Kernel.ctlAdd_eq_some hk
    exact ⟨Function.update_self .., Function.update_self .., hsock, hevent⟩
  refine h.bind hnone hk (.inl ⟨rfl, rfl, rfl⟩) hserv (by rw [hr]; rfl)
    (by rw [hr]; exact fun _ he => he) (by have := h.nodup; rw [hr] at this; exact this) ?_
  refine ⟨?_, _, hserv, rfl⟩
  rw [show (s.bind (.data c₀) c₀ cfd evfd .data_handler_by_worker).heap (.rsp c₀) =
    s.heap (.rsp c₀) from bind_heap_of_ne (by rintro ⟨⟩)]
  cases hh : s.heap (.rsp c₀) with
  | none => rfl
  | some r =>
    obtain ⟨r', hr', -⟩ := h.rsp hh
    rw [hnone] at hr'
    cases hr'

theorem Inv.addRsp (h : Inv s) {lfd cfd evfd : Fd} {c₀ : Conn} {evs : List Event}
    {k : Kernel RevPtr} (hr : s.reactor = .conn lfd (.addRsp c₀ cfd evfd) evs)
    (hk : s.kernel.ctlAdd evfd (.rsp c₀) = some k) :
    Inv { s.bind (.rsp c₀) c₀ cfd evfd .rsp_handler with
      kernel := k, reactor := .conn lfd .accept evs } := by
  obtain ⟨hnone, r, hserv, rfl⟩ : AtConn s (.addRsp c₀ cfd evfd) := by
    have := h.point
    rw [hr] at this
    exact this
  refine h.bind hnone hk (.inr ⟨rfl, rfl, rfl⟩) ?_ (by rw [hr]; rfl)
    (by rw [hr]; exact fun _ he => he) (by have := h.nodup; rw [hr] at this; exact this) trivial
  obtain ⟨-, -, rfl⟩ := Kernel.ctlAdd_eq_some hk
  exact hserv.bind hnone rfl

/-! ## Closing a connection -/

/-- The point of `data_handler_by_worker`. -/
theorem Inv.atData (h : Inv s) {rev : RevPtr} {cfd rspfd : Fd} {pt : DataPoint} {evs : List Event}
    (hr : s.reactor = .data rev cfd rspfd pt evs) : ∃ c r, rev = .data c ∧
      s.heap (.data c) = some r ∧ r.client_fd = cfd ∧ r.rsp_event_fd = rspfd ∧ AtData s c r pt := by
  have := h.point
  rw [hr] at this
  obtain ⟨c, r, rfl, h1, h2⟩ := this
  exact ⟨c, r, rfl, h1, h2⟩

/-- The point of `rsp_handler`. -/
theorem Inv.atRsp (h : Inv s) {rev : RevPtr} {cfd evfd : Fd} {pt : RspPoint} {evs : List Event}
    (hr : s.reactor = .rsp rev cfd evfd pt evs) : ∃ c r, rev = .rsp c ∧
      s.heap (.rsp c) = some r ∧ r.client_fd = cfd ∧ r.rsp_event_fd = evfd := by
  have := h.point
  rw [hr] at this
  obtain ⟨c, r, rfl, h1, h2⟩ := this
  exact ⟨c, r, rfl, h1, h2⟩

/-- A process that has ended has no descriptors. -/
theorem Inv.not_exited (h : Inv s) {fd : Fd} {f : File} (hf : s.kernel.files fd = some f) :
    s.reactor ≠ .exited := by
  intro hr
  have := h.point
  rw [hr] at this
  rw [this fd] at hf
  cases hf

/-- The object the handler runs for is not in the rest of the batch. -/
theorem Inv.not_mem_batch (h : Inv s) {rev : RevPtr} {cfd rspfd : Fd} {pt : DataPoint}
    {evs : List Event} (hr : s.reactor = .data rev cfd rspfd pt evs) {b : Bool} :
    (rev, b) ∉ evs := by
  have := h.nodup
  rw [hr] at this
  simp only [Reactor.reading, Reactor.batch, Option.toList_some, List.singleton_append,
    List.nodup_cons] at this
  exact fun hm => this.1 (List.mem_map_of_mem hm)

/-- `EPOLL_CTL_DEL`. -/
theorem Inv.ctlDel (h : Inv s) {rev : RevPtr} {cfd rspfd fd : Fd} {pt pt' : DataPoint}
    {evs : List Event} {k : Kernel RevPtr} (hr : s.reactor = .data rev cfd rspfd pt evs)
    (hk : s.kernel.ctlDel fd = some k) (hpt : pt ≠ .closeRsp)
    (hpoint : At { s with kernel := k, reactor := .data rev cfd rspfd pt' evs }
      (.data rev cfd rspfd pt' evs)) :
    Inv { s with kernel := k, reactor := .data rev cfd rspfd pt' evs } := by
  have hwf := h.kernel.ctlDel hk
  obtain ⟨-, rfl⟩ := Kernel.ctlDel_eq_some hk
  have hserv : ∀ {c r}, Serving s c r → Serving { s with
      kernel := { s.kernel with
        reg := Function.update s.kernel.reg fd none
        edge := Function.update s.kernel.edge fd false }
      reactor := .data rev cfd rspfd pt' evs } c r :=
    fun hc => ⟨hc.bound, hc.live, hc.sock, hc.event⟩
  refine h.change (fun _ => True) hwf rfl (fun hc => hc) h.event_accepted ?_ (fun _ hc => hserv hc)
    ?_ (fun _ => trivial) (fun _ => trivial) (by rw [hr]; exact fun _ he => he) (fun _ => trivial)
    (by have := h.nodup; rw [hr] at this; exact this) hpoint rfl rfl
  · intro c r _ hph
    cases hph with
    | serving hc => exact .serving (hserv hc)
    | closing a =>
      rw [hr] at a
      cases pt with
      | closeRsp => exact absurd rfl hpt
      | _ => cases a
    | closed a b => exact .closed a b
  · intro a q ha
    simp only [Function.update_apply] at ha
    split at ha
    · cases ha
    · exact ⟨ha, rfl⟩

theorem Inv.delClient (h : Inv s) {rev : RevPtr} {cfd rspfd : Fd} {evs : List Event}
    {k : Kernel RevPtr} (hr : s.reactor = .data rev cfd rspfd .delClient evs)
    (hk : s.kernel.ctlDel cfd = some k) :
    Inv { s with kernel := k, reactor := .data rev cfd rspfd .delRsp evs } := by
  obtain ⟨c, r, rfl, hc, rfl, rfl, hserv⟩ := h.atData hr
  refine h.ctlDel hr hk nofun ⟨c, r, rfl, hc, rfl, rfl, ?_⟩
  obtain ⟨-, rfl⟩ := Kernel.ctlDel_eq_some hk
  refine ⟨⟨hc, hserv.live, hserv.sock, hserv.event⟩, fun fd hfd => ?_⟩
  simp only [Function.update_apply] at hfd
  split at hfd
  · cases hfd
  · rename_i hne
    obtain ⟨r', h1, h2⟩ := h.regData hfd
    rw [h1.unique hc] at h2
    exact hne h2

theorem Inv.delRsp (h : Inv s) {rev : RevPtr} {cfd rspfd : Fd} {evs : List Event}
    {k : Kernel RevPtr} (hr : s.reactor = .data rev cfd rspfd .delRsp evs)
    (hk : s.kernel.ctlDel rspfd = some k) :
    Inv { s with kernel := k, reactor := .data rev cfd rspfd .closeClient evs } := by
  obtain ⟨c, r, rfl, hc, rfl, rfl, hserv, hun⟩ := h.atData hr
  refine h.ctlDel hr hk nofun ⟨c, r, rfl, hc, rfl, rfl, ?_⟩
  obtain ⟨-, rfl⟩ := Kernel.ctlDel_eq_some hk
  refine ⟨⟨hc, hserv.live, hserv.sock, hserv.event⟩, fun fd hfd => ?_, fun fd hfd => ?_⟩
  · simp only [Function.update_apply] at hfd
    split at hfd
    · cases hfd
    · exact hun fd hfd
  · simp only [Function.update_apply] at hfd
    split at hfd
    · cases hfd
    · rename_i hne
      obtain ⟨-, r', h1, h2⟩ := h.regRsp hfd
      rw [h1.unique hc] at h2
      exact hne h2

/-- A number that is given up leaves the files of the others. -/
theorem close_files_of_ne {k : Kernel RevPtr} {fd a : Fd} {f g : File} (hfd : k.files fd = some f)
    (ha : k.files a = some g) (hne : g ≠ f) : (k.close fd).files a = some g := by
  have e : a ≠ fd := by
    rintro rfl
    rw [hfd] at ha
    exact hne (Option.some.inj ha).symm
  simp only [Kernel.close, Function.update_of_ne e]
  exact ha

theorem files_of_close {k : Kernel RevPtr} {fd a : Fd} {f : File}
    (ha : (k.close fd).files a = some f) : a ≠ fd ∧ k.files a = some f := by
  simp only [Kernel.close, Function.update_apply] at ha
  split at ha
  · cases ha
  · rename_i e
    exact ⟨e, ha⟩

/-- One of the two `close` calls for `c`, which is not registered any more. -/
theorem Inv.close (h : Inv s) {c : Conn} {cfd rspfd fd : Fd} {f : File} {pt pt' : DataPoint}
    {evs : List Event} (hr : s.reactor = .data (.data c) cfd rspfd pt evs)
    (hfd : s.kernel.files fd = some f) (hf : f = .sock c ∨ f = .event c)
    (hun : Unregistered s (.data c) ∧ Unregistered s (.rsp c))
    (hphase : ∀ {r}, s.heap (.data c) = some r →
      Phase { s with
        kernel := s.kernel.close fd, reactor := .data (.data c) cfd rspfd pt' evs } c r)
    (hpoint : At { s with
      kernel := s.kernel.close fd, reactor := .data (.data c) cfd rspfd pt' evs }
        (.data (.data c) cfd rspfd pt' evs)) :
    Inv { s with kernel := s.kernel.close fd, reactor := .data (.data c) cfd rspfd pt' evs } := by
  have hle : ∀ {a g}, (s.kernel.close fd).files a = some g → s.kernel.files a = some g :=
    fun ha => (files_of_close ha).2
  have hreg : ∀ {a q}, (s.kernel.close fd).reg a = some q → a ≠ fd ∧ s.kernel.reg a = some q := by
    intro a q ha
    simp only [Kernel.close, Function.update_apply] at ha
    split at ha
    · cases ha
    · rename_i e
      exact ⟨e, ha⟩
  have hserv : ∀ {c' r}, c' ≠ c → Serving s c' r → Serving { s with
      kernel := s.kernel.close fd, reactor := .data (.data c) cfd rspfd pt' evs } c' r := by
    intro c' r hne hc
    refine ⟨hc.bound, hc.live, close_files_of_ne hfd hc.sock ?_, close_files_of_ne hfd hc.event ?_⟩
    · rcases hf with rfl | rfl
      · exact fun e => hne (File.sock.inj e)
      · rintro ⟨⟩
    · rcases hf with rfl | rfl
      · rintro ⟨⟩
      · exact fun e => hne (File.event.inj e)
  refine h.change (fun c' => c' ≠ c) (h.kernel.close fd) rfl (fun hc => hc)
    (fun ha => h.event_accepted (hle ha)) ?_ hserv ?_ ?_ ?_
    (by rw [hr]; exact fun _ he => he) ?_
    (by have := h.nodup; rw [hr] at this; exact this) hpoint rfl rfl
  · intro c' r hc hph
    by_cases e : c' = c
    · subst e
      exact hphase hc
    · cases hph with
      | serving hc => exact .serving (hserv e hc)
      | closing a =>
        rw [hr] at a
        cases pt with
        | closeRsp => exact absurd (RevPtr.data.inj (Option.some.inj a)).symm e
        | _ => cases a
      | closed a b => exact .closed (fun x hx => a x (hle hx)) fun x hx => b x (hle hx)
  · intro a q ha
    obtain ⟨hne, ha⟩ := hreg ha
    exact ⟨ha, by simp only [Kernel.close, Function.update_of_ne hne]⟩
  · rintro a c' ha rfl
    exact hun.1 a (hreg ha).2
  · rintro a c' ha rfl
    exact hun.2 a (hreg ha).2
  · rintro c' b hb rfl
    exact h.not_mem_batch hr hb

theorem Unregistered.close {p : RevPtr} {fd : Fd} {re : Reactor} (h : Unregistered s p) :
    Unregistered { s with kernel := s.kernel.close fd, reactor := re } p := by
  intro a ha
  simp only [Kernel.close, Function.update_apply] at ha
  split at ha
  · cases ha
  · exact h a ha

theorem Inv.closeClient (h : Inv s) {rev : RevPtr} {cfd rspfd : Fd} {evs : List Event}
    (hr : s.reactor = .data rev cfd rspfd .closeClient evs) :
    Inv { s with kernel := s.kernel.close cfd, reactor := .data rev cfd rspfd .closeRsp evs } := by
  obtain ⟨c, r, rfl, hc, rfl, rfl, hserv, hun⟩ := h.atData hr
  have hsock : ∀ fd, (s.kernel.close r.client_fd).files fd ≠ some (.sock c) := by
    intro fd hfd
    obtain ⟨hne, hfd⟩ := files_of_close hfd
    exact hne (h.kernel.sock_inj hfd hserv.sock)
  have hevent : (s.kernel.close r.client_fd).files r.rsp_event_fd = some (.event c) :=
    close_files_of_ne hserv.sock hserv.event nofun
  refine h.close hr hserv.sock (.inl rfl) hun ?_
    ⟨c, r, rfl, hc, rfl, rfl, hsock, hevent, hun.1.close, hun.2.close⟩
  intro r' hr'
  rw [hc] at hr'
  cases hr'
  exact .closing rfl hsock hevent

theorem Inv.closeRsp (h : Inv s) {rev : RevPtr} {cfd rspfd : Fd} {evs : List Event}
    (hr : s.reactor = .data rev cfd rspfd .closeRsp evs) :
    Inv { s with kernel := s.kernel.close rspfd, reactor := .data rev cfd rspfd .unbind evs } := by
  obtain ⟨c, r, rfl, hc, rfl, rfl, hsock, hevent, hun⟩ := h.atData hr
  have hsock' : ∀ fd, (s.kernel.close r.rsp_event_fd).files fd ≠ some (.sock c) := fun fd hfd =>
    hsock fd (files_of_close hfd).2
  have hevent' : ∀ fd, (s.kernel.close r.rsp_event_fd).files fd ≠ some (.event c) := by
    intro fd hfd
    obtain ⟨hne, hfd⟩ := files_of_close hfd
    exact hne (h.kernel.event_inj hfd hevent)
  exact h.close hr hevent (.inr rfl) hun (fun _ => .closed hsock' hevent')
    ⟨c, r, rfl, hc, rfl, rfl, hsock', hevent', hun.1.close, hun.2.close⟩

/-- `unbind_reactor_event` of a closed connection. -/
theorem Inv.unbind (h : Inv s) {rev : RevPtr} {cfd rspfd : Fd} {evs : List Event}
    (hr : s.reactor = .data rev cfd rspfd .unbind evs) :
    Inv { s with live := Function.update s.live rev false, reactor := .loop evs } := by
  obtain ⟨c, r, rfl, hc, rfl, rfl, hsock, hevent, hun⟩ := h.atData hr
  have hserv : ∀ {c' r'}, c' ≠ c → Serving s c' r' → Serving { s with
      live := Function.update s.live (.data c) false, reactor := .loop evs } c' r' := by
    intro c' r' hne hc'
    refine ⟨hc'.bound, ?_, hc'.sock, hc'.event⟩
    show Function.update s.live (.data c) false (.data c') = true
    rw [Function.update_of_ne fun e => hne (RevPtr.data.inj e)]
    exact hc'.live
  refine h.change (fun c' => c' ≠ c) h.kernel rfl (fun hc => hc) h.event_accepted ?_ hserv
    (fun ha => ⟨ha, rfl⟩) ?_ ?_ (by rw [hr]; exact fun _ he => he) ?_ ?_ trivial rfl rfl
  · intro c' r' hc' hph
    by_cases e : c' = c
    · subst e
      exact .closed hsock hevent
    · cases hph with
      | serving hs => exact .serving (hserv e hs)
      | closing a => rw [hr] at a; cases a
      | closed a b => exact .closed a b
  · rintro a c' ha rfl
    exact hun.1 a ha
  · rintro a c' ha rfl
    exact hun.2 a ha
  · rintro c' b hb rfl
    exact h.not_mem_batch hr hb
  · have := h.nodup
    rw [hr] at this
    exact (List.nodup_cons.mp this).2

theorem Inv.exit (h : Inv s) : Inv s.exit where
  kernel := h.kernel.exit
  event_accepted hf := by cases hf
  listen := h.listen
  data hc := by
    obtain ⟨h1, h2, h3, h4, -⟩ := h.data hc
    exact ⟨h1, h2, h3, h4, .closed nofun nofun⟩
  rsp := h.rsp
  regData hf := by cases hf
  regRsp hf := by cases hf
  regListen hf := by cases hf
  batchData := nofun
  batchRsp := nofun
  nodup := List.nodup_nil
  point _ := rfl
  queue := nofun
  workers := nofun

/-! ## The batch -/

/-- An object is registered with one number. -/
theorem Inv.reg_inj (h : Inv s) {a b : Fd} {p : RevPtr} (ha : s.kernel.reg a = some p)
    (hb : s.kernel.reg b = some p) : a = b := by
  cases p with
  | listen => exact (h.regListen ha).2.trans (h.regListen hb).2.symm
  | data c =>
    obtain ⟨r, h1, e⟩ := h.regData ha
    obtain ⟨r', h2, e'⟩ := h.regData hb
    rw [e, e', h1.unique h2.bound]
  | rsp c =>
    obtain ⟨-, r, h1, e⟩ := h.regRsp ha
    obtain ⟨-, r', h2, e'⟩ := h.regRsp hb
    rw [e, e', h1.unique h2.bound]

theorem mem_report {k : Kernel RevPtr} {fds : List Fd} {e : Event}
    (h : e ∈ fds.filterMap k.report) : ∃ fd ∈ fds, k.reg fd = some e.1 ∧ e.2 = k.readyFd fd := by
  obtain ⟨fd, hfd, he⟩ := List.mem_filterMap.mp h
  obtain ⟨p, hp, rfl⟩ := Option.map_eq_some_iff.mp he
  exact ⟨fd, hfd, hp, rfl⟩

theorem Inv.epollWait (h : Inv s) {fds : List Fd} {p : List Event × Kernel RevPtr}
    (hr : s.reactor = .wait) (hk : s.kernel.epollWait 10 fds = some p) :
    Inv { s with kernel := p.2, reactor := .loop p.1 } := by
  have hwf := h.kernel.epollWait hk
  obtain ⟨hnd, -, hp1, hp2⟩ := Kernel.epollWait_eq_some hk
  have hs : Same s { s with kernel := p.2, reactor := .wait } :=
    ⟨by rw [hp2], by rw [hp2], fun hc => by rw [hp2]; exact hc, rfl, rfl⟩
  have h' : Inv { s with kernel := p.2, reactor := .wait } :=
    h.stay hs hwf hr.symm h.queue h.workers
  refine ⟨hwf, h'.event_accepted, h'.listen, ?_, h'.rsp, ?_, ?_, h'.regListen, ?_, ?_, ?_, trivial,
    h'.queue, h'.workers⟩
  · intro c r hc
    obtain ⟨h1, h2, h3, h4, h5⟩ := h'.data hc
    refine ⟨h1, h2, h3, h4, ?_⟩
    cases h5 with
    | serving h5 => exact .serving ⟨h5.bound, h5.live, h5.sock, h5.event⟩
    | closing a => cases a
    | closed a b => exact .closed a b
  · intro fd c hf
    obtain ⟨r, h1, h2⟩ := h'.regData hf
    exact ⟨r, ⟨h1.bound, h1.live, h1.sock, h1.event⟩, h2⟩
  · intro fd c hf
    obtain ⟨h0, r, h1, h2⟩ := h'.regRsp hf
    exact ⟨h0, r, ⟨h1.bound, h1.live, h1.sock, h1.event⟩, h2⟩
  · intro c b hb
    replace hb : (RevPtr.data c, b) ∈ fds.filterMap s.kernel.report := by rw [← hp1]; exact hb
    obtain ⟨fd, -, hfd, -⟩ := mem_report hb
    obtain ⟨r, h1, -⟩ := h.regData hfd
    have h1 := h1.same hs
    exact ⟨r, h1.bound, h1.live, h1.sock, h1.event⟩
  · intro c b hb
    replace hb : (RevPtr.rsp c, b) ∈ fds.filterMap s.kernel.report := by rw [← hp1]; exact hb
    obtain ⟨fd, -, hfd, -⟩ := mem_report hb
    exact (h.regRsp hfd).1
  · show (p.1.map Prod.fst).Nodup
    have he : p.1.map Prod.fst = fds.filterMap s.kernel.reg := by
      rw [hp1, List.map_filterMap]
      refine List.filterMap_congr fun fd _ => ?_
      cases hfd : s.kernel.reg fd <;> simp [Kernel.report, hfd]
    rw [he]
    exact hnd.filterMap fun a b q ha hb => h.reg_inj ha hb

end Frames

/-! ## Every step keeps the bookkeeping -/

section Step

variable {s s' : State} {a : Act}

/-- The reactor moves inside a callback or on to the next event. -/
theorem Inv.goto (h : Inv s) {re : Reactor} (hclosing : re.closing = s.reactor.closing)
    (hbatch : ∀ e ∈ re.batch, e ∈ s.reactor.batch)
    (hnodup : (re.reading.toList ++ re.batch.map Prod.fst).Nodup)
    (hpoint : At { s with reactor := re } re) : Inv { s with reactor := re } :=
  h.move ⟨rfl, rfl, fun hc => hc, rfl, rfl⟩ h.kernel hclosing hbatch hnodup hpoint h.queue h.workers

theorem Serving.reactor {c : Conn} {r : ReactorEvent} {re : Reactor} (h : Serving s c r) :
    Serving { s with reactor := re } c r := ⟨h.bound, h.live, h.sock, h.event⟩

theorem Inv.dataEvent (h : Inv s) {rev : RevPtr} {evs : List Event} {r : ReactorEvent}
    (hr : s.reactor = .loop ((rev, true) :: evs)) (hh : s.heap rev = some r)
    (hc : r.callback = .data_handler_by_worker) :
    Inv { s with reactor := .data rev r.client_fd r.rsp_event_fd .recv evs } := by
  have hnd := h.nodup
  rw [hr] at hnd
  refine h.goto (by rw [hr]; rfl) (by rw [hr]; exact fun _ he => List.mem_cons_of_mem _ he) hnd ?_
  cases rev with
  | listen =>
    rw [h.listen] at hh
    cases hh
    cases hc
  | data c =>
    obtain ⟨r', hs⟩ := h.batchData (c := c) (b := true) (by rw [hr]; exact List.mem_cons_self ..)
    obtain rfl := hs.unique hh
    exact ⟨c, r', rfl, hh, rfl, rfl, hs.reactor⟩
  | rsp c =>
    obtain ⟨r', -, rfl⟩ := h.rsp hh
    cases hc

theorem Inv.rspEvent (h : Inv s) {rev : RevPtr} {evs : List Event} {r : ReactorEvent}
    (hr : s.reactor = .loop ((rev, true) :: evs)) (hh : s.heap rev = some r)
    (hc : r.callback = .rsp_handler) :
    Inv { s with reactor := .rsp rev r.client_fd r.rsp_event_fd .read evs } := by
  have hnd := h.nodup
  rw [hr] at hnd
  refine h.goto (by rw [hr]; rfl) (by rw [hr]; exact fun _ he => List.mem_cons_of_mem _ he)
    (List.nodup_cons.mp hnd).2 ?_
  cases rev with
  | listen =>
    rw [h.listen] at hh
    cases hh
    cases hc
  | data c =>
    rw [(h.data hh).1] at hc
    cases hc
  | rsp c => exact ⟨c, r, rfl, hh, rfl, rfl⟩

/-- A worker that runs a task keeps its object. -/
theorem Inv.task_of_run (h : Inv s) {w : ℕ} {rev : RevPtr} {pt pt' : WorkPoint}
    (hw : s.workers[w]? = some (.run rev pt)) :
    ∀ rev' pt'', Worker.run rev pt' = .run rev' pt'' → IsTask s.heap rev' := by
  rintro _ _ ⟨⟩
  exact h.workers (List.mem_of_getElem? hw)

theorem Inv.idle : ∀ rev pt, Worker.idle = .run rev pt → IsTask s.heap rev := nofun

/-- **Every step keeps the bookkeeping.** -/
theorem inv_step (h : Inv s) (hs : step s a = some s') : Inv s' := by
  cases outcome_of_step hs with
  | connect =>
    exact h.stay ⟨rfl, rfl, fun hc => hc.connect, rfl, rfl⟩ h.kernel.connect rfl h.queue h.workers
  | clientSend hk =>
    have hwf := h.kernel.clientSend hk
    obtain ⟨-, -, rfl⟩ := Kernel.clientSend_eq_some hk
    exact h.stay ⟨rfl, rfl, fun hc => hc, rfl, rfl⟩ hwf rfl h.queue h.workers
  | clientClose hk =>
    have hwf := h.kernel.clientClose hk
    obtain ⟨-, -, rfl⟩ := Kernel.clientClose_eq_some hk
    exact h.stay ⟨rfl, rfl, fun hc => hc, rfl, rfl⟩ hwf rfl h.queue h.workers
  | epollWait hr hk => exact h.epollWait hr hk
  | batchEnd hr => exact h.goto (by rw [hr]; rfl) nofun List.nodup_nil trivial
  | skip hr =>
    have hnd := h.nodup
    rw [hr] at hnd
    exact h.goto (by rw [hr]; rfl) (by rw [hr]; exact fun _ he => List.mem_cons_of_mem _ he)
      (List.nodup_cons.mp hnd).2 trivial
  | connection hr =>
    have hnd := h.nodup
    rw [hr] at hnd
    exact h.goto (by rw [hr]; rfl) (by rw [hr]; exact fun _ he => List.mem_cons_of_mem _ he)
      (List.nodup_cons.mp hnd).2 trivial
  | dataEvent hr hh hc => exact h.dataEvent hr hh hc
  | rspEvent hr hh hc => exact h.rspEvent hr hh hc
  | accept hr hk => exact h.accept hr hk
  | acceptAgain hr =>
    exact h.pass ⟨rfl, rfl, fun hc => hc, rfl, rfl⟩ h.kernel hr rfl rfl rfl rfl trivial h.queue
      h.workers
  | eventfd hr hk => exact h.eventfd hr hk
  | addClient hr hk => exact h.addClient hr hk
  | addRsp hr hk => exact h.addRsp hr hk
  | @recvData n beyond rev cfd rspfd evs c chunk k hr hk =>
    have hwf := h.kernel.recv cfd n
    obtain ⟨c', r, rfl, hc, rfl, rfl, hserv⟩ := h.atData hr
    rw [hk] at hwf
    obtain ⟨-, -, -, rfl⟩ := Kernel.recv_eq_data hk
    exact h.pass ⟨rfl, rfl, fun hc => hc, rfl, rfl⟩ hwf hr rfl rfl rfl rfl
      ⟨c', r, rfl, hc, rfl, rfl, hserv.bound, hserv.live, hserv.sock, hserv.event⟩ h.queue h.workers
  | recvEof hr =>
    obtain ⟨c', r, rfl, hc, rfl, rfl, hserv⟩ := h.atData hr
    exact h.pass ⟨rfl, rfl, fun hc => hc, rfl, rfl⟩ h.kernel hr rfl rfl rfl rfl
      ⟨c', r, rfl, hc, rfl, rfl, Serving.reactor hserv⟩ h.queue h.workers
  | recvAgain hr =>
    have hnd := h.nodup
    rw [hr] at hnd
    exact h.goto (by rw [hr]; rfl) (by rw [hr]; exact fun _ he => he) (List.nodup_cons.mp hnd).2
      trivial
  | pushReq hr hh hq =>
    obtain ⟨c', r, rfl, hc, rfl, rfl, hserv⟩ := h.atData hr
    exact h.pass ⟨rfl, rfl, fun hc => hc, rfl, rfl⟩ h.kernel hr rfl rfl rfl rfl
      ⟨c', r, rfl, hc, rfl, rfl, hc, hserv.live, hserv.sock, hserv.event⟩ h.queue h.workers
  | addQueue hr =>
    obtain ⟨c', r, rfl, hc, rfl, rfl, hserv⟩ := h.atData hr
    refine h.pass ⟨rfl, rfl, fun hc => hc, rfl, rfl⟩ h.kernel hr rfl rfl rfl rfl
      ⟨c', r, rfl, hc, rfl, rfl, ⟨hc, hserv.live, hserv.sock, hserv.event⟩⟩ ?_ h.workers
    intro rev hm
    rcases List.mem_append.mp hm with hm | hm
    · exact h.queue hm
    · rw [List.mem_singleton.mp hm]
      exact ⟨c', r, rfl, hc⟩
  | delClient hr hk => exact h.delClient hr hk
  | delRsp hr hk => exact h.delRsp hr hk
  | closeClient hr => exact h.closeClient hr
  | closeRsp hr => exact h.closeRsp hr
  | unbind hr => exact h.unbind hr
  | @readOk rev cfd evfd evs k hr hk =>
    obtain rfl : k = (s.kernel.readU64 evfd).2 := by rw [hk]
    obtain ⟨c, r, rfl, hc, rfl, rfl⟩ := h.atRsp hr
    exact h.pass (.readU64 rfl rfl rfl) (h.kernel.readU64 _) hr rfl rfl rfl rfl
      ⟨c, r, rfl, hc, rfl, rfl⟩ h.queue h.workers
  | @readStop rev cfd evfd evs u k hr hk =>
    obtain rfl : k = (s.kernel.readU64 evfd).2 := by rw [hk]
    exact h.pass (.readU64 rfl rfl rfl) (h.kernel.readU64 _) hr rfl rfl rfl rfl trivial h.queue
      h.workers
  | shiftRsp hr =>
    obtain ⟨c, r, rfl, hc, rfl, rfl⟩ := h.atRsp hr
    exact h.pass ⟨rfl, rfl, fun hc => hc, rfl, rfl⟩ h.kernel hr rfl rfl rfl rfl
      ⟨c, r, rfl, hc, rfl, rfl⟩ h.queue h.workers
  | rspEmpty hr =>
    exact h.pass ⟨rfl, rfl, fun hc => hc, rfl, rfl⟩ h.kernel hr rfl rfl rfl rfl trivial h.queue
      h.workers
  | send hr =>
    obtain ⟨c, r, rfl, hc, rfl, rfl⟩ := h.atRsp hr
    exact h.pass ⟨rfl, rfl, fun hc => hc, rfl, rfl⟩ h.kernel hr rfl rfl rfl rfl
      ⟨c, r, rfl, hc, rfl, rfl⟩ h.queue h.workers
  | exit => exact h.exit
  | @pop w rev rest hw hq =>
    refine h.stay ⟨rfl, rfl, fun hc => hc, rfl, rfl⟩ h.kernel rfl
      (fun hm => h.queue (by rw [hq]; exact List.mem_cons_of_mem _ hm)) (h.workers_set ?_)
    rintro _ _ ⟨⟩
    exact h.queue (by rw [hq]; exact List.mem_cons_self ..)
  | shiftReq hw =>
    exact h.stay ⟨rfl, rfl, fun hc => hc, rfl, rfl⟩ h.kernel rfl h.queue
      (h.workers_set (h.task_of_run hw))
  | reqEmpty hw =>
    exact h.stay ⟨rfl, rfl, fun hc => hc, rfl, rfl⟩ h.kernel rfl h.queue (h.workers_set Inv.idle)
  | pushRsp hw =>
    exact h.stay ⟨rfl, rfl, fun hc => hc, rfl, rfl⟩ h.kernel rfl h.queue
      (h.workers_set (h.task_of_run hw))
  | write hw hh =>
    exact h.stay ⟨by simp [State.record, State.setWorker], by simp [State.record, State.setWorker],
      fun hc => by simpa [State.record, State.setWorker, Kernel.Accepted] using hc, rfl, rfl⟩
      (h.kernel.writeU64 _) rfl h.queue (h.workers_set Inv.idle)

theorem inv_of_run {n : ℕ} {G : State → Act → Prop} {as : List Act} {s : State}
    (h : Run step G (init n) as s) : Inv s :=
  h.invariant (init_inv n) fun _ _ _ hi _ hs => inv_step hi hs

end Step

end PracticeCode.Server31
