import PracticeCode.EpollServer.Defs

/-!
# When `epoll/server.cpp` stalls a descriptor

At `epoll_wait` an edge must be pending on every registered descriptor with unread bytes or
unaccepted connections, because no event will come for what is already there.  The handlers leave
something behind in three ways: the listening branch accepts one connection and goes on, it goes on
after a failed `accept`, and the data branch goes on after a failed `send`.  `drains` is the
condition that they leave nothing behind that no edge is pending for; `drained_noStall` shows that
it is enough, in every run, and `stallRun` is what happens without it.

The invariant makes somebody responsible for what is unread: the kernel (a pending edge), an event
of the batch, or the handler that is running.
-/

namespace PracticeCode.EpollServer

open Lib Linux

/-- The file has bytes or connections that the server has not taken. -/
def unread (k : Kernel Fd) : File → Bool
  | .listening => !k.backlog.isEmpty
  | .sock c => !(k.inbox c).isEmpty
  | _ => false

def Unread (k : Kernel Fd) (fd : Fd) : Prop := (k.files fd).any (unread k) = true

instance (k : Kernel Fd) : DecidablePred (Unread k) := fun _ => by unfold Unread; infer_instance

/-- **No stalled descriptor** when the loop calls `epoll_wait`. -/
def NoStall (s : State) : Prop :=
  s.point = .wait → ∀ fd, (s.kernel.reg fd).isSome → Unread s.kernel fd → s.kernel.edge fd = true

/-- A handler is left only when it has drained its descriptor or an edge of it is pending. -/
def drains (s : State) : Act → Prop
  | .accept _ => s.kernel.backlog.length ≤ 1 ∨ s.kernel.edge sfd = true
  | .acceptFail => ¬ Unread s.kernel sfd ∨ s.kernel.edge sfd = true
  | .send none => ∀ cfd ∈ s.point.serving, ¬ Unread s.kernel cfd ∨ s.kernel.edge cfd = true
  | _ => True

instance (s : State) (a : Act) : Decidable (drains s a) := by
  induction a using Act.casesOn with
  | accept _ => unfold drains; infer_instance
  | acceptFail => unfold drains; infer_instance
  | send res => induction res using Option.casesOn <;> unfold drains <;> infer_instance
  | _ => exact isTrue trivial

section Unread

variable {k k' : Kernel Fd} {fd : Fd} {c : Conn}

theorem unread_listening (hf : k.files fd = some .listening) :
    Unread k fd ↔ k.backlog ≠ [] := by
  simp [Unread, hf, unread]

theorem unread_sock (hf : k.files fd = some (.sock c)) : Unread k fd ↔ k.inbox c ≠ [] := by
  simp [Unread, hf, unread]

theorem Unread.exists_file (h : Unread k fd) : ∃ f, k.files fd = some f ∧ unread k f = true := by
  unfold Unread at h
  exact (Option.any_eq_true _ _).mp h

/-- What is unread is readable. -/
theorem Unread.ready (h : Unread k fd) : k.readyFd fd = true := by
  obtain ⟨f, hf, hu⟩ := h.exists_file
  unfold Kernel.readyFd
  rw [hf, Option.any_some]
  cases f with
  | listening => exact hu
  | sock c =>
    unfold unread at hu
    simp only [Kernel.ready, hu, Bool.true_or]
  | _ => cases hu

/-- A call that only takes bytes and connections away makes nothing unread. -/
theorem Unread.of_le (h : Unread k' fd) (hf : k'.files fd = k.files fd)
    (hb : k'.backlog ≠ [] → k.backlog ≠ []) (hi : ∀ c, k'.inbox c ≠ [] → k.inbox c ≠ []) :
    Unread k fd := by
  obtain ⟨f, hf', hu⟩ := h.exists_file
  cases f with
  | listening =>
    rw [unread_listening hf'] at h
    exact (unread_listening (hf ▸ hf')).mpr (hb h)
  | sock c =>
    rw [unread_sock hf'] at h
    exact (unread_sock (hf ▸ hf')).mpr (hi c h)
  | _ => cases hu

end Unread

/-! ## Who is responsible -/

/-- An event of `fd` is pending in the kernel, waits in the batch or is being handled. -/
def Covered (s : State) (fd : Fd) : Prop :=
  s.kernel.edge fd = true ∨ (fd, true) ∈ s.point.batch ∨ s.point.serving = some fd

structure Inv (s : State) : Prop where
  kernel : s.kernel.Wf
  data : ∀ {fd d}, s.kernel.reg fd = some d → d = fd
  covered : ∀ {fd}, (s.kernel.reg fd).isSome → Unread s.kernel fd → Covered s fd

theorem init_inv : Inv init := by
  refine ⟨Kernel.boot_wf .., ?_, ?_⟩
  · intro fd d h
    simp only [init, Kernel.boot] at h
    split at h
    · rename_i e
      cases h
      exact e.symm
    · cases h
  · intro fd _ hu
    obtain ⟨f, -, hf⟩ := hu.exists_file
    cases f <;> cases hf

/-! ## The steps -/

section Step

variable {s : State} {evs : List Event}

/-- The thread goes on, and no system call changes the kernel. -/
theorem Inv.goto {p : Point} (h : Inv s)
    (hb : ∀ {fd}, (fd, true) ∈ s.point.batch → (fd, true) ∈ p.batch ∨ p.serving = some fd)
    (hs : ∀ {fd}, s.point.serving = some fd → Unread s.kernel fd →
      s.kernel.edge fd = true ∨ p.serving = some fd) : Inv { s with point := p } := by
  refine ⟨h.kernel, h.data, fun {fd} hr hu => ?_⟩
  rcases h.covered hr hu with he | hm | hv
  · exact .inl he
  · exact .inr (hb hm)
  · exact (hs hv hu).imp_right .inr

/-- An arrival raises the edge of what became unread. -/
theorem Inv.arrival {k : Kernel Fd} {f : File} (h : Inv s) (hw : (k.raise f).Wf)
    (hf : k.files = s.kernel.files) (hr : k.reg = s.kernel.reg) (he : k.edge = s.kernel.edge)
    (hb : f ≠ .listening → k.backlog = s.kernel.backlog)
    (hi : ∀ c, f ≠ .sock c → k.inbox c = s.kernel.inbox c) :
    Inv { s with kernel := k.raise f } := by
  refine ⟨hw, fun {fd d} hreg => h.data (by rw [← hr]; exact hreg), ?_⟩
  intro fd hreg hu
  have hreg' : (s.kernel.reg fd).isSome := by rw [← hr]; exact hreg
  obtain ⟨g, hg, hg'⟩ := hu.exists_file
  by_cases e : g = f
  · exact .inl (Kernel.raise_edge_self (e ▸ hg) hreg)
  -- another file is as unread as it was
  have hold : Unread s.kernel fd := by
    have hg₀ : s.kernel.files fd = some g := by rw [← hf]; exact hg
    cases g with
    | listening =>
      rw [unread_listening hg₀, ← hb (Ne.symm e)]
      exact (unread_listening hg).mp hu
    | sock c =>
      rw [unread_sock hg₀, ← hi c (Ne.symm e)]
      exact (unread_sock hg).mp hu
    | _ => cases hg'
  exact (h.covered hreg' hold).imp_left fun hedge =>
    Kernel.raise_edge_of_edge (by rw [he]; exact hedge)

/-- `epoll_wait` turns the edges it returns into events. -/
theorem Inv.epollWait {fds : List Fd} {p : List Event × Kernel Fd} (h : Inv s)
    (hp : s.point = .wait) (hk : s.kernel.epollWait 10 fds = some p) :
    Inv { kernel := p.2, point := .loop p.1 } := by
  obtain ⟨-, -, hevs, hk₂⟩ := Kernel.epollWait_eq_some hk
  refine ⟨h.kernel.epollWait hk, fun {fd d} hreg => h.data (by rw [hk₂] at hreg; exact hreg), ?_⟩
  intro fd hreg hu
  replace hreg : (s.kernel.reg fd).isSome := by rw [hk₂] at hreg; exact hreg
  replace hu : Unread s.kernel fd := by rw [hk₂] at hu; exact hu
  rcases h.covered hreg hu with hedge | hm | hs
  · by_cases hfd : fd ∈ fds
    · obtain ⟨d, hd⟩ := Option.isSome_iff_exists.mp hreg
      have hrep : s.kernel.report fd = some (fd, true) := by
        simp [Kernel.report, hd, h.data hd, hu.ready]
      refine .inr (.inl ?_)
      simp only [Point.batch, hevs]
      exact List.mem_filterMap.mpr ⟨fd, hfd, hrep⟩
    · left
      simp [hk₂, hedge, hfd]
  · rw [hp] at hm
    cases hm
  · rw [hp] at hs
    cases hs

/-- The new descriptor is not registered yet, and the connections that stay in the backlog have
their edge. -/
theorem Inv.accept {fd : Fd} {p : Conn × Kernel Fd} (h : Inv s) (hp : s.point = .accept evs)
    (hk : s.kernel.accept sfd fd = some p)
    (hd : s.kernel.backlog.length ≤ 1 ∨ s.kernel.edge sfd = true) :
    Inv { kernel := p.2, point := .add fd evs } := by
  obtain ⟨rest, hb, hfree, hk₂⟩ := Kernel.accept_eq_some hk
  have hlisten : s.kernel.files sfd = some .listening := Kernel.accept_listening hk
  refine ⟨h.kernel.accept hk, fun {fd d} hreg => h.data (by rw [hk₂] at hreg; exact hreg), ?_⟩
  intro fd' hreg hu
  have hedge : p.2.edge = s.kernel.edge := by rw [hk₂]
  replace hreg : (s.kernel.reg fd').isSome := by rw [hk₂] at hreg; exact hreg
  have hne : fd' ≠ fd := by
    rintro rfl
    rw [h.kernel.reg_open hfree] at hreg
    cases hreg
  have hfiles : p.2.files fd' = s.kernel.files fd' := by
    rw [hk₂]
    exact Function.update_of_ne hne ..
  have hold : Unread s.kernel fd' := hu.of_le hfiles (fun _ => by simp [hb]) fun c hc => by
    rw [hk₂] at hc
    exact hc
  unfold Covered
  rw [hedge]
  rcases h.covered hreg hold with he | hm | hs
  · exact .inl he
  · rw [hp] at hm
    exact .inr (.inl hm)
  · rw [hp] at hs
    cases hs
    rcases hd with hlen | he
    · have hrest : rest = [] := by
        rw [hb, List.length_cons] at hlen
        exact List.length_eq_zero_iff.mp (by omega)
      rw [unread_listening (by rw [hfiles, hlisten]), hk₂] at hu
      exact absurd hrest hu
    · exact .inl he

/-- `EPOLL_CTL_ADD` of a descriptor that is readable raises its edge. -/
theorem Inv.ctlAdd {cfd : Fd} {k : Kernel Fd} (h : Inv s) (hp : s.point = .add cfd evs)
    (hk : s.kernel.ctlAdd cfd cfd = some k) : Inv { kernel := k, point := .loop evs } := by
  have hw := h.kernel.ctlAdd hk
  obtain ⟨-, -, rfl⟩ := Kernel.ctlAdd_eq_some hk
  constructor
  · exact hw
  · intro fd d hreg
    simp only [Function.update_apply] at hreg
    split at hreg
    · rename_i e
      cases hreg
      exact e.symm
    · exact h.data hreg
  · intro fd hreg hu
    by_cases e : fd = cfd
    · subst e
      have hready : s.kernel.readyFd fd = true := Unread.ready hu
      exact .inl (by simp [hready])
    · have hreg' : (s.kernel.reg fd).isSome := by simpa [e] using hreg
      unfold Covered
      simp only [Function.update_of_ne e]
      rcases h.covered hreg' hu with he | hm | hs
      · exact .inl he
      · rw [hp] at hm
        exact .inr (.inl hm)
      · rw [hp] at hs
        cases hs

/-- `recv` takes bytes away, and the handler goes on with the same descriptor. -/
theorem Inv.recvData {cfd : Fd} {n : ℕ} {c : Conn} {chunk : List UInt8} {k : Kernel Fd} (h : Inv s)
    (hp : s.point = .recv cfd evs) (hk : s.kernel.recv cfd n = (.data c chunk, k)) :
    Inv { kernel := k, point := .send cfd (fill chunk) evs } := by
  have hw : k.Wf := by
    have := h.kernel.recv cfd n
    rwa [hk] at this
  obtain ⟨-, -, -, rfl⟩ := Kernel.recv_eq_data hk
  refine ⟨hw, h.data, ?_⟩
  intro fd hreg hu
  have hold : Unread s.kernel fd := by
    refine hu.of_le rfl id fun c' hc' => ?_
    simp only [Function.update_apply] at hc'
    split at hc'
    · rename_i e
      rintro h0
      rw [← e, h0] at hc'
      exact hc' List.drop_nil
    · exact hc'
  have hcov := h.covered hreg hold
  unfold Covered at hcov ⊢
  rwa [hp] at hcov

/-- A descriptor that leaves the interest list needs nobody. -/
theorem Inv.unregister {k : Kernel Fd} {p : Point} {cfd : Fd} (h : Inv s) (hw : k.Wf)
    (hf : ∀ fd, fd ≠ cfd → k.files fd = s.kernel.files fd)
    (hr : k.reg = Function.update s.kernel.reg cfd none)
    (he : k.edge = Function.update s.kernel.edge cfd false)
    (hi : k.inbox = s.kernel.inbox) (hb : k.backlog = s.kernel.backlog)
    (hs : s.point.serving = some cfd) (hbatch : p.batch = s.point.batch) :
    Inv { kernel := k, point := p } := by
  have key : ∀ {fd d}, k.reg fd = some d → fd ≠ cfd ∧ s.kernel.reg fd = some d := by
    intro fd d hreg
    rw [hr, Function.update_apply] at hreg
    split at hreg
    · cases hreg
    · exact ⟨‹_›, hreg⟩
  refine ⟨hw, fun hreg => h.data (key hreg).2, ?_⟩
  intro fd hreg hu
  obtain ⟨d, hd⟩ := Option.isSome_iff_exists.mp hreg
  obtain ⟨hne, hd⟩ := key hd
  have hold : Unread s.kernel fd :=
    Unread.of_le hu (hf fd hne) (by rw [hb]; exact id) (by rw [hi]; exact fun _ => id)
  rcases h.covered (by rw [hd]; rfl) hold with hedge | hm | hs'
  · exact .inl (by rw [he, Function.update_of_ne hne]; exact hedge)
  · exact .inr (.inl (by rw [hbatch]; exact hm))
  · rw [hs, Option.some.injEq] at hs'
    exact absurd hs'.symm hne

end Step

/-- **Every step whose handler drained its descriptor keeps every descriptor covered.** -/
theorem inv_step {s s' : State} {a : Act} (h : Inv s) (hd : drains s a) (hs : step s a = some s') :
    Inv s' := by
  cases outcome_of_step hs with
  | connect => exact h.arrival h.kernel.connect rfl rfl rfl (fun e => absurd rfl e) fun _ _ => rfl
  | @clientSend c bytes k hk =>
    have hw := h.kernel.clientSend hk
    obtain ⟨-, -, rfl⟩ := Kernel.clientSend_eq_some hk
    refine h.arrival hw rfl rfl rfl (fun _ => rfl) fun c' hc' => ?_
    exact Function.update_of_ne (fun e => hc' (by rw [e])) ..
  | clientClose hk =>
    have hw := h.kernel.clientClose hk
    obtain ⟨-, -, rfl⟩ := Kernel.clientClose_eq_some hk
    exact h.arrival hw rfl rfl rfl (fun _ => rfl) fun _ _ => rfl
  | epollWait hp hk => exact h.epollWait hp hk
  | exit => exact ⟨h.kernel.exit, nofun, nofun⟩
  | batchEnd hp => exact h.goto (by rw [hp]; nofun) (by rw [hp]; nofun)
  | @skip fd evs hp =>
    refine h.goto (fun hm => ?_) (by rw [hp]; nofun)
    rw [hp] at hm
    rcases List.mem_cons.mp hm with e | hm
    · cases e
    · exact .inl hm
  | @listening evs hp =>
    refine h.goto (fun hm => ?_) (by rw [hp]; nofun)
    rw [hp] at hm
    rcases List.mem_cons.mp hm with e | hm
    · cases e
      exact .inr rfl
    · exact .inl hm
  | @data cfd evs hp hne =>
    refine h.goto (fun hm => ?_) (by rw [hp]; nofun)
    rw [hp] at hm
    rcases List.mem_cons.mp hm with e | hm
    · cases e
      exact .inr rfl
    · exact .inl hm
  | accept hp hk => exact h.accept hp hk hd
  | @acceptFail evs hp =>
    refine h.goto (by rw [hp]; exact .inl) fun {fd} hv hu => ?_
    rw [hp] at hv
    cases hv
    exact .inl (hd.resolve_left fun hn => hn hu)
  | ctlAdd hp hk => exact h.ctlAdd hp hk
  | recvData hp hk => exact h.recvData hp hk
  | @recvAgain n cfd evs c hp hf hb =>
    refine h.goto (by rw [hp]; exact .inl) fun {fd} hv hu => ?_
    rw [hp] at hv
    cases hv
    -- `EAGAIN`: the descriptor is drained
    exact absurd hb ((unread_sock hf).mp hu)
  | recvStop hp => exact h.goto (by rw [hp]; exact .inl) (by rw [hp]; exact fun hv _ => .inr hv)
  | @sendFail cfd buf evs hp =>
    refine h.goto (by rw [hp]; exact .inl) fun {fd} hv hu => ?_
    exact .inl ((hd fd hv).resolve_left fun hn => hn hu)
  | send hp => exact h.goto (by rw [hp]; exact .inl) (by rw [hp]; exact fun hv _ => .inr hv)
  | @ctlDel cfd evs k hp hk =>
    have hw := h.kernel.ctlDel hk
    obtain ⟨-, rfl⟩ := Kernel.ctlDel_eq_some hk
    exact h.unregister hw (fun _ _ => rfl) rfl rfl rfl rfl (by rw [hp]; rfl) (by rw [hp]; rfl)
  | @close cfd evs hp =>
    exact h.unregister (h.kernel.close cfd) (fun fd hne => Function.update_of_ne hne ..) rfl rfl rfl
      rfl (by rw [hp]; rfl) (by rw [hp]; rfl)

/-- **No descriptor stalls in a run whose handlers drain their descriptors.** -/
theorem drained_noStall {as : List Act} {s : State} (h : Run step drains init as s) :
    NoStall s := by
  have hi : Inv s := h.invariant (I := Inv) init_inv fun _ _ _ => inv_step
  intro hp fd hreg hu
  rcases hi.covered hreg hu with he | hm | hs
  · exact he
  · rw [hp] at hm
    cases hm
  · rw [hp] at hs
    cases hs

/-- A client connects and gets an echo; then it sends another byte. -/
def echoRun : List Act :=
  [.connect, .epollWait [3], .dispatch, .accept 5, .ctlAdd, .dispatch, .clientSend 0 [104],
    .epollWait [5], .dispatch, .recv 1024, .send (some 1024), .recv 1024, .dispatch,
    .clientSend 0 [105]]

set_option maxRecDepth 8000 in
theorem drained_noStall_echo : ∃ s, Run step drains init echoRun s ∧
    (s.point = .wait ∧ Unread s.kernel 5) ∧ NoStall s := by
  obtain ⟨s, hr, hp⟩ : ∃ s, Run step drains init echoRun s ∧
      s.point = .wait ∧ Unread s.kernel 5 := Run.exists_of_exec _ _ (by decide)
  exact ⟨s, hr, hp, drained_noStall hr⟩

/-! ## Without the guard -/

/-- Two clients connect before `epoll_wait` returns the edge; one of them is accepted. -/
def stallRun : List Act :=
  [.connect, .connect, .epollWait [3], .dispatch, .accept 5, .ctlAdd, .dispatch]

/-- **The second client waits for an edge that does not come.** -/
theorem not_noStall : ¬ ∀ as s, Run step lowestFree init as s → NoStall s := by
  intro h
  obtain ⟨s, hr, hp, hreg, hu, he⟩ : ∃ s, Run step lowestFree init stallRun s ∧
      s.point = .wait ∧ (s.kernel.reg sfd).isSome ∧ Unread s.kernel sfd ∧
      s.kernel.edge sfd = false := Run.exists_of_exec _ _ (by decide)
  have := h _ _ hr hp sfd hreg hu
  rw [he] at this
  cases this

end PracticeCode.EpollServer
