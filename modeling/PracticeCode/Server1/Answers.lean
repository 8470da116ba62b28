import PracticeCode.Lib.Run
import PracticeCode.Server1.Readiness
import Mathlib.Algebra.Order.BigOperators.Group.Finset

/-!
# No client waits in vain

A thread of the client that waits has a request on its way, an answer on its way, or the server
about to send one (`Asking`).  While the clients wait, the steps of the server are bounded by the
work that is left (`System.work`), and the only call it can stop in is `epoll_wait`: `send` has room
in every connection (`transport`), and `accept` and `recv` are called on what is ready.

`clients_answered`: then every thread that waits has an answer to read.
-/

namespace PracticeCode.Server1

open Lib Linux

/-! ## The threads -/

/-- A thread that waits on `c` will have something to read. -/
def Owed (x : System) (c : Conn) : Prop :=
  (x.links c).request ≠ [] ∨ (x.links c).reply ≠ [] ∨
    ∃ cfd buf evs, x.server.point = .send cfd buf evs ∧ x.table.files cfd = some c

structure Asking (x : System) : Prop where
  conn : ∀ (i : ℕ) (t : Thread) (c : Conn), x.threads[i]? = some t → t.conn = some c →
    c < x.connected ∧ (x.links c).shut = false
  inj : ∀ (i j : ℕ) (t u : Thread) (c : Conn), x.threads[i]? = some t → x.threads[j]? = some u →
    t.conn = some c → u.conn = some c → i = j
  owed : ∀ (i : ℕ) (c : Conn), x.threads[i]? = some (.recv c) → Owed x c

section Threads

variable {sfd : Fd} {x y : System} {a : Act} {i : ℕ} {t u : Thread} {c : Conn}

theorem boot_asking (efd sfd : Fd) (n : ℕ) : Asking (boot efd sfd n) := by
  have hall : ∀ (i : ℕ) (t : Thread), (boot efd sfd n).threads[i]? = some t → t = .connect := by
    intro i t h
    exact List.eq_of_mem_replicate (List.mem_of_getElem? h)
  constructor
  · intro i t c h hc
    rw [hall i t h] at hc
    cases hc
  · intro i j t u c h _ hc
    rw [hall i t h] at hc
    cases hc
  · intro i c h
    cases hall i _ h

/-- What the server does with one connection. -/
theorem Asking.served (h : Asking x) (ht : y.threads = x.threads) (hc : y.connected = x.connected)
    (hs : ∀ c, (y.links c).shut = (x.links c).shut) (ho : ∀ c, Owed x c → Owed y c) : Asking y where
  conn i t c hi hc' := by
    rw [ht] at hi
    rw [hc, hs]
    exact h.conn i t c hi hc'
  inj i j t u c hi hj := by
    rw [ht] at hi hj
    exact h.inj i j t u c hi hj
  owed i c hi := by
    rw [ht] at hi
    exact ho c (h.owed i c hi)

/-- When the server does not send, the links alone say what is owed. -/
theorem Owed.links (h : Owed x c) (hp : ∀ cfd buf evs, x.server.point ≠ .send cfd buf evs)
    (hq : (y.links c).request = (x.links c).request)
    (hr : (y.links c).reply = (x.links c).reply) : Owed y c := by
  rcases h with h | h | ⟨cfd, buf, evs, hs, -⟩
  · exact .inl (hq ▸ h)
  · exact .inr (.inl (hr ▸ h))
  · exact absurd hs (hp cfd buf evs)

theorem asking_served (h : Asking x) (hs : Served sfd x a y) :
    y.server.point = .exited ∨ Asking y := by
  cases hs with
  | exit _ => exact .inl rfl
  | wait hp _ _ | batchEnd hp | listening hp | data hp _ | add hp _ | recvStop hp _ _ | del hp _ =>
    exact .inr (h.served rfl rfl (fun _ => rfl) fun c ho => ho.links (by simp [hp]) rfl rfl)
  | @recvData cfd evs c bytes log hp hc _ _ _ =>
    refine .inr (h.served rfl rfl (setLink_keeps Link.shut rfl) fun d ho => ?_)
    by_cases e : d = c
    · exact .inr (.inr ⟨cfd, fill bytes, evs, rfl, e ▸ hc⟩)
    · exact ho.links (by simp [hp]) (by simp [System.setLink, e]) (by simp [System.setLink, e])
  | @send cfd buf evs c m log hp hc hm hle =>
    refine .inr (h.served rfl rfl (setLink_keeps Link.shut rfl) fun d ho => ?_)
    by_cases e : d = c
    · refine .inr (.inl ?_)
      subst e
      have hne : buf.take m ≠ [] := by
        rw [← List.length_pos_iff, List.length_take]
        omega
      simpa [System.setLink, Link.answer] using fun _ => hne
    · rcases ho with ho | ho | ⟨cfd', buf', evs', hp', hc'⟩
      · exact .inl (by simpa [System.setLink, e] using ho)
      · exact .inr (.inl (by simpa [System.setLink, e] using ho))
      · rw [hp] at hp'
        cases hp'
        exact absurd (Option.some.inj (hc'.symm.trans hc)) e
  | accept hp _ _ | close hp _ =>
    refine .inr (h.served rfl rfl (setLink_keeps Link.shut rfl) fun c ho => ?_)
    refine ho.links (by simp [hp]) ?_ ?_
    · exact setLink_keeps Link.request (by rfl) c
    · exact setLink_keeps Link.reply (by rfl) c

theorem getElem?_set {ts : List Thread} {j : ℕ} (h : (ts.set i u)[j]? = some t) :
    j = i ∧ t = u ∨ j ≠ i ∧ ts[j]? = some t := by
  rw [List.getElem?_set] at h
  split at h
  · rename_i e
    split at h
    · exact .inl ⟨e.symm, (Option.some.inj h).symm⟩
    · cases h
  · rename_i e
    exact .inr ⟨Ne.symm e, h⟩

/-- A thread moves on; the connections of the others are what they were. -/
theorem Asking.moved (h : Asking x) (hy : y.threads = x.threads.set i u)
    (hs : y.server = x.server) (ht : y.table = x.table) (hc : x.connected ≤ y.connected)
    (hl : ∀ (j : ℕ) (t : Thread) (c : Conn), j ≠ i → x.threads[j]? = some t → t.conn = some c →
      y.links c = x.links c)
    (hu : ∀ c, u.conn = some c → c < y.connected ∧ (y.links c).shut = false ∧
      ∀ (j : ℕ) (t : Thread), j ≠ i → x.threads[j]? = some t → t.conn ≠ some c)
    (ho : ∀ c, u = .recv c → Owed y c) : Asking y where
  conn j t c hj hc' := by
    rw [hy] at hj
    rcases getElem?_set hj with ⟨rfl, rfl⟩ | ⟨hne, hj⟩
    · exact ⟨(hu c hc').1, (hu c hc').2.1⟩
    · obtain ⟨hlt, hsh⟩ := h.conn j t c hj hc'
      rw [hl j t c hne hj hc']
      exact ⟨hlt.trans_le hc, hsh⟩
  inj j k t v c hj hk hjc hkc := by
    rw [hy] at hj hk
    rcases getElem?_set hj with ⟨ej, et⟩ | ⟨hne, hj'⟩ <;>
      rcases getElem?_set hk with ⟨ek, ev⟩ | ⟨hne', hk'⟩
    · exact ej.trans ek.symm
    · exact absurd hkc ((hu c (et ▸ hjc)).2.2 k v hne' hk')
    · exact absurd hjc ((hu c (ev ▸ hkc)).2.2 j t hne hj')
    · exact h.inj j k t v c hj' hk' hjc hkc
  owed j c hj := by
    rw [hy] at hj
    rcases getElem?_set hj with ⟨rfl, e⟩ | ⟨hne, hj⟩
    · exact ho c e.symm
    · have hw := h.owed j c hj
      unfold Owed at hw ⊢
      rw [hl j _ c hne hj rfl, hs, ht]
      exact hw

/-- The connection of a thread is not that of another one. -/
theorem Asking.other (h : Asking x) (hi : x.threads[i]? = some t) (hc : t.conn = some c) (j : ℕ)
    (v : Thread) (hne : j ≠ i) (hj : x.threads[j]? = some v) : v.conn ≠ some c :=
  fun hv => hne (h.inj j i v t c hj hi hv hc)

theorem asking_exitClients : Asking x.exitClients := by
  have hall : ∀ (i : ℕ) (t : Thread), x.exitClients.threads[i]? = some t → t = .returned := by
    intro i t h
    obtain ⟨u, -, rfl⟩ := List.mem_map.mp (List.mem_of_getElem? h)
    rfl
  constructor
  · intro i t c h hc
    rw [hall i t h] at hc
    cases hc
  · intro i j t u c h _ hc
    rw [hall i t h] at hc
    cases hc
  · intro i c h
    cases hall i _ h

/-- A thread moves on, and changes its own link. -/
theorem Asking.own (h : Asking x) (hi : x.threads[i]? = some t) (hc : t.conn = some c) {l : Link}
    (hu : ∀ d, u.conn = some d → d = c ∧ l.shut = false)
    (ho : ∀ d, u = .recv d → l.request ≠ []) : Asking (x.setLink c l |>.setThread i u) := by
  have hother := h.other hi hc
  refine h.moved rfl rfl rfl le_rfl (fun j v d hne hj hv => ?_) (fun d hd => ?_) fun d hd => ?_
  · have hdc : d ≠ c := by
      rintro rfl
      exact hother j v hne hj hv
    simp [System.setThread, System.setLink, hdc]
  · obtain ⟨rfl, hsh⟩ := hu d hd
    exact ⟨(h.conn i t d hi hc).1, by simpa [System.setThread, System.setLink] using hsh, hother⟩
  · have hdc : d = c := (hu d (by rw [hd]; rfl)).1
    subst hdc
    exact .inl (by simpa [System.setThread, System.setLink] using ho d hd)

theorem asking_moved (h : Asking x) {tid : List UInt8} {b : ClientAct}
    (hm : Moved tid x i b y) : Asking y := by
  cases hm with
  | connect hi =>
    have hlt : ∀ (j : ℕ) (t : Thread) (c : Conn), x.threads[j]? = some t → t.conn = some c →
        c ≠ x.connected := fun j t c hj hc => Nat.ne_of_lt (h.conn j t c hj hc).1
    refine h.moved rfl rfl rfl (Nat.le_succ _) (fun j t c _ hj hc => ?_) (fun c hc => ?_)
      fun c hc => by cases hc
    · simp [System.setThread, System.setLink, hlt j t c hj hc]
    · obtain rfl : x.connected = c := Option.some.inj hc
      refine ⟨Nat.lt_succ_self _, ?_, fun j t _ hj hc => hlt j t _ hj hc rfl⟩
      simp [System.setThread, System.setLink, Link.fresh]
  | @send c m hi h0 hle =>
    refine h.own hi rfl (fun d hd => ⟨(Option.some.inj hd).symm, ?_⟩) fun d hd => ?_
    · exact (h.conn i _ c hi rfl).2
    · have hne : (message tid).take m ≠ [] := by
        rw [← List.length_pos_iff, List.length_take]
        omega
      exact List.append_ne_nil_of_right_ne_nil _ hne
  | @recv c bytes hi _ =>
    exact h.own hi rfl (fun d hd => ⟨(Option.some.inj hd).symm, (h.conn i _ c hi rfl).2⟩)
      fun d hd => by cases hd
  | @recvEof c hi =>
    refine h.moved rfl rfl rfl le_rfl (fun _ _ _ _ _ _ => rfl) (fun d hd => ?_)
      fun d hd => by cases hd
    obtain rfl : c = d := Option.some.inj hd
    exact ⟨(h.conn i _ c hi rfl).1, (h.conn i _ c hi rfl).2, h.other hi rfl⟩
  | close hi => exact h.own hi rfl (fun d hd => by cases hd) fun d hd => by cases hd
  | fail => exact asking_exitClients

end Threads

/-! ## The work that is left -/

def Stage.weight : Stage → ℕ
  | .pending => 2
  | .accepted => 1
  | .dropped => 0

/-- The bytes that are to be read, and what is left to do with the connection itself. -/
def Link.cost (l : Link) : ℕ := l.request.length + l.stage.weight

def Point.weight : Point → ℕ
  | .send .. | .add .. => 12
  | .loop [] => 11
  | .wait => 10
  | .loop (_ :: _) => 9
  | .accept _ | .recv .. => 8
  | .del .. => 7
  | .close .. => 6
  | .exited => 0

/-- A bound of the steps of the server while the clients wait. -/
def System.work (x : System) : ℕ :=
  10 * ∑ c ∈ Finset.range x.connected, (x.links c).cost + x.server.point.weight

/-- The server makes a step, and no call fails for a reason of its own. -/
def serverOnly : System → SystemAct → Prop
  | _, .server a => a.ok = true
  | _, _ => False

section Work

variable {sfd : Fd} {x y : System} {a : Act} {c : Conn} {tid : ℕ → List UInt8}

theorem weight_loop_le (evs : List Fd) : (Point.loop evs).weight ≤ 11 := by
  cases evs <;> simp [Point.weight]

theorem sum_cost_lt {f : Conn → Link} {l : Link} {n : ℕ} (hc : c < n) (hl : l.cost < (f c).cost) :
    ∑ d ∈ Finset.range n, (Function.update f c l d).cost < ∑ d ∈ Finset.range n, (f d).cost := by
  refine Finset.sum_lt_sum (fun d _ => ?_) ⟨c, Finset.mem_range.mpr hc, by simpa using hl⟩
  rw [Function.update_apply]
  split
  · rename_i e
    exact e ▸ hl.le
  · exact le_refl _

theorem sum_cost_eq {f : Conn → Link} {l : Link} {n : ℕ} (hl : l.cost = (f c).cost) :
    ∑ d ∈ Finset.range n, (Function.update f c l d).cost = ∑ d ∈ Finset.range n, (f d).cost := by
  refine Finset.sum_congr rfl fun d _ => ?_
  rw [Function.update_apply]
  split
  · rename_i e
    rw [e, hl]
  · rfl

/-- Bytes are read, a connection is accepted, or one is closed. -/
theorem work_lt_of_cost {l : Link} (hc : c < x.connected) (hl : l.cost < (x.links c).cost)
    (hy : y.links = Function.update x.links c l) (hn : y.connected = x.connected)
    (hw : y.server.point.weight < x.server.point.weight + 10) : y.work < x.work := by
  have hlt := sum_cost_lt hc hl
  unfold System.work
  rw [hy, hn]
  omega

theorem work_served (h : Inv sfd x) (ha : a.ok = true) (hs : Served sfd x a y) :
    y.work < x.work := by
  have hlt : ∀ {fd c}, x.table.files fd = some c → c < x.connected := fun hc =>
    (h.lt_made hc).trans_le h.made_le
  cases hs with
  | exit hno =>
    rw [hno] at ha
    cases ha
  | @wait fds evs log hp hw _ =>
    obtain ⟨rfl, -, -⟩ := h.wait_eq hw
    simp only [Epoll.wait, Option.ite_none_right_eq_some] at hw
    obtain ⟨fd, fds, rfl⟩ := List.exists_cons_of_ne_nil hw.1.1
    simp [System.work, hp, Point.weight]
  | batchEnd hp | listening hp | data hp _ | del hp _ | recvStop hp _ _ =>
    simp [System.work, hp, Point.weight]
  | @add cfd evs k log hp _ =>
    have := weight_loop_le evs
    have hw : x.server.point.weight = 12 := by rw [hp]; rfl
    simp only [System.work, hw]
    omega
  | accept hp _ hlt =>
    refine work_lt_of_cost hlt ?_ rfl rfl (by simp [hp, Point.weight])
    simp only [Link.cost, h.pending _ (le_refl _), Stage.weight]
    omega
  | @recvData cfd evs c bytes log hp hc h0 hle hpre =>
    refine work_lt_of_cost (hlt hc) ?_ rfl rfl (by simp [hp, Point.weight])
    have := hpre.length_le
    simp only [Link.cost, Link.hear, List.length_drop]
    omega
  | @send cfd buf evs c m log hp hc _ _ =>
    have hsum := sum_cost_eq (n := x.connected)
      (show ((x.links c).answer (buf.take m)).cost = (x.links c).cost from rfl)
    have := weight_loop_le evs
    have hw : x.server.point.weight = 12 := by rw [hp]; rfl
    simp only [System.work, System.setLink, hw, hsum]
    omega
  | @close cfd evs c log hp hc =>
    have := weight_loop_le evs
    have hw : x.server.point.weight = 6 := by rw [hp]; rfl
    refine work_lt_of_cost (hlt hc) ?_ rfl rfl ?_
    · simp only [Link.cost, h.accepted cfd c hc, Stage.weight]
      omega
    · change (Point.loop evs).weight < x.server.point.weight + 10
      omega

theorem ne_exited_served (ha : a.ok = true) (hs : Served sfd x a y) : y.server.point ≠ .exited := by
  cases hs with
  | exit hno =>
    rw [hno] at ha
    cases ha
  | _ =>
    intro e
    cases e

end Work

/-! ## Progress -/

section Progress

variable {sfd : Fd} {x y : System} {a : Act} {c : Conn} {tid : ℕ → List UInt8}

theorem step_of_served {s : State} {z : System} (hs : step sfd x.server a = some s)
    (hz : transport sfd x a = some z) (ha : a.ok = true) :
    ∃ b, serverOnly x b ∧ ∃ y, system sfd tid x b = some y :=
  ⟨.server a, ha, _, system_server_eq_some.mpr ⟨s, z, hs, hz, rfl⟩⟩

/-- **The server stops only in `epoll_wait`**, and only when nothing that is registered is ready. -/
theorem progress (tid : ℕ → List UInt8) (h : Inv sfd x) (hx : x.server.point ≠ .exited) :
    (∃ b, serverOnly x b ∧ ∃ y, system sfd tid x b = some y) ∨
      x.server.point = .wait ∧
        ∀ fd, (x.server.kernel.reg fd).isSome → x.ready sfd fd = false := by
  have hpt := h.point
  unfold AtPoint at hpt
  cases hp : x.server.point with
  | exited => exact absurd hp hx
  | wait =>
    by_cases hr : ∃ fd, (x.server.kernel.reg fd).isSome ∧ x.ready sfd fd = true
    · obtain ⟨fd, hreg, hready⟩ := hr
      obtain ⟨d, hd⟩ := Option.isSome_iff_exists.mp hreg
      refine .inl (step_of_served (a := .epollWait [fd])
        (s := ⟨x.server.kernel, .loop [d], x.server.log⟩) (z := x) ?_ ?_ rfl)
      · simp [step, hp, Epoll.wait, hd]
      · simp [transport, hready]
    · refine .inr ⟨rfl, fun fd hreg => ?_⟩
      rw [← Bool.not_eq_true]
      exact fun hready => hr ⟨fd, hreg, hready⟩
  | loop evs =>
    left
    cases evs with
    | nil => exact step_of_served (a := .dispatch) (by simp [step, hp]; rfl) rfl rfl
    | cons fd evs =>
      by_cases e : fd = sfd
      · exact step_of_served (a := .dispatch) (by simp [step, hp, e]; rfl) rfl rfl
      · exact step_of_served (a := .dispatch) (by simp [step, hp, e]; rfl) rfl rfl
  | accept evs =>
    simp only [hp] at hpt
    obtain ⟨n, hn⟩ := h.free
    left
    exact step_of_served (a := .accept (some n))
      (by simp [step, handle_connection, hp, hn n (le_refl n)]; rfl)
      (by simp [transport, hpt]; rfl) rfl
  | add cfd evs =>
    simp only [hp] at hpt
    have hopen := h.isOpen cfd (.inr hpt)
    have hreg : x.server.kernel.reg cfd = none := by
      by_contra hsome
      rcases h.reg_isSome.mp (Option.isSome_iff_ne_none.mpr hsome) with rfl | ⟨-, hu⟩
      · simp [h.listening] at hpt
      · simp [hp, Point.unregistered] at hu
    left
    exact step_of_served (a := .ctlAdd true)
      (by simp [step, handle_connection, hp, Epoll.add, hopen, hreg]; rfl) rfl rfl
  | recv cfd evs =>
    simp only [hp] at hpt
    obtain ⟨c, hc, hr⟩ := hpt
    left
    cases hq : (x.links c).request with
    | nil =>
      have hshut : (x.links c).shut = true := by simpa [Link.readable, hq] using hr
      exact step_of_served (a := .recv .eof)
        (by simp [step, handle_data, hp, Recv.Fits]; rfl)
        (by simp [transport, hp, hc, hshut, hq]; rfl) rfl
    | cons byte rest =>
      exact step_of_served (a := .recv (.data [byte]))
        (by simp [step, handle_data, hp, Recv.Fits, bufferSize]; rfl)
        (by simp [transport, hp, hc, hq]; rfl) rfl
  | send cfd buf evs =>
    simp only [hp] at hpt
    obtain ⟨c, hc⟩ := Option.isSome_iff_exists.mp hpt.1
    left
    exact step_of_served (a := .send (some buf.length)) (by simp [step, handle_data, hp]; rfl)
      (by simp [transport, hp, hc, hpt.2]; rfl) rfl
  | del cfd evs =>
    simp only [hp] at hpt
    obtain ⟨c, hc, -⟩ := hpt
    have hreg : (x.server.kernel.reg cfd).isSome := by
      refine h.reg_isSome.mpr (.inr ⟨by simp [hc], ?_⟩)
      simp [hp, Point.unregistered]
    left
    exact step_of_served (a := .ctlDel true)
      (by simp [step, handle_data, hp, Epoll.del, hreg]; rfl) rfl rfl
  | close cfd evs =>
    simp only [hp] at hpt
    obtain ⟨c, hc, -⟩ := hpt
    left
    exact step_of_served (a := .close) (by simp [step, handle_data, hp]; rfl)
      (by simp [transport, hp, hc]; rfl) rfl

/-- When nothing is ready, the server stops. -/
theorem stuck_of_quiet (hp : x.server.point = .wait)
    (hq : ∀ fd, (x.server.kernel.reg fd).isSome → x.ready sfd fd = false) (b : SystemAct)
    (hb : serverOnly x b) : system sfd tid x b = none := by
  rw [Option.eq_none_iff_forall_ne_some]
  intro y hs
  cases b with
  | server a =>
    cases served_of_system hs with
    | exit hno =>
      change a.ok = true at hb
      rw [hno] at hb
      cases hb
    | @wait fds evs log _ hw hready =>
      obtain ⟨-, hreg, -⟩ := Epoll.wait_eq_some hw
      simp only [Epoll.wait, Option.ite_none_right_eq_some] at hw
      obtain ⟨fd, l, rfl⟩ := List.exists_cons_of_ne_nil hw.1.1
      have hno := hq fd (hreg fd List.mem_cons_self)
      rw [hready fd List.mem_cons_self] at hno
      cases hno
    | _ => simp_all
  | client i a => cases hb
  | exit => cases hb

/-- When nothing is ready, whoever waits can read. -/
theorem reply_of_quiet (h : Inv sfd x) (hA : Asking x) (hp : x.server.point = .wait)
    (hq : ∀ fd, (x.server.kernel.reg fd).isSome → x.ready sfd fd = false) {i : ℕ}
    (hi : x.threads[i]? = some (.recv c)) : (x.links c).reply ≠ [] := by
  obtain ⟨hlt, hsh⟩ := hA.conn i _ c hi rfl
  rcases hA.owed i c hi with hreq | hrep | ⟨cfd, buf, evs, hs, -⟩
  · -- the request would be on a registered connection, and ready
    have hmade : x.connected ≤ x.table.made := by
      have := hq sfd (h.reg_isSome.mpr (.inl rfl))
      rwa [← Bool.not_eq_true, ready_sfd, not_lt] at this
    rcases h.dropped c (hlt.trans_le hmade) with ⟨fd, hfd⟩ | hshut
    · have hr : (x.server.kernel.reg fd).isSome :=
        h.reg_isSome.mpr (.inr ⟨by simp [hfd], by simp [hp, Point.unregistered]⟩)
      have hno := hq fd hr
      rw [ready_of_files hfd (h.ne_sfd hfd)] at hno
      simp [Link.readable, hreq] at hno
    · rw [hsh] at hshut
      cases hshut
  · exact hrep
  · rw [hp] at hs
    cases hs

end Progress

/-! ## Whole runs -/

section Runs

variable {efd sfd : Fd} {n : ℕ} {tid : ℕ → List UInt8} {x y : System} {as bs : List SystemAct}

theorem inv_system {b : SystemAct} (h : Inv sfd x ∧ Asking x)
    (hs : system sfd tid x b = some y) : y.server.point = .exited ∨ Inv sfd y ∧ Asking y := by
  cases b with
  | server a =>
    have hserved := served_of_system hs
    rcases inv_served h.1 hserved with he | hI
    · exact .inl he
    · exact (asking_served h.2 hserved).imp_right fun hA => ⟨hI, hA⟩
  | client i a =>
    have hm := moved_of_client hs
    exact .inr ⟨inv_moved h.1 hm, asking_moved h.2 hm⟩
  | exit =>
    obtain rfl := Option.some.inj hs
    exact .inr ⟨inv_exitClients h.1, asking_exitClients⟩

/-- A server that is gone stays gone. -/
theorem exited_system {b : SystemAct} (h : x.server.point = .exited)
    (hs : system sfd tid x b = some y) : y.server.point = .exited := by
  cases b with
  | server a =>
    cases served_of_system hs with
    | exit _ => rfl
    | _ => simp_all
  | client i a =>
    cases moved_of_client hs <;> exact h
  | exit =>
    obtain rfl := Option.some.inj hs
    exact h

theorem inv_of_run (h : Run (system sfd tid) free (boot efd sfd n) as x)
    (hx : x.server.point ≠ .exited) : Inv sfd x ∧ Asking x := by
  have hI : x.server.point = .exited ∨ Inv sfd x ∧ Asking x :=
    h.invariant (I := fun x => x.server.point = .exited ∨ Inv sfd x ∧ Asking x)
      (.inr ⟨boot_inv efd sfd n, boot_asking efd sfd n⟩) fun x b y hI _ hs =>
        hI.elim (fun he => .inl (exited_system he hs)) fun hI => inv_system hI hs
  exact hI.resolve_left hx

/-- **No client waits in vain** where no `send` waits for room.  While the clients wait, the server
makes at most `work` steps, and stops in `epoll_wait`; then every thread that waits has an answer to
read. -/
theorem clients_answered (h : Run (system sfd tid) free (boot efd sfd n) as x)
    (hx : x.server.point ≠ .exited) (hr : Run (system sfd tid) serverOnly x bs y) :
    bs.length ≤ x.work ∧
      ((∀ b, serverOnly y b → system sfd tid y b = none) →
        y.server.point = .wait ∧
          ∀ (i : ℕ) (c : Conn), y.threads[i]? = some (.recv c) → (y.links c).reply ≠ []) := by
  have hstep : ∀ x b y, x.server.point ≠ .exited ∧ Inv sfd x ∧ Asking x → serverOnly x b →
      system sfd tid x b = some y →
      (y.server.point ≠ .exited ∧ Inv sfd y ∧ Asking y) ∧ y.work < x.work := by
    intro x b y hI hb hs
    cases b with
    | server a =>
      have hserved := served_of_system hs
      have hy := ne_exited_served hb hserved
      have hinv := (inv_served hI.2.1 hserved).resolve_left hy
      have hask := (asking_served hI.2.2 hserved).resolve_left hy
      exact ⟨⟨hy, hinv, hask⟩, work_served hI.2.1 hb hserved⟩
    | client i a => cases hb
    | exit => cases hb
  have hI := inv_of_run h hx
  refine ⟨?_, fun hstuck => ?_⟩
  · have := hr.length_le ⟨hx, hI⟩ hstep
    omega
  · obtain ⟨hy, hIy, hAy⟩ : y.server.point ≠ .exited ∧ Inv sfd y ∧ Asking y :=
      hr.invariant (I := fun x => x.server.point ≠ .exited ∧ Inv sfd x ∧ Asking x) ⟨hx, hI⟩
        fun x b y hI hb hs => (hstep x b y hI hb hs).1
    rcases progress tid hIy hy with ⟨b, hb, z, hz⟩ | ⟨hp, hq⟩
    · rw [hstuck b hb] at hz
      cases hz
    · exact ⟨hp, fun i c hi => reply_of_quiet hIy hAy hp hq hi⟩

/-- A thread connects and sends; the server accepts, reads and answers. -/
def oneThread : List SystemAct := [.client 0 .connect, .client 0 (.send 10)]

def oneAnswer : List SystemAct :=
  [.server (.epollWait [4]), .server .dispatch, .server (.accept (some 5)), .server (.ctlAdd true),
    .server .dispatch, .server (.epollWait [5]), .server .dispatch,
    .server (.recv (.data (message [55]))), .server (.send (some 1024)), .server .dispatch]

theorem oneAnswer_serverOnly : ∀ b ∈ oneAnswer, ∀ x, serverOnly x b := by
  intro b hb x
  simp only [oneAnswer, List.mem_cons, List.not_mem_nil, or_false] at hb
  rcases hb with rfl | rfl | rfl | rfl | rfl | rfl | rfl | rfl | rfl | rfl <;> rfl

set_option maxRecDepth 8000 in
theorem clients_answered_one : ∃ x y, Run (system 4 fun _ => [55]) free (boot 3 4 1) oneThread x ∧
    Run (system 4 fun _ => [55]) serverOnly x oneAnswer y ∧ 10 ≤ x.work ∧
      y.threads[0]? = some (.recv 0) ∧ (y.links 0).reply ≠ [] := by
  obtain ⟨x, h, hx, hrest⟩ : ∃ x, Run (system 4 fun _ => [55]) free (boot 3 4 1) oneThread x ∧
      x.server.point ≠ .exited ∧ ((exec (system 4 fun _ => [55]) free x oneAnswer).any fun y =>
        decide (y.server.point = .wait ∧ y.table.made = 1 ∧ y.connected = 1 ∧
          (y.links 0).readable = false ∧ y.threads[0]? = some (Thread.recv 0))) = true :=
    Run.exists_of_exec _ _ (by decide)
  obtain ⟨y, hr, hp, hmade, hconn, hread, hi⟩ := Run.exists_of_exec _ _ hrest
  have hIy := inv_of_run (h.append hr) (by simp [hp])
  obtain ⟨hlen, hend⟩ := clients_answered h hx (hr.of_forall_mem oneAnswer_serverOnly)
  refine ⟨x, y, h, hr.of_forall_mem oneAnswer_serverOnly, hlen, hi, ?_⟩
  refine (hend (stuck_of_quiet hp fun fd hreg => ?_)).2 0 0 hi
  rcases hIy.1.reg_isSome.mp hreg with rfl | ⟨hs, -⟩
  · simp [System.ready, hmade, hconn]
  · obtain ⟨c, hc⟩ := Option.isSome_iff_exists.mp hs
    have hc0 : c < 1 := hmade ▸ hIy.1.lt_made hc
    obtain rfl : c = 0 := Nat.lt_one_iff.mp hc0
    rw [ready_of_files hc (hIy.1.ne_sfd hc), hread]

end Runs

end PracticeCode.Server1
