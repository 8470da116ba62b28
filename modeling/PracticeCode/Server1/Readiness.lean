import PracticeCode.Server1.Clients
import Mathlib.Order.MinMax

/-!
# The server calls nothing that is not ready

The sockets of the server block, so that a call of `accept` or `recv` on a descriptor that is not
ready would stop it for good.  `Inv` says which numbers are registered, and that every number of the
batch stays ready until its turn: the server alone takes from the connections, and it serves each
number of a batch once.
-/

namespace PracticeCode.Server1

open Linux

/-- The rest of the batch. -/
def Point.batch : Point → List Fd
  | .loop evs | .accept evs | .add _ evs | .recv _ evs | .send _ _ evs | .del _ evs
  | .close _ evs => evs
  | .wait | .exited => []

/-- The number that is served, and the rest of the batch. -/
def Point.fds (sfd : Fd) : Point → List Fd
  | .accept evs => sfd :: evs
  | .add cfd evs | .recv cfd evs | .send cfd _ evs | .del cfd evs | .close cfd evs => cfd :: evs
  | .loop evs => evs
  | .wait | .exited => []

/-- A connection that is open, but not on the interest list. -/
def Point.unregistered : Point → Option Fd
  | .add cfd _ | .close cfd _ => some cfd
  | _ => none

/-- What the call that comes next needs. -/
def AtPoint (x : System) : Prop :=
  match x.server.point with
  | .accept _ => x.table.made < x.connected
  | .add cfd _ => (x.table.files cfd).isSome
  | .recv cfd _ => ∃ c, x.table.files cfd = some c ∧ (x.links c).readable = true
  | .send cfd buf _ => (x.table.files cfd).isSome ∧ 0 < buf.length
  | .del cfd _ | .close cfd _ => ∃ c, x.table.files cfd = some c ∧ (x.links c).shut = true
  | .wait | .loop _ | .exited => True

structure Inv (sfd : Fd) (x : System) : Prop where
  wf : x.table.Wf
  made_le : x.table.made ≤ x.connected
  pending : ∀ c, x.table.made ≤ c → (x.links c).stage = .pending
  accepted : ∀ fd c, x.table.files fd = some c → (x.links c).stage = .accepted
  /-- Only a connection that the client has closed is dropped. -/
  dropped : ∀ c < x.table.made, (∃ fd, x.table.files fd = some c) ∨ (x.links c).shut = true
  listening : x.table.files sfd = none
  isOpen : ∀ fd, fd = sfd ∨ (x.table.files fd).isSome → x.server.kernel.isOpen fd = true
  /-- There are numbers to give out. -/
  free : ∃ n, ∀ fd, n ≤ fd → x.server.kernel.isOpen fd = false
  reg : ∀ fd d, x.server.kernel.reg fd = some d ↔ d = fd ∧
    (fd = sfd ∨ (x.table.files fd).isSome ∧ x.server.point.unregistered ≠ some fd)
  nodup : (x.server.point.fds sfd).Nodup
  batch : ∀ fd ∈ x.server.point.batch,
    (x.server.kernel.reg fd).isSome ∧ x.ready sfd fd = true
  point : AtPoint x

section Server

variable {sfd : Fd} {x y : System} {a : Act} {fd cfd : Fd} {c : Conn} {p : Point}
  {log : List Epoll.Call} {evs : List Fd}

theorem boot_inv (efd sfd : Fd) (n : ℕ) : Inv sfd (boot efd sfd n) where
  wf := Table.wf_empty
  made_le := le_refl 0
  pending _ _ := rfl
  accepted fd c h := by cases h
  dropped c h := absurd h (Nat.not_lt_zero c)
  listening := rfl
  isOpen fd h := by
    rcases h with rfl | h
    · simp [boot, init, Epoll.boot]
    · cases h
  free := by
    refine ⟨max 3 (max efd sfd) + 1, fun fd h => ?_⟩
    simp only [boot, init, Epoll.boot, decide_eq_false_iff_not]
    have h := Nat.lt_of_succ_le h
    obtain ⟨h3, h⟩ := max_lt_iff.mp h
    obtain ⟨he, hs⟩ := max_lt_iff.mp h
    rintro (hlt | rfl | rfl)
    · exact lt_asymm h3 hlt
    · exact lt_irrefl _ he
    · exact lt_irrefl _ hs
  reg fd d := by
    simp only [boot, init, Epoll.boot, Point.unregistered, Table.empty, Option.isSome_none,
      Bool.false_eq_true, false_and, or_false]
    split
    · rename_i e
      simp [e, eq_comm]
    · rename_i e
      simp [e]
  nodup := .nil
  batch fd h := by cases h
  point := trivial

/-- A registered number has itself for its data. -/
theorem Inv.reg_isSome (h : Inv sfd x) : (x.server.kernel.reg fd).isSome ↔
    fd = sfd ∨ (x.table.files fd).isSome ∧ x.server.point.unregistered ≠ some fd := by
  rw [Option.isSome_iff_exists]
  constructor
  · rintro ⟨d, hd⟩
    exact ((h.reg fd d).mp hd).2
  · intro hr
    exact ⟨fd, (h.reg fd fd).mpr ⟨rfl, hr⟩⟩

theorem Inv.ne_sfd (h : Inv sfd x) (hc : x.table.files fd = some c) : fd ≠ sfd := by
  rintro rfl
  rw [h.listening] at hc
  cases hc

theorem Inv.lt_made (h : Inv sfd x) (hc : x.table.files fd = some c) : c < x.table.made :=
  h.wf.made hc

/-- A connection keeps what its new link keeps. -/
theorem setLink_keeps {γ : Type} (f : Link → γ) {l : Link} (hl : f l = f (x.links c)) (d : Conn) :
    f ((x.setLink c l).links d) = f (x.links d) := by
  simp only [System.setLink, Function.update_apply]
  split
  · rename_i e
    rw [e, hl]
  · rfl

theorem ready_of_files (hc : x.table.files fd = some c) (hne : fd ≠ sfd) :
    x.ready sfd fd = (x.links c).readable := by
  simp [System.ready, hne, hc]

theorem ready_sfd : x.ready sfd sfd = true ↔ x.table.made < x.connected := by
  simp [System.ready]

/-- The batch of an `epoll_wait` is the list of the numbers. -/
theorem Inv.wait_eq (h : Inv sfd x) {n : ℕ} {fds : List Fd}
    (hw : x.server.kernel.wait n fds = some evs) :
    evs = fds ∧ fds.Nodup ∧ ∀ fd ∈ fds, (x.server.kernel.reg fd).isSome := by
  obtain ⟨hnd, hreg, rfl⟩ := Epoll.wait_eq_some hw
  refine ⟨?_, hnd, hreg⟩
  refine (List.filterMap_congr fun fd hm => ?_).trans List.filterMap_some
  obtain ⟨d, hd⟩ := Option.isSome_iff_exists.mp (hreg fd hm)
  rw [hd, ((h.reg fd d).mp hd).1]

/-- A step that leaves the kernel and the connections alone. -/
theorem Inv.goto (h : Inv sfd x) (hu : p.unregistered = x.server.point.unregistered)
    (hn : (p.fds sfd).Nodup)
    (hb : ∀ fd ∈ p.batch, (x.server.kernel.reg fd).isSome ∧ x.ready sfd fd = true)
    (hp : AtPoint { x with server := ⟨x.server.kernel, p, log⟩ }) :
    Inv sfd { x with server := ⟨x.server.kernel, p, log⟩ } where
  wf := h.wf
  made_le := h.made_le
  pending := h.pending
  accepted := h.accepted
  dropped := h.dropped
  listening := h.listening
  isOpen := h.isOpen
  free := h.free
  reg fd d := by
    rw [h.reg, ← hu]
  nodup := hn
  batch := hb
  point := hp

/-- The connection that is served moves bytes. -/
theorem Inv.move (h : Inv sfd x) {l : Link} (hc : x.table.files cfd = some c)
    (hs : l.stage = (x.links c).stage) (hsh : l.shut = (x.links c).shut)
    (hu : p.unregistered = x.server.point.unregistered) (hn : (p.fds sfd).Nodup)
    (hb : p.batch = x.server.point.batch) (hm : cfd ∉ x.server.point.batch)
    (hp : AtPoint { x.setLink c l with server := ⟨x.server.kernel, p, log⟩ }) :
    Inv sfd { x.setLink c l with server := ⟨x.server.kernel, p, log⟩ } where
  wf := h.wf
  made_le := h.made_le
  pending d hd := by
    have hne : d ≠ c := (Nat.ne_of_gt ((h.lt_made hc).trans_le hd))
    simp only [System.setLink, Function.update_of_ne hne]
    exact h.pending d hd
  accepted fd d hd := by
    simp only [System.setLink, Function.update_apply]
    split
    · rename_i e
      rw [hs]
      exact h.accepted cfd c hc
    · exact h.accepted fd d hd
  dropped d hd := by
    simp only [System.setLink, Function.update_apply]
    split
    · rename_i e
      subst e
      exact .inl ⟨cfd, hc⟩
    · exact h.dropped d hd
  listening := h.listening
  isOpen := h.isOpen
  free := h.free
  reg fd d := by
    rw [h.reg, ← hu]
    rfl
  nodup := hn
  batch fd hfd := by
    change fd ∈ p.batch at hfd
    rw [hb] at hfd
    obtain ⟨hr, hready⟩ := h.batch fd hfd
    refine ⟨hr, ?_⟩
    by_cases e : fd = sfd
    · subst e
      exact ready_sfd.mpr (ready_sfd (x := x).mp hready)
    · obtain ⟨d, hd⟩ := Option.isSome_iff_exists.mp ((h.reg_isSome.mp hr).resolve_left e).1
      have hne : d ≠ c := by
        rintro rfl
        obtain rfl := h.wf.inj hd hc
        exact hm hfd
      rw [ready_of_files hd e] at hready
      rw [ready_of_files (x := { x.setLink c l with server := ⟨x.server.kernel, p, log⟩ }) hd e]
      simpa only [System.setLink, Function.update_of_ne hne] using hready
  point := hp

theorem Inv.accept (h : Inv sfd x) (hp : x.server.point = .accept evs)
    (hfree : x.server.kernel.isOpen cfd = false) (hlt : x.table.made < x.connected) :
    Inv sfd { ({ x with table := x.table.accept cfd }.setLink x.table.made
        { x.links x.table.made with stage := .accepted }) with
      server := ⟨x.server.kernel.accept cfd, .add cfd evs, log⟩ } := by
  have hnd := h.nodup
  have hnone : x.table.files cfd = none := by
    by_contra hsome
    have := h.isOpen cfd (.inr (Option.isSome_iff_ne_none.mpr hsome))
    simp [hfree] at this
  have hne : cfd ≠ sfd := by
    rintro rfl
    have := h.isOpen cfd (.inl rfl)
    simp [hfree] at this
  have hreg : ∀ fd ∈ evs, (x.server.kernel.reg fd).isSome ∧ fd ≠ cfd := by
    intro fd hfd
    have hr := (h.batch fd (by rw [hp]; exact hfd)).1
    refine ⟨hr, ?_⟩
    rintro rfl
    rcases h.reg_isSome.mp hr with e | ⟨hs, -⟩
    · exact hne e
    · simp [hnone] at hs
  rw [hp] at hnd
  obtain ⟨hs, hnd⟩ := List.nodup_cons.mp hnd
  have hfd : ∀ fd d, (x.table.accept cfd).files fd = some d →
      fd = cfd ∧ d = x.table.made ∨ x.table.files fd = some d ∧ d ≠ x.table.made := by
    intro fd d hd
    rw [Table.files_accept] at hd
    split at hd
    · exact .inl ⟨‹_›, (Option.some.inj hd).symm⟩
    · exact .inr ⟨hd, Nat.ne_of_lt (h.lt_made hd)⟩
  constructor
  · exact h.wf.accept cfd
  · exact hlt
  · intro d hd
    have hne : d ≠ x.table.made := Nat.ne_of_gt hd
    simp only [System.setLink, Function.update_of_ne hne]
    exact h.pending d (Nat.le_of_succ_le hd)
  · intro fd d hd
    simp only [System.setLink, Function.update_apply]
    rcases hfd fd d hd with ⟨rfl, rfl⟩ | ⟨hd, hne⟩
    · rw [if_pos rfl]
    · rw [if_neg hne]
      exact h.accepted fd d hd
  · intro d hd
    by_cases e : d = x.table.made
    · exact .inl ⟨cfd, by simp [System.setLink, Table.files_accept, e]⟩
    · simp only [System.setLink, Function.update_of_ne e]
      have hd' : d < x.table.made := lt_of_le_of_ne (Nat.lt_succ_iff.mp hd) e
      refine (h.dropped d hd').imp ?_ id
      rintro ⟨fd, hfile⟩
      refine ⟨fd, ?_⟩
      rw [Table.files_accept, if_neg]
      · exact hfile
      · rintro rfl
        simp [hnone] at hfile
  · change (x.table.accept cfd).files sfd = none
    rw [Table.files_accept, if_neg hne.symm]
    exact h.listening
  · intro fd hd
    change Function.update x.server.kernel.isOpen cfd true fd = true
    rw [Function.update_apply]
    split
    · rfl
    · rename_i hfc
      refine h.isOpen fd (hd.imp_right fun hs => ?_)
      change ((x.table.accept cfd).files fd).isSome at hs
      rwa [Table.files_accept, if_neg hfc] at hs
  · obtain ⟨n, hn⟩ := h.free
    refine ⟨max n (cfd + 1), fun fd hle => ?_⟩
    change Function.update x.server.kernel.isOpen cfd true fd = false
    obtain ⟨hle, hlt⟩ := max_le_iff.mp hle
    rw [Function.update_of_ne (Nat.ne_of_gt hlt)]
    exact hn fd hle
  · intro fd d
    change x.server.kernel.reg fd = some d ↔ d = fd ∧
      (fd = sfd ∨ ((x.table.accept cfd).files fd).isSome ∧ some cfd ≠ some fd)
    rw [h.reg, Table.files_accept, hp]
    by_cases e : fd = cfd
    · subst e
      simp [hnone, hne]
    · simp [e, Ne.symm e, Point.unregistered]
  · exact List.nodup_cons.mpr ⟨fun hm => (hreg cfd hm).2 rfl, hnd⟩
  · intro fd hm
    obtain ⟨hr, hfc⟩ := hreg fd hm
    refine ⟨hr, ?_⟩
    have hready := (h.batch fd (by rw [hp]; exact hm)).2
    have hns : fd ≠ sfd := by
      rintro rfl
      exact hs hm
    obtain ⟨d, hd⟩ := Option.isSome_iff_exists.mp ((h.reg_isSome.mp hr).resolve_left hns).1
    rw [ready_of_files hd hns] at hready
    have hd' : (x.table.accept cfd).files fd = some d := by
      rw [Table.files_accept, if_neg hfc]
      exact hd
    have hdm : d ≠ x.table.made := Nat.ne_of_lt (h.lt_made hd)
    rw [ready_of_files (c := d) hd' hns]
    simpa only [System.setLink, Function.update_of_ne hdm] using hready
  · change ((x.table.accept cfd).files cfd).isSome
    rw [Table.files_accept, if_pos rfl]
    rfl

theorem Inv.add (h : Inv sfd x) (hp : x.server.point = .add cfd evs) {k : Epoll Fd}
    (hk : x.server.kernel.add cfd cfd = some k) :
    Inv sfd { x with server := ⟨k, .loop evs, log⟩ } := by
  obtain ⟨-, hnone, rfl⟩ := Epoll.add_eq_some hk
  have hnd := h.nodup
  have hpt := h.point
  simp only [AtPoint, hp] at hpt
  rw [hp] at hnd
  have hreg : ∀ fd d, Function.update x.server.kernel.reg cfd (some cfd) fd = some d ↔
      d = fd ∧ (fd = sfd ∨ (x.table.files fd).isSome) := by
    intro fd d
    rw [Function.update_apply]
    split
    · rename_i e
      subst e
      simp [hpt, eq_comm]
    · rename_i e
      rw [h.reg, hp]
      simp [Point.unregistered, Ne.symm e]
  refine ⟨h.wf, h.made_le, h.pending, h.accepted, h.dropped, h.listening, h.isOpen, h.free,
    fun fd d => ?_,
    (List.nodup_cons.mp hnd).2, fun fd hm => ?_, trivial⟩
  · rw [hreg]
    simp [Point.unregistered]
  · obtain ⟨hr, hready⟩ := h.batch fd (by rw [hp]; exact hm)
    refine ⟨?_, hready⟩
    change (Function.update x.server.kernel.reg cfd (some cfd) fd).isSome
    rw [Function.update_apply]
    split
    · rfl
    · exact hr

theorem Inv.del (h : Inv sfd x) (hp : x.server.point = .del cfd evs) {k : Epoll Fd}
    (hk : x.server.kernel.del cfd = some k) :
    Inv sfd { x with server := ⟨k, .close cfd evs, log⟩ } := by
  obtain rfl := Epoll.del_eq_some hk
  have hnd := h.nodup
  obtain ⟨c, hc, hshut⟩ : ∃ c, x.table.files cfd = some c ∧ (x.links c).shut = true := by
    simpa only [AtPoint, hp] using h.point
  rw [hp] at hnd
  refine ⟨h.wf, h.made_le, h.pending, h.accepted, h.dropped, h.listening, h.isOpen, h.free,
    fun fd d => ?_,
    hnd, fun fd hm => ?_, ⟨c, hc, hshut⟩⟩
  · change Function.update x.server.kernel.reg cfd none fd = some d ↔
      d = fd ∧ (fd = sfd ∨ (x.table.files fd).isSome ∧ some cfd ≠ some fd)
    rw [Function.update_apply]
    split
    · rename_i e
      subst e
      simp [h.ne_sfd hc]
    · rename_i e
      rw [h.reg, hp]
      simp [Point.unregistered, Ne.symm e]
  · obtain ⟨hr, hready⟩ := h.batch fd (by rw [hp]; exact hm)
    have hne : fd ≠ cfd := by
      rintro rfl
      exact (List.nodup_cons.mp hnd).1 hm
    refine ⟨?_, hready⟩
    change (Function.update x.server.kernel.reg cfd none fd).isSome
    rw [Function.update_of_ne hne]
    exact hr

theorem Inv.close (h : Inv sfd x) (hp : x.server.point = .close cfd evs)
    (hc : x.table.files cfd = some c) :
    Inv sfd { ({ x with table := x.table.close cfd }.setLink c
        { x.links c with stage := .dropped }) with
      server := ⟨x.server.kernel.close cfd, .loop evs, log⟩ } := by
  have hnd := h.nodup
  have hshut : (x.links c).shut = true := by
    obtain ⟨d, hd, hshut⟩ : ∃ d, x.table.files cfd = some d ∧ (x.links d).shut = true := by
      simpa only [AtPoint, hp] using h.point
    rwa [Option.some.inj (hc.symm.trans hd)]
  rw [hp] at hnd
  obtain ⟨hm, hnd⟩ := List.nodup_cons.mp hnd
  have hother : ∀ fd d, (x.table.close cfd).files fd = some d →
      fd ≠ cfd ∧ d ≠ c ∧ x.table.files fd = some d := by
    intro fd d hd
    obtain ⟨hne, hd⟩ := Table.files_close_eq_some.mp hd
    refine ⟨hne, fun e => ?_, hd⟩
    rw [e] at hd
    exact hne (h.wf.inj hd hc)
  constructor
  · exact h.wf.close cfd
  · exact h.made_le
  · intro d hd
    have hne : d ≠ c := Nat.ne_of_gt ((h.lt_made hc).trans_le hd)
    simp only [System.setLink, Function.update_of_ne hne]
    exact h.pending d hd
  · intro fd d hd
    obtain ⟨-, hne, hd⟩ := hother fd d hd
    simp only [System.setLink, Function.update_of_ne hne]
    exact h.accepted fd d hd
  · intro d hd
    by_cases e : d = c
    · exact .inr (by simpa [System.setLink, e] using hshut)
    · simp only [System.setLink, Function.update_of_ne e]
      refine (h.dropped d hd).imp_left ?_
      rintro ⟨fd, hfile⟩
      refine ⟨fd, Table.files_close_eq_some.mpr ⟨?_, hfile⟩⟩
      rintro rfl
      exact e (Option.some.inj (hfile.symm.trans hc))
  · change (x.table.close cfd).files sfd = none
    rw [Table.files_close]
    split
    · rfl
    · exact h.listening
  · intro fd hfd
    change Function.update x.server.kernel.isOpen cfd false fd = true
    have hne : fd ≠ cfd := by
      rintro rfl
      rcases hfd with e | hs
      · exact h.ne_sfd hc e
      · change ((x.table.close fd).files fd).isSome at hs
        simp [Table.files_close] at hs
    rw [Function.update_of_ne hne]
    refine h.isOpen fd (hfd.imp_right fun hs => ?_)
    change ((x.table.close cfd).files fd).isSome at hs
    rwa [Table.files_close, if_neg hne] at hs
  · obtain ⟨n, hn⟩ := h.free
    refine ⟨n, fun fd hle => ?_⟩
    change Function.update x.server.kernel.isOpen cfd false fd = false
    rw [Function.update_apply]
    split
    · rfl
    · exact hn fd hle
  · intro fd d
    change Function.update x.server.kernel.reg cfd none fd = some d ↔
      d = fd ∧ (fd = sfd ∨ ((x.table.close cfd).files fd).isSome ∧ none ≠ some fd)
    rw [Function.update_apply, Table.files_close]
    split
    · rename_i e
      subst e
      simp [h.ne_sfd hc]
    · rename_i e
      rw [h.reg, hp]
      simp [Point.unregistered, Ne.symm e]
  · exact hnd
  · intro fd hfd
    obtain ⟨hr, hready⟩ := h.batch fd (by rw [hp]; exact hfd)
    have hne : fd ≠ cfd := by
      rintro rfl
      exact hm hfd
    constructor
    · change (Function.update x.server.kernel.reg cfd none fd).isSome
      rw [Function.update_of_ne hne]
      exact hr
    · by_cases e : fd = sfd
      · subst e
        exact ready_sfd.mpr (ready_sfd (x := x).mp hready)
      · obtain ⟨d, hd⟩ := Option.isSome_iff_exists.mp ((h.reg_isSome.mp hr).resolve_left e).1
        have hd' : (x.table.close cfd).files fd = some d :=
          Table.files_close_eq_some.mpr ⟨hne, hd⟩
        rw [ready_of_files hd e] at hready
        rw [ready_of_files (c := d) hd' e]
        simpa only [System.setLink, Function.update_of_ne (hother fd d hd').2.1] using hready
  · trivial

/-- The server goes on, or is gone. -/
theorem inv_served (h : Inv sfd x) (hs : Served sfd x a y) :
    y.server.point = .exited ∨ Inv sfd y := by
  have hnd := h.nodup
  have hb := h.batch
  have hpt := h.point
  cases hs with
  | exit _ => exact .inl rfl
  | wait hp hw hready =>
    obtain ⟨rfl, hnd, hreg⟩ := h.wait_eq hw
    exact .inr (h.goto (by rw [hp]; rfl) hnd (fun fd hm => ⟨hreg fd hm, hready fd hm⟩) trivial)
  | batchEnd hp =>
    exact .inr (h.goto (by rw [hp]; rfl) .nil (fun fd hm => by cases hm) trivial)
  | @listening evs log hp =>
    rw [hp] at hnd hb
    refine .inr (h.goto (by rw [hp]; rfl) hnd (fun fd hm => hb fd (List.mem_cons_of_mem _ hm)) ?_)
    exact ready_sfd.mp (hb sfd List.mem_cons_self).2
  | @data fd evs log hp hne =>
    rw [hp] at hnd hb
    refine .inr (h.goto (by rw [hp]; rfl) hnd (fun fd hm => hb fd (List.mem_cons_of_mem _ hm)) ?_)
    obtain ⟨hr, hready⟩ := hb fd List.mem_cons_self
    obtain ⟨c, hc⟩ := Option.isSome_iff_exists.mp ((h.reg_isSome.mp hr).resolve_left hne).1
    exact ⟨c, hc, (ready_of_files hc hne).symm.trans hready⟩
  | accept hp hfree hlt => exact .inr (h.accept hp hfree hlt)
  | add hp hk => exact .inr (h.add hp hk)
  | recvData hp hc h0 hle _ =>
    rw [hp] at hnd
    refine .inr (h.move hc rfl rfl (by rw [hp]; rfl) hnd (by rw [hp]; rfl) ?_ ?_)
    · rw [hp]
      exact (List.nodup_cons.mp hnd).1
    · refine ⟨Option.isSome_iff_exists.mpr ⟨_, hc⟩, ?_⟩
      rw [length_fill hle]
      decide
  | recvStop hp hc hshut =>
    rw [hp] at hnd hb
    exact .inr (h.goto (by rw [hp]; rfl) hnd hb ⟨_, hc, hshut⟩)
  | send hp hc hm hle =>
    rw [hp] at hnd
    refine .inr (h.move hc rfl rfl (by rw [hp]; rfl) (List.nodup_cons.mp hnd).2 (by rw [hp]; rfl)
      ?_ trivial)
    rw [hp]
    exact (List.nodup_cons.mp hnd).1
  | del hp hk => exact .inr (h.del hp hk)
  | close hp hc => exact .inr (h.close hp hc)

/-- The clients only make things readable. -/
theorem Inv.clients (h : Inv sfd x) (hs : y.server = x.server) (ht : y.table = x.table)
    (hc : x.connected ≤ y.connected) (hp : ∀ c, x.table.made ≤ c → (y.links c).stage = .pending)
    (hl : ∀ c < x.table.made, (y.links c).stage = (x.links c).stage ∧
      ((x.links c).readable = true → (y.links c).readable = true) ∧
      ((x.links c).shut = true → (y.links c).shut = true)) : Inv sfd y where
  wf := ht ▸ h.wf
  made_le := ht ▸ h.made_le.trans hc
  pending := ht ▸ hp
  accepted fd c hfd := by
    rw [ht] at hfd
    rw [(hl c (h.lt_made hfd)).1]
    exact h.accepted fd c hfd
  dropped c hlt := by
    rw [ht] at hlt ⊢
    exact (h.dropped c hlt).imp_right (hl c hlt).2.2
  listening := ht ▸ h.listening
  isOpen := by
    rw [hs, ht]
    exact h.isOpen
  free := hs ▸ h.free
  reg := by
    rw [hs, ht]
    exact h.reg
  nodup := hs ▸ h.nodup
  batch fd hfd := by
    rw [hs] at hfd ⊢
    obtain ⟨hr, hready⟩ := h.batch fd hfd
    refine ⟨hr, ?_⟩
    by_cases e : fd = sfd
    · subst e
      rw [ready_sfd, ht]
      exact (ready_sfd.mp hready).trans_le hc
    · obtain ⟨c, hfc⟩ := Option.isSome_iff_exists.mp ((h.reg_isSome.mp hr).resolve_left e).1
      rw [ready_of_files (c := c) (by rw [ht]; exact hfc) e]
      rw [ready_of_files hfc e] at hready
      exact (hl c (h.lt_made hfc)).2.1 hready
  point := by
    have hpt := h.point
    unfold AtPoint at hpt ⊢
    rw [hs, ht]
    split
    · rename_i hpx
      simp only [hpx] at hpt
      exact hpt.trans_le hc
    · rename_i hpx
      simpa only [hpx] using hpt
    · rename_i hpx
      simp only [hpx] at hpt
      obtain ⟨c, hfc, hr⟩ := hpt
      exact ⟨c, hfc, (hl c (h.lt_made hfc)).2.1 hr⟩
    · rename_i hpx
      simpa only [hpx] using hpt
    · rename_i hpx
      simp only [hpx] at hpt
      obtain ⟨c, hfc, hr⟩ := hpt
      exact ⟨c, hfc, (hl c (h.lt_made hfc)).2.2 hr⟩
    · rename_i hpx
      simp only [hpx] at hpt
      obtain ⟨c, hfc, hr⟩ := hpt
      exact ⟨c, hfc, (hl c (h.lt_made hfc)).2.2 hr⟩
    all_goals trivial

theorem inv_exitClients (h : Inv sfd x) : Inv sfd x.exitClients :=
  h.clients rfl rfl le_rfl (fun c hc => h.pending c hc) fun c _ =>
    ⟨rfl, fun _ => by simp [System.exitClients, Link.readable], fun _ => rfl⟩

/-- One link changes, and stays or becomes readable. -/
theorem Inv.setLink (h : Inv sfd x) {l : Link} {ts : List Thread}
    (hs : l.stage = (x.links c).stage)
    (hr : (x.links c).readable = true → l.readable = true)
    (hsh : (x.links c).shut = true → l.shut = true) :
    Inv sfd { x.setLink c l with threads := ts } := by
  refine h.clients rfl rfl le_rfl (fun d hd => ?_) fun d _ => ?_
  · simp only [System.setLink, Function.update_apply]
    split
    · rename_i e
      subst e
      rw [hs]
      exact h.pending d hd
    · exact h.pending d hd
  · simp only [System.setLink, Function.update_apply]
    split
    · rename_i e
      subst e
      exact ⟨hs, hr, hsh⟩
    · exact ⟨rfl, id, id⟩

theorem inv_moved (h : Inv sfd x) {tid : List UInt8} {i : ℕ} {b : ClientAct}
    (hm : Moved tid x i b y) : Inv sfd y := by
  cases hm with
  | connect _ =>
    refine h.clients rfl rfl (Nat.le_succ _) (fun c hc => ?_) fun c hc => ?_
    · simp only [System.setThread, System.setLink, Function.update_apply]
      split
      · rfl
      · exact h.pending c hc
    · have hne : c ≠ x.connected := Nat.ne_of_lt (hc.trans_le h.made_le)
      simp only [System.setThread, System.setLink, Function.update_of_ne hne]
      exact ⟨trivial, id, id⟩
  | send _ _ _ =>
    refine h.setLink rfl (fun hr => ?_) id
    simp only [Link.readable, Link.ask, Bool.or_eq_true, Bool.not_eq_true',
      List.isEmpty_eq_false_iff] at hr ⊢
    exact hr.imp_left fun hne => List.append_ne_nil_of_left_ne_nil hne _
  | recv _ _ => exact h.setLink rfl id id
  | recvEof _ => exact h.clients rfl rfl le_rfl h.pending fun c _ => ⟨rfl, id, id⟩
  | close _ => exact h.setLink rfl (fun _ => by simp [Link.readable]) fun _ => rfl
  | fail => exact inv_exitClients h

end Server

end PracticeCode.Server1
