import PracticeCode.Server1.Streams
import PracticeCode.Server2.Refinement

/-!
# The clients of `2.single_reactor_single_worker/server.cpp`

Its `client.cpp` is that of the first server.  What the calls of a server return depends on the
numbers that they are made with, and these are the numbers of server 1 (`seen`); `malloc` and `free`
are steps of their own, which no client sees.  As there, a `send` never waits for room.

* `clients_cannot_tell`: the clients have the same conversations with both servers;
* `reactor_answers`: while the clients wait, server 2 stops after a bounded number of steps, in
  `epoll_wait`, and then every thread that waits has an answer to read.
-/

namespace PracticeCode.Server2

open Lib Linux

/-- Server 2, the client, and the connections between them. -/
structure System where
  server : State
  table : Table
  links : Conn → Server1.Link
  connected : ℕ
  threads : List Server1.Thread

/-- Both programs have started; `n` threads are there. -/
def boot (efd sfd : Fd) (rev : Addr) (n : ℕ) : System :=
  ⟨init efd sfd rev, .empty, fun _ => .fresh, 0, List.replicate n .connect⟩

/-- The same with server 1 at the same call. -/
def System.seen (x : System) : Server1.System :=
  ⟨abs x.server, x.table, x.links, x.connected, x.threads⟩

/-- `s` in the place of the server of `z`. -/
def place (s : State) (z : Server1.System) : System := ⟨s, z.table, z.links, z.connected, z.threads⟩

inductive SystemAct where
  | server (a : Act)
  | client (i : ℕ) (a : Server1.ClientAct)
  /-- `main` of the client returns. -/
  | exit
  deriving DecidableEq

def system (sfd : Fd) (tid : ℕ → List UInt8) (x : System) : SystemAct → Option System
  | .server (.common a) => (step x.server (.common a)).bind fun s =>
    (Server1.transport sfd x.seen a).map (place s)
  -- `malloc` and `free`
  | .server a => (step x.server a).map fun s => { x with server := s }
  | .client i a => (Server1.connect_and_send (tid i) x.seen i a).map (place x.server)
  | .exit => some (place x.server x.seen.exitClients)

/-- The action in the system with server 1. -/
def eraseAct : SystemAct → Option Server1.SystemAct
  | .server a => (erase a).map .server
  | .client i a => some (.client i a)
  | .exit => some .exit

/-- No call fails for a reason of its own. -/
def Act.ok : Act → Bool
  | .common a => a.ok
  | .bind _ | .unbind => true

def serverOnly : System → SystemAct → Prop
  | _, .server a => a.ok = true
  | _, _ => False

/-- 1 where the next step only allocates or frees. -/
def Point.lag : Point → ℕ
  | .bind _ _ | .unbind _ _ _ => 1
  | _ => 0

section Step

variable {sfd : Fd} {tid : ℕ → List UInt8} {x y : System} {s : State} {a : SystemAct}

@[simp] theorem seen_place (s : State) (z : Server1.System) :
    (place s z).seen = { z with server := abs s } := rfl

theorem seen_boot (efd sfd : Fd) (rev : Addr) (n : ℕ) :
    (boot efd sfd rev n).seen = Server1.boot efd sfd n := by
  unfold boot System.seen Server1.boot
  rw [abs_init]

theorem lag_le (p : Point) : p.lag ≤ 1 := by
  cases p <;> simp [Point.lag]

/-- The server is part of the state, and the steps of the others leave it alone. -/
theorem connect_and_send_server {tid : List UInt8} {x y : Server1.System} {i : ℕ}
    {a : Server1.ClientAct} (h : Server1.connect_and_send tid x i a = some y) :
    y.server = x.server := by
  cases Server1.moved_of_client h <;> rfl

theorem system_common {a : Server1.Act} : system sfd tid x (.server (.common a)) = some y ↔
    ∃ s z, step x.server (.common a) = some s ∧ Server1.transport sfd x.seen a = some z ∧
      y = place s z := by
  simp only [system, Option.bind_eq_some_iff, Option.map_eq_some_iff]
  constructor
  · rintro ⟨s, hs, z, hz, rfl⟩
    exact ⟨s, z, hs, hz, rfl⟩
  · rintro ⟨s, z, hs, hz, rfl⟩
    exact ⟨s, hs, z, hz, rfl⟩

/-- A step of server 2 in the system. -/
theorem step_of_system {a : Act} (h : system sfd tid x (.server a) = some y) :
    step x.server a = some y.server := by
  cases a with
  | common a =>
    obtain ⟨s, z, hs, -, rfl⟩ := system_common.mp h
    exact hs
  | bind _ | unbind =>
    obtain ⟨s, hs, rfl⟩ := Option.map_eq_some_iff.mp h
    exact hs

theorem inv_system (h : Inv sfd x.server) (hs : system sfd tid x a = some y) :
    Inv sfd y.server := by
  cases a with
  | server a => exact inv_step h (step_of_system hs)
  | client i a =>
    obtain ⟨z, -, rfl⟩ := Option.map_eq_some_iff.mp hs
    exact h
  | exit =>
    obtain rfl := Option.some.inj hs
    exact h

/-- **What the clients see**: every step is one of the system with server 1, or none. -/
theorem system_seen (h : Inv sfd x.server) (hs : system sfd tid x a = some y) :
    Follows (Server1.system sfd tid) x.seen (eraseAct a) y.seen := by
  cases a with
  | server a =>
    cases a with
    | common a =>
      obtain ⟨s, z, hstep, hz, rfl⟩ := system_common.mp hs
      exact Server1.system_server_eq_some.mpr ⟨abs s, z, step_abs h hstep, hz, rfl⟩
    | bind _ | unbind =>
      obtain ⟨s, hstep, rfl⟩ := Option.map_eq_some_iff.mp hs
      have habs : abs s = abs x.server := step_abs h hstep
      simp only [eraseAct, erase, Option.map_none, Follows, System.seen, habs]
  | client i a =>
    obtain ⟨z, hz, rfl⟩ := Option.map_eq_some_iff.mp hs
    have hserver : z.server = abs x.server := connect_and_send_server hz
    simpa only [eraseAct, Follows, Server1.system, seen_place, ← hserver] using hz
  | exit =>
    obtain rfl := Option.some.inj hs
    rfl

/-- What only allocates or frees lowers `lag`. -/
theorem lag_lt (hs : system sfd tid x a = some y) (he : eraseAct a = none) :
    y.server.point.lag < x.server.point.lag := by
  cases a with
  | server a =>
    cases a with
    | common a => cases he
    | bind _ | unbind =>
      obtain ⟨s, hstep, rfl⟩ := Option.map_eq_some_iff.mp hs
      cases outcome_of_step hstep <;> simp_all [Point.lag]
  | client i a => cases he
  | exit => cases he

/-- What server 2 does by itself, server 1 does by itself. -/
theorem eraseAct_serverOnly (ha : serverOnly x a) {b : Server1.SystemAct}
    (he : eraseAct a = some b) : ∃ c, b = .server c ∧ c.ok = true := by
  cases a with
  | server a =>
    cases a with
    | common a => exact ⟨a, (Option.some.inj he).symm, ha⟩
    | bind _ | unbind => cases he
  | client i a => cases ha
  | exit => cases ha

end Step

/-! ## Both directions -/

section Lift

variable {sfd : Fd} {tid : ℕ → List UInt8} {x y : System} {s : State}

/-- `malloc` and `free` are possible at any time. -/
theorem run_quiet {as : List Act} (h : Run step free x.server as s)
    (he : as.filterMap erase = []) :
    Run (system sfd tid) free x (as.map .server) { x with server := s } := by
  induction h with
  | nil => exact .nil
  | @snoc as s s' a _ _ hs ih =>
    rw [List.filterMap_append, List.append_eq_nil_iff] at he
    rw [List.map_append]
    refine (ih he.1).snoc trivial ?_
    cases a with
    | common a => simp [erase] at he
    | bind _ | unbind =>
      simp only [system, hs]
      rfl

theorem filterMap_eraseAct (as : List Act) :
    (as.map SystemAct.server).filterMap eraseAct = (as.filterMap erase).map .server := by
  rw [List.filterMap_map, List.map_filterMap]
  rfl

/-- Server 2 gets to where server 1 is. -/
theorem exists_system_settled (tid : ℕ → List UInt8) (h : Inv sfd x.server) :
    ∃ as y, Run (system sfd tid) free x as y ∧ as.filterMap eraseAct = [] ∧
      y.server.point.Settled ∧ y.seen = x.seen := by
  obtain ⟨as, s, hr, he, hset⟩ := exists_settled h
  have hrun : Run (system sfd tid) free x _ { x with server := s } := run_quiet hr he
  have hnone : (as.map SystemAct.server).filterMap eraseAct = [] := by
    rw [filterMap_eraseAct, he]
    rfl
  refine ⟨_, _, hrun, hnone, hset, ?_⟩
  have hseen : Run (Server1.system sfd tid) free x.seen _ { x with server := s }.seen :=
    hrun.refine (I := fun x => Inv sfd x.server) System.seen eraseAct h
      (fun _ _ _ hi _ hs => inv_system hi hs) fun _ _ _ hi _ hs => system_seen hi hs
  rw [hnone] at hseen
  exact hseen.eq_of_nil

/-- A settled server 2 can do what server 1 can. -/
theorem system_of_settled (h : Inv sfd x.server) (hset : x.server.point.Settled)
    {b : Server1.SystemAct} {z : Server1.System} (hs : Server1.system sfd tid x.seen b = some z) :
    ∃ a y, system sfd tid x a = some y ∧ eraseAct a = some b ∧ y.seen = z := by
  obtain ⟨a, y, hy, he⟩ : ∃ a y, system sfd tid x a = some y ∧ eraseAct a = some b := by
    cases b with
    | server b =>
      obtain ⟨t, w, ht, hw, -⟩ := Server1.system_server_eq_some.mp hs
      obtain ⟨s, hstep⟩ := Option.isSome_iff_exists.mp
        ((step_enabled h hset b).trans (Option.isSome_iff_exists.mpr ⟨t, ht⟩))
      exact ⟨.server (.common b), _, system_common.mpr ⟨s, w, hstep, hw, rfl⟩, rfl⟩
    | client i b => exact ⟨.client i b, _, Option.map_eq_some_iff.mpr ⟨z, hs, rfl⟩, rfl⟩
    | exit => exact ⟨.exit, _, rfl, rfl⟩
  have hf := system_seen h hy
  rw [he] at hf
  exact ⟨a, y, hy, he, Option.some.inj (Eq.trans (Eq.symm hf) hs)⟩

theorem lift_system (h : Inv sfd x.server) {b : Server1.SystemAct} {z : Server1.System}
    (hs : Server1.system sfd tid x.seen b = some z) :
    ∃ as y, Run (system sfd tid) free x as y ∧ as.filterMap eraseAct = [b] ∧ y.seen = z := by
  obtain ⟨as, w, hr, he, hset, hseen⟩ := exists_system_settled tid h
  have hw : Inv sfd w.server := hr.invariant (I := fun x => Inv sfd x.server) h
    fun _ _ _ hi _ hs => inv_system hi hs
  rw [← hseen] at hs
  obtain ⟨a, y, hy, ha, hz⟩ := system_of_settled hw hset hs
  refine ⟨as ++ [a], y, hr.snoc trivial hy, ?_, hz⟩
  rw [List.filterMap_append, he, List.nil_append, List.filterMap_cons, ha, List.filterMap_nil]

/-- When server 1 can go on by itself, so can server 2. -/
theorem system_enabled (h : Inv sfd x.server) {b : Server1.SystemAct} {z : Server1.System}
    (hb : Server1.serverOnly x.seen b) (hs : Server1.system sfd tid x.seen b = some z) :
    ∃ a, serverOnly x a ∧ ∃ y, system sfd tid x a = some y := by
  obtain ⟨as, s, hr, he, hset⟩ := exists_settled h
  cases as with
  | nil =>
    rw [hr.eq_of_nil] at hset
    obtain ⟨a, y, hy, ha, -⟩ := system_of_settled h hset hs
    refine ⟨a, ?_, y, hy⟩
    cases a with
    | server a =>
      cases a with
      | common a =>
        obtain rfl : Server1.SystemAct.server a = b := Option.some.inj ha
        exact hb
      | bind _ | unbind => rfl
    | client i a =>
      obtain rfl : Server1.SystemAct.client i a = b := Option.some.inj ha
      exact hb
    | exit =>
      obtain rfl : Server1.SystemAct.exit = b := Option.some.inj ha
      exact hb
  | cons a as =>
    obtain ⟨s₁, -, hs₁, -⟩ := hr.of_cons
    cases a with
    | common a => simp [erase] at he
    | bind rev => exact ⟨.server (.bind rev), rfl, _, Option.map_eq_some_iff.mpr ⟨s₁, hs₁, rfl⟩⟩
    | unbind => exact ⟨.server .unbind, rfl, _, Option.map_eq_some_iff.mpr ⟨s₁, hs₁, rfl⟩⟩

/-- When server 1 cannot go on, neither can server 2. -/
theorem stuck_of_seen (h : Inv sfd x.server) (hp : x.server.point = .wait)
    (hq : ∀ b, Server1.serverOnly x.seen b → Server1.system sfd tid x.seen b = none)
    (a : SystemAct) (ha : serverOnly x a) : system sfd tid x a = none := by
  rw [Option.eq_none_iff_forall_ne_some]
  intro y hs
  cases he : eraseAct a with
  | none =>
    have hlt := lag_lt hs he
    rw [hp] at hlt
    exact Nat.not_lt_zero _ hlt
  | some b =>
    have hf := system_seen h hs
    obtain ⟨c, rfl, hc⟩ := eraseAct_serverOnly ha he
    rw [he] at hf
    exact Option.some_ne_none _ (Eq.trans (Eq.symm hf) (hq _ hc))

end Lift

/-! ## Whole runs -/

section Runs

variable {efd sfd : Fd} {rev : Addr} {n : ℕ} {tid : ℕ → List UInt8} {x y : System}
  {as bs : List SystemAct}

theorem server_inv_of_run (h : Run (system sfd tid) free (boot efd sfd rev n) as x) :
    Inv sfd x.server :=
  h.invariant (I := fun x => Inv sfd x.server) (init_inv efd sfd rev)
    fun _ _ _ hi _ hs => inv_system hi hs

theorem seen_of_run (h : Run (system sfd tid) free (boot efd sfd rev n) as x) :
    Run (Server1.system sfd tid) free (Server1.boot efd sfd n) (as.filterMap eraseAct) x.seen := by
  rw [← seen_boot efd sfd rev n]
  exact h.refine (I := fun x => Inv sfd x.server) System.seen eraseAct (init_inv efd sfd rev)
    (fun _ _ _ hi _ hs => inv_system hi hs) fun _ _ _ hi _ hs => system_seen hi hs

/-- The clients, and all that is on the connections; and both servers are there or neither. -/
structure Alike (x : System) (z : Server1.System) : Prop where
  table : x.table = z.table
  links : x.links = z.links
  connected : x.connected = z.connected
  threads : x.threads = z.threads
  log : x.server.log = z.server.log
  exited : x.server.point = .exited ↔ z.server.point = .exited

theorem alike_seen (h : Inv sfd x.server) : Alike x x.seen :=
  ⟨rfl, rfl, rfl, rfl, h.agree.log, h.agree.exited⟩

/-- **The clients cannot tell the servers apart.**  Every run with server 2 is, without what only
allocates or frees, a run with server 1, in which the clients do the same and get the same; and
every run with server 1 comes from one with server 2. -/
theorem clients_cannot_tell (efd sfd : Fd) (rev : Addr) (n : ℕ) (tid : ℕ → List UInt8) :
    (∀ as x, Run (system sfd tid) free (boot efd sfd rev n) as x →
      ∃ z, Run (Server1.system sfd tid) free (Server1.boot efd sfd n) (as.filterMap eraseAct) z ∧
        Alike x z) ∧
    ∀ bs z, Run (Server1.system sfd tid) free (Server1.boot efd sfd n) bs z →
      ∃ as x, Run (system sfd tid) free (boot efd sfd rev n) as x ∧ as.filterMap eraseAct = bs ∧
        Alike x z := by
  refine ⟨fun as x h => ⟨_, seen_of_run h, alike_seen (server_inv_of_run h)⟩, fun bs z h => ?_⟩
  rw [← seen_boot efd sfd rev n] at h
  obtain ⟨as, x, hr, he, rfl⟩ := Run.lift (I := fun x => Inv sfd x.server) System.seen eraseAct
    (init_inv efd sfd rev) (fun _ _ _ hi _ hs => inv_system hi hs)
    (fun _ _ _ hi hs => lift_system hi hs) h
  exact ⟨as, x, hr, he, alike_seen (server_inv_of_run hr)⟩

/-- What the runs of server 2 by itself keep. -/
structure Serving (sfd : Fd) (x : System) : Prop where
  server : Inv sfd x.server
  seen : Server1.Inv sfd x.seen
  asking : Server1.Asking x.seen
  running : x.seen.server.point ≠ .exited

theorem serving_step {a : SystemAct} (h : Serving sfd x) (ha : serverOnly x a)
    (hs : system sfd tid x a = some y) :
    Serving sfd y ∧ ((eraseAct a).isSome → y.seen.work < x.seen.work) := by
  have hf := system_seen h.server hs
  have hinv := inv_system h.server hs
  cases he : eraseAct a with
  | none =>
    rw [he] at hf
    have hseen : y.seen = x.seen := hf
    refine ⟨⟨hinv, ?_, ?_, ?_⟩, fun hsome => by cases hsome⟩
    · exact hseen ▸ h.seen
    · exact hseen ▸ h.asking
    · exact hseen ▸ h.running
  | some b =>
    rw [he] at hf
    obtain ⟨c, rfl, hc⟩ := eraseAct_serverOnly ha he
    have hserved := Server1.served_of_system hf
    have hy := Server1.ne_exited_served hc hserved
    refine ⟨⟨hinv, ?_, ?_, hy⟩, fun _ => Server1.work_served h.seen hc hserved⟩
    · exact (Server1.inv_served h.seen hserved).resolve_left hy
    · exact (Server1.asking_served h.asking hserved).resolve_left hy

/-- **Server 2 answers** where no `send` waits for room.  While the clients wait, it makes at most
twice the steps that server 1 would, and one more, and stops in `epoll_wait`; then every thread that
waits has an answer to read. -/
theorem reactor_answers (h : Run (system sfd tid) free (boot efd sfd rev n) as x)
    (hx : x.server.point ≠ .exited) (hr : Run (system sfd tid) serverOnly x bs y) :
    bs.length ≤ 2 * x.seen.work + 1 ∧
      ((∀ b, serverOnly y b → system sfd tid y b = none) →
        y.server.point = .wait ∧
          ∀ (i : ℕ) (c : Conn), y.threads[i]? = some (.recv c) → (y.links c).reply ≠ []) := by
  have hinv := server_inv_of_run h
  have hrunning : x.seen.server.point ≠ .exited := fun e => hx (hinv.agree.exited.mpr e)
  obtain ⟨hI, hA⟩ := Server1.inv_of_run (seen_of_run h) hrunning
  have hserving : Serving sfd x := ⟨hinv, hI, hA, hrunning⟩
  refine ⟨?_, fun hstuck => ?_⟩
  · have hlen := hr.length_le_of_refine System.seen eraseAct hserving (fun x => lag_le _)
      (fun _ _ _ hi ha hs => (serving_step hi ha hs).1)
      (fun _ _ _ hi ha hs => (serving_step hi ha hs).2) fun _ _ _ hi ha hs he => by
        have hf := system_seen hi.server hs
        rw [he] at hf
        exact ⟨hf, lag_lt hs he⟩
    exact hlen.trans (Nat.add_le_add_left (lag_le _) _)
  · have hy : Serving sfd y := hr.invariant hserving fun _ _ _ hi ha hs => (serving_step hi ha hs).1
    rcases Server1.progress tid hy.seen hy.running with ⟨b, hb, z, hz⟩ | ⟨hp, hq⟩
    · obtain ⟨a, ha, w, hw⟩ := system_enabled hy.server hb hz
      rw [hstuck a ha] at hw
      cases hw
    · refine ⟨?_, fun i c hi => Server1.reply_of_quiet hy.seen hy.asking hp hq hi⟩
      have hpt : y.server.point.abs y.server.heap = .wait := hp
      cases hpy : y.server.point <;> simp_all [Point.abs]

/-- A thread connects and sends; server 2 accepts, reads and answers. -/
def oneThread : List SystemAct := [.client 0 .connect, .client 0 (.send 10)]

def oneAnswer : List SystemAct := [.server (.common (.epollWait [4])), .server (.common .dispatch),
  .server (.common (.accept (some 5))), .server (.bind 101), .server (.common (.ctlAdd true)),
  .server (.common .dispatch), .server (.common (.epollWait [5])), .server (.common .dispatch),
  .server (.common (.recv (.data (Server1.message [55])))),
  .server (.common (.send (some 1024))), .server (.common .dispatch)]

theorem oneAnswer_serverOnly : ∀ b ∈ oneAnswer, ∀ x, serverOnly x b := by
  intro b hb x
  simp only [oneAnswer, List.mem_cons, List.not_mem_nil, or_false] at hb
  rcases hb with rfl | rfl | rfl | rfl | rfl | rfl | rfl | rfl | rfl | rfl | rfl <;> rfl

set_option maxRecDepth 8000 in
theorem clients_cannot_tell_one : ∃ x z, Run (system 4 fun _ => [55]) free (boot 3 4 100 1)
      (oneThread ++ oneAnswer) x ∧
    Run (Server1.system 4 fun _ => [55]) free (Server1.boot 3 4 1)
      ((oneThread ++ oneAnswer).filterMap eraseAct) z ∧
    Alike x z ∧ (z.links 0).reply = fill (Server1.message [55]) := by
  obtain ⟨x, h, hreply⟩ : ∃ x, Run (system 4 fun _ => [55]) free (boot 3 4 100 1)
      (oneThread ++ oneAnswer) x ∧ (x.links 0).reply = fill (Server1.message [55]) :=
    Run.exists_of_exec _ _ (by decide)
  obtain ⟨z, hz, hsame⟩ := (clients_cannot_tell 3 4 100 1 fun _ => [55]).1 _ x h
  exact ⟨x, z, h, hz, hsame, hsame.links ▸ hreply⟩

set_option maxRecDepth 8000 in
theorem reactor_answers_one : ∃ x y,
    Run (system 4 fun _ => [55]) free (boot 3 4 100 1) oneThread x ∧
    Run (system 4 fun _ => [55]) serverOnly x oneAnswer y ∧ 11 ≤ 2 * x.seen.work + 1 ∧
      y.threads[0]? = some (.recv 0) ∧ (y.links 0).reply ≠ [] := by
  obtain ⟨x, h, hx, hrest⟩ : ∃ x, Run (system 4 fun _ => [55]) free (boot 3 4 100 1) oneThread x ∧
      x.server.point ≠ .exited ∧ ((exec (system 4 fun _ => [55]) free x oneAnswer).any fun y =>
        decide (y.server.point = .wait ∧ y.table.made = 1 ∧ y.connected = 1 ∧
          (y.links 0).readable = false ∧ y.threads[0]? = some (Server1.Thread.recv 0))) = true :=
    Run.exists_of_exec _ _ (by decide)
  obtain ⟨y, hr, hp, hmade, hconn, hread, hi⟩ := Run.exists_of_exec _ _ hrest
  have hinv := server_inv_of_run (h.append hr)
  have hpt : y.seen.server.point = .wait := by
    simp [System.seen, abs, hp, Point.abs]
  have hseen := (Server1.inv_of_run (seen_of_run (h.append hr)) (by simp [hpt])).1
  obtain ⟨hlen, hend⟩ := reactor_answers h hx (hr.of_forall_mem oneAnswer_serverOnly)
  refine ⟨x, y, h, hr.of_forall_mem oneAnswer_serverOnly, hlen, hi, ?_⟩
  refine (hend (stuck_of_seen hinv hp (Server1.stuck_of_quiet hpt fun fd hreg => ?_))).2 0 0 hi
  rcases hseen.reg_isSome.mp hreg with rfl | ⟨hs, -⟩
  · exact decide_eq_false (by rw [System.seen, hmade, hconn]; exact lt_irrefl 1)
  · obtain ⟨c, hc⟩ := Option.isSome_iff_exists.mp hs
    have hc0 : c < 1 := hmade ▸ hseen.lt_made hc
    obtain rfl : c = 0 := Nat.lt_one_iff.mp hc0
    rw [Server1.ready_of_files hc (hseen.ne_sfd hc)]
    exact hread

end Runs

end PracticeCode.Server2
