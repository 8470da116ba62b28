import PracticeCode.Server31.Frame

/-!
# The connections of server 3.1 stay apart

* `Tagged`: the two queues of a connection hold messages received from it, in every run;
* `Isolated`: a message is sent only to the client it was received from, and a notification is
  counted only on the eventfd of the connection it was written for;
* `isolated`: this holds in every run in which the number of an eventfd is not given out again while
  a task or a response event still has it (`keepsNumbers`);
* `reuseRun`: a client closes while one of its messages is still processed, the next client gets
  both numbers, and is sent a message of the first one.
-/

namespace PracticeCode.Server31

open Lib Linux

/-! ## The queues -/

/-- The message between the `shift` from `rsp_queue` and the `send`. -/
def Reactor.sending : Reactor → Option (RevPtr × Msg)
  | .rsp rev _ _ (.send msg) _ => some (rev, msg)
  | _ => none

structure Tagged (s : State) : Prop where
  req : ∀ {c m}, m ∈ s.req_queue c → m.src = c
  rsp : ∀ {c m}, m ∈ s.rsp_queue c → m.src = c
  held : ∀ {c m}, .run (.data c) (.hold m) ∈ s.workers → m.src = c
  pushing : ∀ {c m}, s.reactor.pushing = some (.data c, m) → m.src = c
  sending : ∀ {c m}, s.reactor.sending = some (.rsp c, m) → m.src = c

theorem init_tagged (n : ℕ) : Tagged (init n) := by
  refine ⟨nofun, nofun, fun h => ?_, nofun, nofun⟩
  cases (List.mem_replicate.mp h).2

section

variable {s s' : State} {a : Act}

theorem Tagged.held_set (h : Tagged s) {w : ℕ} {y : Worker}
    (hy : ∀ c m, y = .run (.data c) (.hold m) → m.src = c) {c : Conn} {m : Msg}
    (hm : .run (.data c) (.hold m) ∈ s.workers.set w y) : m.src = c := by
  rcases List.mem_or_eq_of_mem_set hm with hm | rfl
  · exact h.held hm
  · exact hy _ _ rfl

theorem mem_update_queue {f : Conn → List Msg} {q c : Conn} {l : List Msg} {m : Msg}
    (hf : ∀ {c m}, m ∈ f c → m.src = c) (hl : ∀ m ∈ l, m.src = q)
    (hm : m ∈ Function.update f q l c) : m.src = c := by
  rw [Function.update_apply] at hm
  split at hm
  · rename_i e
    rw [e]
    exact hl m hm
  · exact hf hm

/-- **The messages of a connection stay in its queues.** -/
theorem tagged_step (hi : Inv s) (h : Tagged s) (hs : step s a = some s') : Tagged s' := by
  cases outcome_of_step hs with
  | connect | clientSend | clientClose => exact ⟨h.req, h.rsp, h.held, h.pushing, h.sending⟩
  | epollWait | batchEnd | skip | connection | dataEvent | rspEvent =>
    exact ⟨h.req, h.rsp, h.held, nofun, nofun⟩
  | accept | acceptAgain | eventfd | addClient | addRsp =>
    exact ⟨h.req, h.rsp, h.held, nofun, nofun⟩
  | recvData hr hk =>
    obtain ⟨c, r, rfl, -, rfl, -, hserv⟩ := hi.atData hr
    refine ⟨h.req, h.rsp, h.held, ?_, nofun⟩
    rintro c' m ⟨⟩
    have hf := (Kernel.recv_eq_data hk).1
    rw [Serving.sock hserv] at hf
    exact (File.sock.inj (Option.some.inj hf)).symm
  | recvEof | recvAgain | addQueue | delClient | delRsp | closeClient | closeRsp | unbind =>
    exact ⟨h.req, h.rsp, h.held, nofun, nofun⟩
  | pushReq hr hh hq =>
    obtain rfl := hi.req_handler hr hh hq
    refine ⟨fun hm => mem_update_queue h.req (fun m hm => ?_) hm, h.rsp, h.held, nofun, nofun⟩
    rcases List.mem_append.mp hm with hm | hm
    · exact h.req hm
    · rw [List.mem_singleton.mp hm]
      exact h.pushing (by rw [hr]; rfl)
  | readOk | readStop | rspEmpty | send => exact ⟨h.req, h.rsp, h.held, nofun, nofun⟩
  | shiftRsp hr hh hq hm =>
    obtain rfl := hi.rsp_handler hr hh hq
    refine ⟨h.req, fun hm' => mem_update_queue h.rsp (fun m hm' => ?_) hm', h.held, nofun, ?_⟩
    · exact h.rsp (by rw [hm]; exact List.mem_cons_of_mem _ hm')
    · rintro c' m ⟨⟩
      exact h.rsp (by rw [hm]; exact List.mem_cons_self ..)
  | exit => exact ⟨h.req, h.rsp, nofun, nofun, nofun⟩
  | pop => exact ⟨h.req, h.rsp, h.held_set (by nofun), h.pushing, h.sending⟩
  | shiftReq hw hh hq hm =>
    obtain rfl := hi.req_worker hw hh hq
    refine ⟨fun hm' => mem_update_queue h.req (fun m hm' => ?_) hm', h.rsp, h.held_set ?_,
      h.pushing, h.sending⟩
    · exact h.req (by rw [hm]; exact List.mem_cons_of_mem _ hm')
    · rintro c' m ⟨⟩
      exact h.req (by rw [hm]; exact List.mem_cons_self ..)
  | reqEmpty => exact ⟨h.req, h.rsp, h.held_set (by nofun), h.pushing, h.sending⟩
  | pushRsp hw hh hq =>
    obtain rfl := hi.rsp_worker hw hh hq
    refine ⟨h.req, fun hm => mem_update_queue h.rsp (fun m hm => ?_) hm, h.held_set (by nofun),
      h.pushing, h.sending⟩
    rcases List.mem_append.mp hm with hm | hm
    · exact h.rsp hm
    · rw [List.mem_singleton.mp hm]
      exact h.held (List.mem_of_getElem? hw)
  | write => exact ⟨h.req, h.rsp, h.held_set (by nofun), h.pushing, h.sending⟩

/-! ## Isolation -/

/-- The call keeps the connections apart. -/
def Op.Isolated : Op → Prop
  | .send _ target msg _ => ∀ c, target = some (.sock c) → msg.src = c
  | .notify rev target => ∀ c, target = some (.event c) → rev = .data c
  | _ => True

/-- **No message reaches another client, no notification another eventfd.** -/
def Isolated (log : List Op) : Prop := ∀ o ∈ log, o.Isolated

/-- The object has `fd` as its `rsp_event_fd`. -/
def Notifies (s : State) (rev : RevPtr) (fd : Fd) : Prop :=
  (s.heap rev).map (·.rsp_event_fd) = some fd

instance (s : State) (rev : RevPtr) (fd : Fd) : Decidable (Notifies s rev fd) := by
  unfold Notifies; infer_instance

def RevPtr.isRsp : RevPtr → Bool
  | .rsp _ => true
  | _ => false

/-- `eventfd` returns no number that a task is going to notify, and `accept` none that a response
event of the batch is going to read. -/
def keepsNumbers (s : State) : Act → Prop
  | .eventfd fd => (∀ rev ∈ s.task_queue, ¬ Notifies s rev fd) ∧
      ∀ x ∈ s.workers, ∀ rev ∈ x.task, ¬ Notifies s rev fd
  | .accept fd => ∀ e ∈ s.reactor.batch, e.1.isRsp = true → e.2 = true → ¬ Notifies s e.1 fd
  | _ => True

instance (s : State) (a : Act) : Decidable (keepsNumbers s a) := by
  induction a using Act.casesOn <;> unfold keepsNumbers <;> infer_instance

/-- A connection whose handler has not run yet. -/
structure Untouched (s : State) (c : Conn) : Prop where
  counter : s.kernel.counter c = 0
  task : ¬ Pending s (.data c)
  batch : ∀ b, (.data c, b) ∉ s.reactor.batch
  reading : s.reactor.reading ≠ some (.data c)

/-- `rsp_handler` is going to read the eventfd of `c`. -/
def Expecting (s : State) (c : Conn) : Prop :=
  (.rsp c, true) ∈ s.reactor.batch ∨
    ∃ cfd evfd evs, s.reactor = .rsp (.rsp c) cfd evfd .read evs

structure Iso (s : State) : Prop where
  log : Isolated s.log
  /-- a task notifies its own eventfd or none -/
  task : ∀ {c c' r}, Pending s (.data c) → s.heap (.data c) = some r →
    s.kernel.files r.rsp_event_fd = some (.event c') → c' = c
  /-- a response event reads its own eventfd, or one with nothing to read -/
  expecting : ∀ {c r}, Expecting s c → s.heap (.rsp c) = some r →
    (∀ c', s.kernel.files r.rsp_event_fd ≠ some (.sock c')) ∧
      ∀ c', s.kernel.files r.rsp_event_fd = some (.event c') → c' = c ∨ Untouched s c'
  /-- a handler that has read a unit serves its connection -/
  answering : ∀ {c cfd evfd pt evs}, s.reactor = .rsp (.rsp c) cfd evfd pt evs → pt ≠ .read →
    ∃ r, Serving s c r

theorem init_iso (n : ℕ) : Iso (init n) := by
  refine ⟨nofun, ?_, ?_, nofun⟩
  · intro c c' r _ hh
    simp [init] at hh
  · intro c r _ hh
    simp [init] at hh

theorem Untouched.step (hi : Inv s) (h : Iso s) {c : Conn} (hu : Untouched s c)
    (hs : step s a = some s') (hr : s.reactor ≠ .wait) : Untouched s' c := by
  refine ⟨?_, fun hp => ?_, fun b hb => ?_, fun hre => ?_⟩
  · by_contra hne
    obtain ⟨w, rev, r, hw, hh, hf⟩ := counter_of_step hs
      (by rw [hu.counter]; exact Nat.pos_of_ne_zero hne)
    obtain ⟨c', r', rfl, -⟩ := hi.workers (List.mem_of_getElem? hw)
    have hp : Pending s (.data c') := .inr ⟨_, List.mem_of_getElem? hw, rfl⟩
    obtain rfl := h.task hp hh hf
    exact hu.task hp
  · rcases pending_of_step hs hp with hp | ⟨cfd, rspfd, evs, hr', -⟩
    · exact hu.task hp
    · exact hu.reading (by rw [hr']; rfl)
  · rcases batch_of_step hs hb with hb | ⟨fds, -, hw, -⟩
    · exact hu.batch b hb
    · exact hr hw
  · rcases reading_of_step hs hre with hre | ⟨b, hb⟩
    · exact hu.reading hre
    · exact hu.batch b hb

/-- Where a response event comes from. -/
theorem expecting_of_step (hi : Inv s) (h : Iso s) {c : Conn} (hs : step s a = some s')
    (he : Expecting s' c) :
    (Expecting s c ∧ s.reactor ≠ .wait) ∨ ∃ r, Serving s' c r := by
  rcases he with hb | ⟨cfd, evfd, evs, hr'⟩
  · rcases batch_of_step hs hb with hb' | ⟨fds, rfl, hw, fd, -, hreg, -⟩
    · refine .inl ⟨.inl hb', fun hw => ?_⟩
      rw [hw] at hb'
      cases hb'
    · obtain ⟨-, r, hserv, -⟩ := hi.regRsp hreg
      refine .inr ⟨r, hserv.step hi hs (fun e => ?_) (by rw [hw]; nofun)⟩
      rw [e] at hb
      cases hb
  · cases outcome_of_step hs with
    | rspEvent hr =>
      cases hr'
      exact .inl ⟨.inl (by rw [hr]; exact List.mem_cons_self ..), by rw [hr]; nofun⟩
    | send hr =>
      cases hr'
      obtain ⟨r, hserv⟩ := h.answering hr nofun
      exact .inr ⟨r, hserv.step hi hs nofun (by rw [hr]; nofun)⟩
    | connect | clientSend | clientClose | pop | shiftReq | reqEmpty | pushRsp | write =>
      have hr : s.reactor = _ := hr'
      exact .inl ⟨.inr ⟨_, _, _, hr⟩, by rw [hr]; nofun⟩
    | _ => cases hr'

theorem Expecting.bound (hi : Inv s) {c : Conn} (h : Expecting s c) : s.heap (.rsp c) ≠ none := by
  rcases h with h | ⟨cfd, evfd, evs, hr⟩
  · exact hi.batchRsp h
  · obtain ⟨c', r, e, hh, -⟩ := hi.atRsp hr
    cases e
    rw [hh]
    nofun

theorem isolated_step (hi : Inv s) (ht : Tagged s) (h : Iso s) (hs : step s a = some s') :
    Isolated s'.log := by
  have hrec : ∀ {o : Op}, o.Isolated → Isolated (s.log ++ [o]) := by
    intro o ho x hx
    rcases List.mem_append.mp hx with hx | hx
    · exact h.log x hx
    · rw [List.mem_singleton.mp hx]
      exact ho
  cases outcome_of_step hs with
  | recvData | pushReq | rspEmpty | reqEmpty => exact hrec trivial
  | send hr =>
    obtain ⟨c, r, rfl, hh, rfl, -⟩ := hi.atRsp hr
    obtain ⟨r', hserv⟩ := h.answering hr nofun
    refine hrec fun c' hf => ?_
    rw [(hserv.rsp_fd hi hh).1, hserv.sock] at hf
    cases hf
    exact ht.sending (by rw [hr]; rfl)
  | write hw hh =>
    obtain ⟨c, r, rfl, -⟩ := hi.workers (List.mem_of_getElem? hw)
    refine hrec fun c' hf => ?_
    rw [h.task (.inr ⟨_, List.mem_of_getElem? hw, rfl⟩) hh hf]
  | _ => exact h.log

theorem iso_task (hi : Inv s) (h : Iso s) (hg : keepsNumbers s a) (hs : step s a = some s')
    {c c' : Conn} {r : ReactorEvent} (hp : Pending s' (.data c)) (hh : s'.heap (.data c) = some r)
    (hf : s'.kernel.files r.rsp_event_fd = some (.event c')) : c' = c := by
  rcases pending_of_step hs hp with hp | ⟨cfd, rspfd, evs, hr, -⟩
  · obtain ⟨c₀, r₀, e, hr₀⟩ := hp.isTask hi
    have := heap_of_step hi hs hr₀
    rw [hh] at this
    cases this
    rcases opened_of_step hs hf with hf | ⟨-, _, _, _, e, -⟩ | ⟨rfl, -⟩
    · exact h.task hp hr₀ hf
    · cases e
    · -- the guard keeps the number for the task
      have hn : Notifies s (.data c) r.rsp_event_fd := by simp [Notifies, hr₀]
      rcases hp with hp | ⟨x, hx, hxr⟩
      · exact absurd hn (hg.1 _ hp)
      · exact absurd hn (hg.2 x hx _ hxr)
  · obtain ⟨c₀, r₀, e, hr₀, -, -, hserv⟩ := hi.atData hr
    cases e
    have := heap_of_step hi hs hr₀
    rw [hh] at this
    cases this
    rcases serving_of_step hi hs hserv with hserv | rfl | ⟨_, _, pt, _, hr', hpt⟩
    · rw [hserv.event] at hf
      cases hf
      rfl
    · cases hf
    · rw [hr] at hr'
      cases hr'
      rcases hpt with e | e | e <;> cases e

/-- `eventfd` made the counter of a connection that is not bound yet. -/
theorem untouched_of_eventfd (hi : Inv s) {c : Conn} {lfd cfd fd : Fd} {evs : List Event}
    (hs : step s (.eventfd fd) = some s') (hr : s.reactor = .conn lfd (.eventfd c cfd) evs)
    (h0 : s'.kernel.counter c = 0) : Untouched s' c := by
  have hnone : s.heap (.data c) = none := by
    have := hi.point
    rw [hr] at this
    exact this.1
  have hbatch : ∀ b, (.data c, b) ∉ s.reactor.batch := by
    intro b hb
    obtain ⟨r, hserv⟩ := hi.batchData hb
    rw [hserv.bound] at hnone
    cases hnone
  refine ⟨h0, fun hp => ?_, fun b hb => ?_, fun hre => ?_⟩
  · rcases pending_of_step hs hp with hp | ⟨_, _, _, hr', -⟩
    · obtain ⟨c', r, e, hr'⟩ := hp.isTask hi
      rw [hnone] at hr'
      cases hr'
    · rw [hr] at hr'
      cases hr'
  · rcases batch_of_step hs hb with hb | ⟨_, e, -⟩
    · exact hbatch b hb
    · cases e
  · rcases reading_of_step hs hre with hre | ⟨b, hb⟩
    · rw [hr] at hre
      cases hre
    · exact hbatch b hb

theorem iso_expecting (hi : Inv s) (h : Iso s) (hg : keepsNumbers s a) (hs : step s a = some s')
    {c : Conn} {r : ReactorEvent} (he : Expecting s' c) (hh : s'.heap (.rsp c) = some r) :
    (∀ c', s'.kernel.files r.rsp_event_fd ≠ some (.sock c')) ∧
      ∀ c', s'.kernel.files r.rsp_event_fd = some (.event c') → c' = c ∨ Untouched s' c' := by
  rcases expecting_of_step hi h hs he with ⟨he, hw⟩ | ⟨r', hserv⟩
  · obtain ⟨r₀, hr₀⟩ := Option.ne_none_iff_exists'.mp (he.bound hi)
    have := heap_of_step hi hs hr₀
    rw [hh] at this
    cases this
    obtain ⟨hsock, hevent⟩ := h.expecting he hr₀
    refine ⟨fun c' hf => ?_, fun c' hf => ?_⟩
    · rcases opened_of_step hs hf with hf | ⟨rfl, _, _, _, -, hr, -⟩ | ⟨-, _, _, _, _, e, -⟩
      · exact hsock c' hf
      · -- the guard keeps the number for the event
        rcases he with hb | ⟨_, _, _, hr'⟩
        · exact hg _ hb rfl rfl (by simp [Notifies, hr₀])
        · rw [hr] at hr'
          cases hr'
      · cases e
    · rcases opened_of_step hs hf with hf | ⟨-, _, _, _, e, -⟩ | ⟨rfl, c₀, lfd, cfd, evs, e, hr, h0⟩
      · exact (hevent c' hf).imp_right fun hu => hu.step hi h hs hw
      · cases e
      · cases e
        exact .inr (untouched_of_eventfd hi hs hr h0)
  · rw [(hserv.rsp_fd (inv_step hi hs) hh).2, hserv.event]
    exact ⟨nofun, fun c' hf => .inl (File.event.inj (Option.some.inj hf)).symm⟩

theorem iso_answering (hi : Inv s) (h : Iso s) (hs : step s a = some s') {c : Conn} {cfd evfd : Fd}
    {pt : RspPoint} {evs : List Event} (hr' : s'.reactor = .rsp (.rsp c) cfd evfd pt evs)
    (hpt : pt ≠ .read) : ∃ r, Serving s' c r := by
  have hkeep : ∀ {pt₀}, s.reactor = .rsp (.rsp c) cfd evfd pt₀ evs → pt₀ ≠ .read →
      ∃ r, Serving s' c r := by
    intro pt₀ hr hne
    obtain ⟨r, hserv⟩ := h.answering hr hne
    exact ⟨r, hserv.step hi hs (by rw [hr']; nofun) (by rw [hr]; nofun)⟩
  cases outcome_of_step hs with
  | rspEvent hr =>
    cases hr'
    exact absurd rfl hpt
  | readOk hr hk =>
    cases hr'
    obtain ⟨c', r, e, hh, rfl, rfl⟩ := hi.atRsp hr
    cases e
    obtain ⟨hsock, hevent⟩ := h.expecting (.inr ⟨_, _, _, hr⟩) hh
    rcases Kernel.readU64_eq_ok hk with ⟨c', hf, hpos, -⟩ | ⟨c', hf⟩
    · rcases hevent c' hf with rfl | hu
      · obtain ⟨r', hr', e⟩ := hi.rsp hh
        have hserv : Serving s c' r' := by
          have hc : s.reactor.closing ≠ some (.data c') := by rw [hr]; nofun
          exact (hi.data hr').2.2.2.2.serving_of_event hc hf
        exact ⟨r', hserv.step hi hs nofun (by rw [hr]; nofun)⟩
      · rw [hu.counter] at hpos
        exact absurd hpos (Nat.lt_irrefl _)
    · exact absurd hf (hsock c')
  | shiftRsp hr =>
    cases hr'
    exact hkeep hr nofun
  | send hr =>
    cases hr'
    exact absurd rfl hpt
  | connect | clientSend | clientClose | pop | shiftReq | reqEmpty | pushRsp | write =>
    exact hkeep hr' hpt
  | _ => cases hr'

theorem iso_step (hi : Inv s) (ht : Tagged s) (h : Iso s) (hg : keepsNumbers s a)
    (hs : step s a = some s') : Iso s' where
  log := isolated_step hi ht h hs
  task := iso_task hi h hg hs
  expecting := iso_expecting hi h hg hs
  answering := iso_answering hi h hs

end

/-- **The connections stay apart** in every run that meets `keepsNumbers`. -/
theorem isolated {n : ℕ} {as : List Act} {s : State} (h : Run step keepsNumbers (init n) as s) :
    Isolated s.log := by
  have hI : Inv s ∧ Tagged s ∧ Iso s := h.invariant (I := fun s => Inv s ∧ Tagged s ∧ Iso s)
    ⟨init_inv n, init_tagged n, init_iso n⟩ fun _ _ _ ⟨hi, ht, hiso⟩ hg hs =>
      ⟨inv_step hi hs, tagged_step hi ht hs, iso_step hi ht hiso hg hs⟩
  exact hI.2.2.log

/-- The next client gets both numbers after the task of the message has notified. -/
def handoverRun : List Act := List.flatten
  [[.connect, .epollWait [4]], acceptActs 5 6,
    [.dispatch, .clientSend 0 [1], .epollWait [5], .dispatch], readActs,
    [.recv 1024 [], .pop 0, .shiftReq 0, .pushRsp 0, .write 0, .dispatch, .clientClose 0, .connect,
      .epollWait [5, 4, 6], .dispatch], closeActs, acceptActs 5 6,
    [.dispatch, .read, .dispatch, .clientSend 1 [2], .epollWait [5], .dispatch], readActs,
    [.recv 1024 [], .pop 0, .shiftReq 0, .pushRsp 0, .write 0, .dispatch, .epollWait [6], .dispatch,
      .read, .shiftRsp, .send (some 1)]]

theorem isolated_handover : ∃ s, Run step keepsNumbers (init 1) handoverRun s ∧
    sent s.log 1 = [⟨1, 0, [2]⟩] ∧ Isolated s.log := by
  obtain ⟨s, hr, hs⟩ : ∃ s, Run step keepsNumbers (init 1) handoverRun s ∧
      sent s.log 1 = [⟨1, 0, [2]⟩] := Run.exists_of_exec _ _ (by decide)
  exact ⟨s, hr, hs, isolated hr⟩

/-- Two messages of the first client: the first is answered up to the notification, the worker
notifies the second one when the numbers belong to the next client. -/
def reuseRun : List Act := List.flatten
  [[.connect, .epollWait [4]], acceptActs 5 6,
    [.dispatch, .clientSend 0 [1], .epollWait [5], .dispatch], readActs,
    [.recv 1024 [], .dispatch, .clientSend 0 [2], .epollWait [5], .dispatch], readActs,
    [.recv 1024 [], .dispatch, .pop 0, .shiftReq 0, .pushRsp 0, .write 0, .pop 0, .shiftReq 0,
      .pushRsp 0, .clientClose 0, .connect, .epollWait [5, 4, 6], .dispatch], closeActs,
    acceptActs 5 6, [.write 0, .dispatch, .read, .shiftRsp, .send (some 1)]]

/-- **A message can be sent to another client, and a notification counted on its eventfd.** -/
theorem not_isolated : ¬ ∀ n as s, Run step lowestFree (init n) as s → Isolated s.log := by
  intro h
  obtain ⟨s, hr, h0, -⟩ : ∃ s, Run step lowestFree (init 1) reuseRun s ∧
      Op.send (.rsp 0) (some (.sock 1)) ⟨0, 0, [1]⟩ (some 1) ∈ s.log ∧
      Op.notify (.data 0) (some (.event 1)) ∈ s.log := Run.exists_of_exec _ _ (by decide)
  have := h _ _ _ hr _ h0 1 rfl
  cases this

end PracticeCode.Server31
