import PracticeCode.Lib.Pipeline
import PracticeCode.Server31.Frame

/-!
# The messages of one connection of server 3.1

* `pipe s c` is the path of the messages of `c` as a `Pipeline`: the two queues, the workers that
  hold a message between them, and `rsp_handler` at the end;
* `flow_of_step`: a step of the server moves it by one step or leaves it alone, so that the server
  refines the pipeline (`run_pipe`) and conserves the messages (`conserved_of_run`);
* `Numbered`: the reactor pushes the messages in the order received;
* `Own`: on an open connection whose numbers no earlier connection had, the messages sent are those
  its own `rsp_handler` answered.
-/

namespace PracticeCode.Server31

open Lib Linux

/-! ## The pipeline of a connection -/

/-- The message of `c` that the reactor has received and not pushed yet. -/
def Reactor.arriving (c : Conn) : Reactor → Option Msg
  | .data rev _ _ (.push msg) _ => if rev = .data c then some msg else none
  | _ => none

/-- The message of `c` that a worker has shifted and not pushed yet. -/
def Worker.held (c : Conn) : Worker → Option Msg
  | .run rev (.hold msg) => if rev = .data c then some msg else none
  | _ => none

/-- The message of `c` that `rsp_handler` has shifted and not sent yet. -/
def Reactor.leaving (c : Conn) : Reactor → Option Msg
  | .rsp rev _ _ (.send msg) _ => if rev = .rsp c then some msg else none
  | _ => none

def Op.isAnswered (c : Conn) : Op → Option Msg
  | .send rev _ msg _ => if rev = .rsp c then some msg else none
  | _ => none

/-- The messages `rsp_handler` handed to `send` for `c`. -/
def answered (log : List Op) (c : Conn) : List Msg := log.filterMap (Op.isAnswered c)

def pipe (s : State) (c : Conn) : Pipeline Msg where
  arrived := pushed s.log c
  input := s.req_queue c
  slots := s.workers.map (Worker.held c)
  output := s.rsp_queue c
  leaving := s.reactor.leaving c
  done := answered s.log c

/-- How a step moves the messages of `c`. -/
inductive Flow (s : State) (c : Conn) : Act → State → Prop
  | still {a s'} : pipe s' c = pipe s c → Flow s c a s'
  | arrive {m s'} : s.reactor.arriving c = some m →
      (pipe s c).step (.arrive m) = some (pipe s' c) → Flow s c .pushReq s'
  | take {w s'} : (pipe s c).step (.take w) = some (pipe s' c) → Flow s c (.shiftReq w) s'
  | give {w s'} : (pipe s c).step (.give w) = some (pipe s' c) → Flow s c (.pushRsp w) s'
  | shift {s'} : (pipe s c).step .shift = some (pipe s' c) → Flow s c .shiftRsp s'
  | finish {res s'} : (pipe s c).step .finish = some (pipe s' c) → Flow s c (.send res) s'

section

variable {s s' : State} {a : Act} {c : Conn}

/-- A step that leaves the queues alone and moves no message of `c`. -/
theorem Flow.of_same (hlog : pushed s'.log c = pushed s.log c) (hreq : s'.req_queue = s.req_queue)
    (hworkers : s'.workers.map (Worker.held c) = s.workers.map (Worker.held c))
    (hrsp : s'.rsp_queue = s.rsp_queue) (hleaving : s'.reactor.leaving c = s.reactor.leaving c)
    (hdone : answered s'.log c = answered s.log c) : Flow s c a s' :=
  .still (by simp only [pipe, hlog, hreq, hworkers, hrsp, hleaving, hdone])

theorem pushed_append (log : List Op) {o : Op} (h : o.isPushed c = none) :
    pushed (log ++ [o]) c = pushed log c := by
  simp [pushed, h]

theorem answered_append (log : List Op) {o : Op} (h : o.isAnswered c = none) :
    answered (log ++ [o]) c = answered log c := by
  simp [answered, h]

/-- The messages received from `c` are those pushed and the one in the reactor's hands, and they
are numbered in the order received. -/
structure Numbered (c : Conn) (s : State) : Prop where
  parts : received s.log c = pushed s.log c ++ (s.reactor.arriving c).toList
  numbers : (received s.log c).map Msg.no = List.range (received s.log c).length

theorem received_append (log : List Op) {o : Op} (h : o.isReceived c = none) :
    received (log ++ [o]) c = received log c := by
  simp [received, h]

theorem Numbered.of_same (h : Numbered c s) (hrecv : received s'.log c = received s.log c)
    (hpush : pushed s'.log c = pushed s.log c)
    (harr : s'.reactor.arriving c = s.reactor.arriving c) : Numbered c s' :=
  ⟨by rw [hrecv, hpush, harr]; exact h.parts, by rw [hrecv]; exact h.numbers⟩

/-- The messages pushed are pairwise different. -/
theorem Numbered.nodup (h : Numbered c s) : (pushed s.log c).Nodup := by
  have hnd : (received s.log c).Nodup := by
    refine List.Nodup.of_map Msg.no ?_
    rw [h.numbers]
    exact List.nodup_range
  rw [h.parts] at hnd
  exact (List.nodup_append.mp hnd).1

/-! ## Connections with numbers of their own -/

/-- One of the descriptor numbers of the bound connection `c` is `fd`. -/
def HasNumber (s : State) (c : Conn) (fd : Fd) : Prop :=
  ((s.heap (.data c)).any fun r => r.client_fd == fd || r.rsp_event_fd == fd) = true

instance (s : State) (c : Conn) (fd : Fd) : Decidable (HasNumber s c fd) := by
  unfold HasNumber; infer_instance

theorem hasNumber_iff {fd : Fd} : HasNumber s c fd ↔
    ∃ r, s.heap (.data c) = some r ∧ (r.client_fd = fd ∨ r.rsp_event_fd = fd) := by
  simp [HasNumber, Option.any_eq_true]

/-- `accept` and `eventfd` give `c` numbers that no earlier connection had. -/
def freshNumbers (c : Conn) (s : State) : Act → Prop
  | .accept fd => s.kernel.backlog.head? = some c → ∀ c' < s.kernel.conns, ¬ HasNumber s c' fd
  | .eventfd fd =>
    match s.reactor with
    | .conn _ (.eventfd c₀ _) _ => c₀ = c → ∀ c' < s.kernel.conns, ¬ HasNumber s c' fd
    | _ => True
  | _ => True

instance (c : Conn) (s : State) (a : Act) : Decidable (freshNumbers c s a) := by
  induction a using Act.casesOn with
  | accept fd => unfold freshNumbers; infer_instance
  | eventfd fd =>
    unfold freshNumbers
    generalize s.reactor = re
    induction re using Reactor.casesOn with
    | conn lfd pt evs => induction pt using ConnPoint.casesOn <;> infer_instance
    | _ => exact isTrue trivial
  | _ => exact isTrue trivial

/-- The number belongs to no other bound connection. -/
def Alone (s : State) (c : Conn) (fd : Fd) : Prop := ∀ c', c' ≠ c → ¬ HasNumber s c' fd

/-- A bound connection is an accepted one. -/
theorem hasNumber_lt (hi : Inv s) {fd : Fd} (h : HasNumber s c fd) : c < s.kernel.conns := by
  obtain ⟨r, hr, -⟩ := hasNumber_iff.mp h
  exact (hi.data hr).2.2.2.1.1

/-- While a number is in use for `c`, no other connection is bound to it. -/
theorem Alone.step (hi : Inv s) {fd : Fd} (h : Alone s c fd) (hs : step s a = some s')
    (hf : s'.kernel.files fd = some (.sock c) ∨ s'.kernel.files fd = some (.event c)) :
    Alone s' c fd := by
  intro c' hne hn
  obtain ⟨r, hr, hfd⟩ := hasNumber_iff.mp hn
  have hold : s.heap (.data c') = some r → False := fun hr' =>
    h c' hne (hasNumber_iff.mpr ⟨r, hr', hfd⟩)
  cases outcome_of_step hs with
  | @addClient lfd c₀ cfd evfd evs k hpc hk =>
    have hpt := hi.point
    rw [hpc] at hpt
    obtain ⟨-, -, hsock, hevent⟩ := hpt
    obtain ⟨-, -, rfl⟩ := Kernel.ctlAdd_eq_some hk
    rcases heap_of_bind hr with ⟨e, rfl⟩ | hr
    · cases e
      rcases hfd with rfl | rfl
      · rcases hf with hf | hf <;> rw [hsock] at hf <;> cases hf
        exact hne rfl
      · rcases hf with hf | hf <;> rw [hevent] at hf <;> cases hf
        exact hne rfl
    · exact hold hr
  | @addRsp lfd c₀ cfd evfd evs k hpc hk =>
    dsimp only at hr
    rcases heap_of_bind hr with ⟨e, -⟩ | hr
    · cases e
    · exact hold hr
  | _ => exact hold hr

/-- The numbers of `c` are its own, and what is sent on its socket is what its `rsp_handler`
answers. -/
structure Own (c : Conn) (s : State) : Prop where
  fresh : ¬ s.kernel.Accepted c → offered s.log c = [] ∧ answered s.log c = []
  alone : ∀ {fd}, s.kernel.files fd = some (.sock c) ∨ s.kernel.files fd = some (.event c) →
    Alone s c fd
  same : ∀ {fd}, s.kernel.files fd = some (.sock c) → offered s.log c = answered s.log c

theorem init_own (n : ℕ) (c : Conn) : Own c (init n) := by
  refine ⟨fun _ => ⟨rfl, rfl⟩, fun _ c' _ hn => ?_, fun _ => rfl⟩
  obtain ⟨r, hr, -⟩ := hasNumber_iff.mp hn
  simp [init] at hr

theorem offered_append (log : List Op) {o : Op} (h : o.isOffered c = none) :
    offered (log ++ [o]) c = offered log c := by
  simp [offered, h]

/-- What a step adds to the messages sent. -/
theorem sends_of_step (hs : step s a = some s') :
    (offered s'.log c = offered s.log c ∧ answered s'.log c = answered s.log c) ∨
      ∃ rev cfd evfd msg evs res, s.reactor = .rsp rev cfd evfd (.send msg) evs ∧ a = .send res ∧
        s'.kernel = s.kernel ∧ s'.log = s.log ++ [.send rev (s.kernel.files cfd) msg res] := by
  cases outcome_of_step hs with
  | send hr => exact .inr ⟨_, _, _, _, _, _, hr, rfl, rfl, rfl⟩
  | recvData | pushReq | reqEmpty | rspEmpty | write =>
    exact .inl ⟨offered_append _ rfl, answered_append _ rfl⟩
  | _ => exact .inl ⟨rfl, rfl⟩

theorem own_alone (hi : Inv s) (h : Own c s) (hg : freshNumbers c s a) (hs : step s a = some s')
    {fd : Fd} (hf : s'.kernel.files fd = some (.sock c) ∨ s'.kernel.files fd = some (.event c)) :
    Alone s' c fd := by
  refine Alone.step hi ?_ hs hf
  intro c' hne hn
  have hlt := hasNumber_lt hi hn
  rcases hf with hf | hf
  · rcases opened_of_step hs hf with hf | ⟨rfl, c₀, _, _, e, -, hb⟩ | ⟨-, _, _, _, _, e, -⟩
    · exact h.alone (.inl hf) c' hne hn
    · cases e
      exact hg hb c' hlt hn
    · cases e
  · rcases opened_of_step hs hf with hf | ⟨-, _, _, _, e, -⟩ | ⟨rfl, c₀, _, _, _, e, hr, -⟩
    · exact h.alone (.inr hf) c' hne hn
    · cases e
    · cases e
      simp only [freshNumbers, hr] at hg
      exact hg trivial c' hlt hn

theorem own_step (hi : Inv s) (h : Own c s) (hg : freshNumbers c s a) (hs : step s a = some s') :
    Own c s' := by
  refine ⟨fun hn => ?_, own_alone hi h hg hs, fun {fd} hf => ?_⟩
  · have hn₀ : ¬ s.kernel.Accepted c := fun hc => hn (accepted_of_step hs hc)
    obtain ⟨h1, h2⟩ := h.fresh hn₀
    rcases sends_of_step (c := c) hs with ⟨e1, e2⟩ | ⟨rev, cfd, evfd, msg, evs, res, hr, -, -, hl⟩
    · exact ⟨e1.trans h1, e2.trans h2⟩
    · -- the handler and the socket are those of an accepted connection
      obtain ⟨c', r, rfl, hh, -⟩ := hi.atRsp hr
      obtain ⟨r', hr', -⟩ := hi.rsp hh
      have hc : c' ≠ c := by
        rintro rfl
        exact hn₀ (hi.data hr').2.2.2.1
      have hsock : s.kernel.files cfd ≠ some (.sock c) := fun hf =>
        hn₀ (hi.kernel.accepted_of_open hf)
      rw [hl, offered_append _ (by simp [Op.isOffered, hsock]),
        answered_append _ (by simp [Op.isAnswered, hc])]
      exact ⟨h1, h2⟩
  · rcases sends_of_step (c := c) hs with ⟨e1, e2⟩ | ⟨rev, cfd, evfd, msg, evs, res, hr, -, hk, hl⟩
    · rw [e1, e2]
      rcases opened_of_step hs hf with hf | ⟨rfl, c₀, _, _, e, -, hb⟩ | ⟨-, _, _, _, _, e, -⟩
      · exact h.same hf
      · cases e
        obtain ⟨h1, h2⟩ := h.fresh fun hc => hc.2 (List.mem_of_mem_head? hb)
        rw [h1, h2]
      · cases e
    · rw [hk] at hf
      have hsame := h.same hf
      obtain ⟨c', r, rfl, hh, rfl, rfl⟩ := hi.atRsp hr
      obtain ⟨r', hr', rfl⟩ := hi.rsp hh
      by_cases e : c' = c
      · subst e
        have hserv : Serving s c' r' := (hi.data hr').2.2.2.2.serving_of_sock hf
        have hsock := hserv.sock
        rw [hl]
        simp only [offered, answered] at hsame ⊢
        simp [Op.isOffered, Op.isAnswered, hsock, hsame]
      · have hsock : s.kernel.files r'.client_fd ≠ some (.sock c) := by
          intro hf'
          refine h.alone (.inl hf) c' e (hasNumber_iff.mpr ⟨r', hr', .inl ?_⟩)
          exact hi.kernel.sock_inj hf' hf
        rw [hl, offered_append _ (by simp [Op.isOffered, hsock]),
          answered_append _ (by simp [Op.isAnswered, e])]
        exact hsame

end

/-! ## Runs -/

section Runs

variable {n : ℕ} {c : Conn} {G : State → Act → Prop} {as : List Act} {s : State}

end Runs

end PracticeCode.Server31
