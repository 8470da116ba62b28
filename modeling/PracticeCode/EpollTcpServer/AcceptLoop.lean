import PracticeCode.EpollTcpServer.Outcome
import Mathlib.Data.Finset.Card

/-!
# The loop of `OnSocketAccept`

The loop with what decides the results of `accept`: the connections that wait, and the numbers below
the limit of the process that are free.  With a full table `accept` fails and the connection goes on
waiting; `tableFirst` says whether the kernel looks for a free number before it looks for a
connection, as Linux does.

The loop only ends on `EAGAIN`, and tries again at once after every other error.  So it ends exactly
if there is a free number for every connection that waits, and for the last look
(`terminates_iff`).
-/

namespace PracticeCode.EpollTcpServer.AcceptLoop

open Lib Linux

/-- What `accept` returns, with the reason of a failure. -/
inductive Result where
  | ok (cli_fd : Fd)
  | again
  /-- The connection was reset while it waited (`ECONNABORTED`). -/
  | aborted
  /-- No number is free, or `handle_` is no listening socket. -/
  | refused
  /-- A reason outside of the process and its backlog: a signal, the memory of the system. -/
  | outside
  deriving DecidableEq

/-- What the thread sees of it. -/
def Result.seen : Result → AcceptResult
  | .ok cli_fd => .ok cli_fd
  | .again => .again
  | .aborted | .refused | .outside => .error

/-- `pending` is the number of connections that wait. -/
structure Backlog where
  proc : State
  pending : ℕ

/-- A call of `accept`, or another step of the loop. -/
inductive Act where
  | accept (res : Result)
  | call (a : EpollTcpServer.Act)
  deriving DecidableEq

section Loop

variable (limit : ℕ) (tableFirst : Bool)

/-- The numbers that a new descriptor can get. -/
def numbers (s : State) : Finset Fd := (Finset.range limit).filter fun m => s.files m = none

/-- The results that `accept` can have. -/
def CanAccept (s : Backlog) : Result → Prop
  | .ok cli_fd => s.proc.listening = some .listening ∧ 0 < s.pending ∧ cli_fd ∈ numbers limit s.proc
  | .again => s.proc.listening = some .listening ∧ s.pending = 0 ∧
      (tableFirst = true → (numbers limit s.proc).Nonempty)
  | .aborted => s.proc.listening = some .listening ∧ 0 < s.pending ∧
      (tableFirst = true → (numbers limit s.proc).Nonempty)
  | .refused => s.proc.listening ≠ some .listening ∨
      numbers limit s.proc = ∅ ∧ (tableFirst = true ∨ 0 < s.pending)
  | .outside => True

instance (s : Backlog) (res : Result) : Decidable (CanAccept limit tableFirst s res) := by
  induction res using Result.casesOn <;> unfold CanAccept <;> infer_instance

/-- The connections that still wait. -/
def pendingAfter (n : ℕ) : Result → ℕ
  | .ok _ | .aborted => n - 1
  | .again | .refused | .outside => n

def step (s : Backlog) : Act → Option Backlog
  | .accept res =>
    if CanAccept limit tableFirst s res then
      (onSocketAccept s.proc (.accept res.seen)).map fun s' => ⟨s', pendingAfter s.pending res⟩
    else none
  | .call (.accept _) => none
  | .call a => (onSocketAccept s.proc a).map fun s' => ⟨s', s.pending⟩

/-- The step of the thread that a step of the loop is. -/
def Act.seen : Act → EpollTcpServer.Act
  | .accept res => .accept res.seen
  | .call a => a

def isAccept : Act → Bool
  | .accept _ => true
  | .call _ => false

def isOutside (a : Act) : Bool := a = .accept .outside

/-- There is a bound for the calls of `accept`, apart from those that fail for a reason outside. -/
def Terminates (s : Backlog) : Prop := ∃ N, ∀ as t, Run (step limit tableFirst) free s as t →
  as.countP isAccept ≤ as.countP isOutside + N

/-! ## Enough numbers -/

/-- The descriptor that `accept` returned, until the thread is done with it. -/
def held : Point → Option Fd
  | .getpeername cli_fd _ | .getfl cli_fd _ | .setfl cli_fd _ | .ctlAdd cli_fd _
  | .closeClient cli_fd _ => some cli_fd
  | _ => none

/-- There is a number for every connection that waits, and for the last look. -/
def Room (s : Backlog) : Prop :=
  s.pending + tableFirst.toNat ≤ (numbers limit s.proc).card

/-- The loop has room, and it does not touch `handle_`. -/
structure Fed (s : Backlog) : Prop where
  room : Room limit tableFirst s
  listening : s.proc.listening = some .listening
  held : ∀ fd ∈ held s.proc.point, s.proc.self.handle_ ≠ some fd

/-- What the rest of the loop can do: accept each connection that waits, and see that there is no
more. -/
def potential (s : Backlog) : ℕ :=
  match s.proc.point with
  | .loop _ => s.pending
  | _ => s.pending + 1

variable {limit tableFirst} {s s' : Backlog} {a : Act}

/-- What the loop does with the descriptor it has. -/
inductive Handled (s s' : State) : Prop
  | go : s'.files = s.files → s'.self = s.self → held s'.point = held s.point → Handled s s'
  | next {evs : List Event} : s'.files = s.files → s'.self = s.self → s'.point = .accept evs →
      Handled s s'
  | close {fd : Fd} {evs : List Event} : held s.point = some fd →
      s' = (s.closeFd fd).goto (.accept evs) → Handled s s'

theorem handled_of_call {p p' : State} {a : EpollTcpServer.Act} (ha : ∀ res, a ≠ .accept res)
    (h : onSocketAccept p a = some p') : held p.point ≠ none ∧ Handled p p' := by
  cases outcome_of_onSocketAccept h with
  | accept | acceptAgain | acceptError => exact absurd rfl (ha _)
  | getpeername hp | getfl hp | setfl hp =>
    exact ⟨by simp [hp, held], .go rfl rfl (by rw [hp]; rfl)⟩
  | clientFail hp =>
    rcases hp with hp | hp | hp
    all_goals exact ⟨by simp [hp, held], .go rfl rfl (by rw [hp]; rfl)⟩
  | getpeernameFail hp | ctlAdd hp => exact ⟨by simp [hp, held], .next rfl rfl rfl⟩
  | closeClient hp => exact ⟨by simp [hp, held], .close (by rw [hp]; rfl) rfl⟩
  -- the steps of the other functions
  | stop hp => rcases hp with hp | hp <;> cases a <;> simp [onSocketAccept, hp] at h
  | readStop hp => cases a <;> simp [onSocketAccept, hp] at h
  | close hp | closeSend hp => simp [onSocketAccept, hp] at h
  | _ => simp [onSocketAccept] at h

theorem potential_of_held {p : State} {n : ℕ} (h : held p.point ≠ none) :
    potential ⟨p, n⟩ = n + 1 := by
  unfold potential
  split
  · rename_i hp
    have hp' : p.point = _ := hp
    rw [hp'] at h
    exact absurd rfl h
  · rfl

theorem numbers_congr {p p' : State} (h : p'.files = p.files) :
    numbers limit p' = numbers limit p := by
  unfold numbers
  rw [h]

theorem listening_congr {p p' : State} (hf : p'.files = p.files) (hs : p'.self = p.self) :
    p'.listening = p.listening := by
  unfold State.listening
  rw [hf, hs]

/-- What `handle_` refers to does not change with another number. -/
theorem listening_update {p p' : State} {fd : Fd} {f : Option File} (hs : p'.self = p.self)
    (hf : p'.files = Function.update p.files fd f) (hne : p.self.handle_ ≠ some fd) :
    p'.listening = p.listening := by
  unfold State.listening
  rw [hs, hf]
  cases hh : p.self.handle_ with
  | none => rfl
  | some lfd =>
    rw [hh] at hne
    exact Function.update_of_ne (fun he => hne (congrArg some he)) _ _

theorem numbers_accept {p : State} {fd : Fd} {f : File} {p' : State}
    (hf : p'.files = Function.update p.files fd (some f)) :
    numbers limit p' = (numbers limit p).erase fd := by
  ext m
  simp only [numbers, hf, Finset.mem_filter, Finset.mem_erase, Function.update_apply]
  by_cases hm : m = fd <;> simp [hm]

theorem numbers_close {p : State} {fd : Fd} {evs : List Event} :
    numbers limit p ⊆ numbers limit ((p.closeFd fd).goto (.accept evs)) := by
  intro m hm
  simp only [numbers, Finset.mem_filter, State.closeFd, State.goto, Function.update_apply] at hm ⊢
  refine ⟨hm.1, ?_⟩
  split
  · rfl
  · exact hm.2

/-- What a call of `accept` does. -/
inductive Accepted (s : State) : AcceptResult → State → Prop
  | ok {cli_fd : Fd} {evs : List Event} {s' : State} : s.point = .accept evs →
      s.files cli_fd = none →
      s'.files = Function.update s.files cli_fd (some (.sock s.conns)) → s'.self = s.self →
      s'.point = .getpeername cli_fd evs → Accepted s (.ok cli_fd) s'
  | again {evs : List Event} {s' : State} : s.point = .accept evs → s'.files = s.files →
      s'.self = s.self → s'.point = .loop evs → Accepted s .again s'
  | error {evs : List Event} {s' : State} : s.point = .accept evs → s'.files = s.files →
      s'.self = s.self → s'.point = .accept evs → Accepted s .error s'

theorem Accepted.point {p p' : State} {res : AcceptResult} (h : Accepted p res p') :
    ∃ evs, p.point = .accept evs := by
  cases h with
  | ok hp _ _ _ _ | again hp _ _ _ | error hp _ _ _ => exact ⟨_, hp⟩

theorem accepted_of_accept {p p' : State} {res : AcceptResult}
    (h : onSocketAccept p (.accept res) = some p') : Accepted p res p' := by
  cases outcome_of_accept h with
  | accept hp _ hfree => exact .ok hp hfree rfl rfl rfl
  | acceptAgain hp => exact .again hp rfl rfl rfl
  | acceptError hp => exact .error hp rfl rfl rfl
  -- the steps of the other functions
  | stop hp => rcases hp with hp | hp <;> simp [onSocketAccept, hp] at h
  | clientFail hp => rcases hp with hp | hp | hp <;> simp [onSocketAccept, hp] at h
  | readStop hp => simp [onSocketAccept, hp] at h

theorem potential_of_accept {p : State} {n : ℕ} {evs : List Event} (h : p.point = .accept evs) :
    potential ⟨p, n⟩ = n + 1 := by
  unfold potential
  simp only [h]

/-- A step that changes no number, and leaves the loop without a descriptor. -/
theorem fed_same {p p' : State} {m n : ℕ} (h : Fed limit tableFirst ⟨p, n⟩)
    (hf : p'.files = p.files) (hs : p'.self = p.self) (hp : held p'.point = none) (hm : m ≤ n) :
    Fed limit tableFirst ⟨p', m⟩ where
  room := by
    have hroom : n + tableFirst.toNat ≤ (numbers limit p).card := h.room
    show m + tableFirst.toNat ≤ (numbers limit p').card
    rw [numbers_congr hf]
    omega
  listening := (listening_congr hf hs).trans h.listening
  held fd hfd := by
    rw [hp] at hfd
    cases hfd

theorem fed_accept {p p' : State} {n : ℕ} {res : Result} (h : Fed limit tableFirst ⟨p, n⟩)
    (hc : CanAccept limit tableFirst ⟨p, n⟩ res)
    (hs : onSocketAccept p (.accept res.seen) = some p') :
    Fed limit tableFirst ⟨p', pendingAfter n res⟩ ∧
      1 + potential ⟨p', pendingAfter n res⟩ ≤ (isOutside (.accept res)).toNat + (n + 1) := by
  have hroom : n + tableFirst.toNat ≤ (numbers limit p).card := h.room
  have ha := accepted_of_accept hs
  cases res with
  | ok cli_fd =>
    cases ha with
    | @ok _ evs _ hp hnone hf hself hp' =>
      obtain ⟨hl, hn, hmem⟩ := hc
      have hne : p.self.handle_ ≠ some cli_fd := fun hh => by
        have : p.files cli_fd = some .listening := by simpa [State.listening, hh] using hl
        rw [hnone] at this
        cases this
      refine ⟨⟨?_, (listening_update hself hf hne).trans h.listening, ?_⟩, ?_⟩
      · have hcard : ((numbers limit p).erase cli_fd).card = (numbers limit p).card - 1 :=
          Finset.card_erase_of_mem hmem
        show n - 1 + tableFirst.toNat ≤ (numbers limit p').card
        rw [numbers_accept hf, hcard]
        have : 0 < n := hn
        omega
      · intro fd hfd
        rw [hp'] at hfd
        obtain rfl := Option.some.inj hfd
        exact hself ▸ hne
      · have : 0 < n := hn
        rw [potential_of_held (by simp [hp', held]), pendingAfter]
        omega
  | again =>
    cases ha with
    | again hp hf hself hp' =>
      refine ⟨fed_same h hf hself (by rw [hp']; rfl) le_rfl, ?_⟩
      show 1 + potential ⟨p', n⟩ ≤ 0 + (n + 1)
      unfold potential
      rw [hp']
      show 1 + n ≤ 0 + (n + 1)
      omega
  | aborted =>
    cases ha with
    | error hp hf hself hp' =>
      have hn : 0 < n := hc.2.1
      refine ⟨fed_same h hf hself (by rw [hp']; rfl) (Nat.sub_le n 1), ?_⟩
      rw [potential_of_accept hp', pendingAfter]
      omega
  | refused =>
    -- there is a listening socket, and no room only without connections to take
    rcases hc with hl | ⟨he, hw⟩
    · exact absurd h.listening hl
    · rw [he, Finset.card_empty] at hroom
      rcases hw with rfl | hw
      · rw [Bool.toNat_true] at hroom
        omega
      · have : 0 < n := hw
        omega
  | outside =>
    cases ha with
    | error hp hf hself hp' =>
      refine ⟨fed_same h hf hself (by rw [hp']; rfl) le_rfl, ?_⟩
      rw [potential_of_accept hp', pendingAfter]
      exact le_refl _

theorem fed_call {p p' : State} {n : ℕ} {a : EpollTcpServer.Act}
    (h : Fed limit tableFirst ⟨p, n⟩) (ha : ∀ res, a ≠ .accept res)
    (hs : onSocketAccept p a = some p') :
    Fed limit tableFirst ⟨p', n⟩ ∧ potential ⟨p', n⟩ = potential ⟨p, n⟩ := by
  have hroom : n + tableFirst.toNat ≤ (numbers limit p).card := h.room
  obtain ⟨hheld, hd⟩ := handled_of_call ha hs
  rw [potential_of_held hheld]
  cases hd with
  | go hf hself hp =>
    refine ⟨⟨?_, (listening_congr hf hself).trans h.listening, ?_⟩, ?_⟩
    · show n + tableFirst.toNat ≤ (numbers limit p').card
      rwa [numbers_congr hf]
    · intro fd hfd
      rw [hself]
      exact h.held fd (hp ▸ hfd)
    · exact potential_of_held (hp ▸ hheld)
  | next hf hself hp => exact ⟨fed_same h hf hself (by rw [hp]; rfl) le_rfl, potential_of_accept hp⟩
  | @close fd evs hfd hp =>
    subst hp
    have hne := h.held fd hfd
    have hl : ((p.closeFd fd).goto (.accept evs)).listening = p.listening :=
      listening_update rfl rfl hne
    refine ⟨⟨?_, hl.trans h.listening, nofun⟩, potential_of_accept rfl⟩
    exact hroom.trans (Finset.card_le_card numbers_close)

theorem call_of_step {a : EpollTcpServer.Act} (hs : step limit tableFirst s (.call a) = some s') :
    (∀ res, a ≠ .accept res) ∧ ∃ p', onSocketAccept s.proc a = some p' ∧ s' = ⟨p', s.pending⟩ := by
  have ha : ∀ res, a ≠ .accept res := by
    rintro res rfl
    cases hs
  have hs' : (onSocketAccept s.proc a).map (fun p' => (⟨p', s.pending⟩ : Backlog)) = some s' := by
    cases a with
    | accept res => exact absurd rfl (ha res)
    | _ => exact hs
  obtain ⟨p', hp', rfl⟩ := Option.map_eq_some_iff.mp hs'
  exact ⟨ha, p', hp', rfl⟩

/-- **A step of the loop keeps room**, and only calls that fail for a reason outside do not count
down. -/
theorem fed_step (h : Fed limit tableFirst s) (hs : step limit tableFirst s a = some s') :
    Fed limit tableFirst s' ∧
      (isAccept a).toNat + potential s' ≤ (isOutside a).toNat + potential s := by
  obtain ⟨p, n⟩ := s
  cases a with
  | accept res =>
    simp only [step, Option.ite_none_right_eq_some, Option.map_eq_some_iff] at hs
    obtain ⟨hc, p', hp', rfl⟩ := hs
    obtain ⟨hF, hle⟩ := fed_accept h hc hp'
    refine ⟨hF, ?_⟩
    obtain ⟨evs, hp⟩ := (accepted_of_accept hp').point
    rw [potential_of_accept hp]
    exact hle
  | call a =>
    obtain ⟨ha, p', hp', rfl⟩ := call_of_step hs
    obtain ⟨hF, he⟩ := fed_call h ha hp'
    refine ⟨hF, ?_⟩
    rw [he]
    exact Nat.add_le_add_right (Nat.zero_le _) _

/-! ## The thread -/

theorem step_eq_onSocketAccept {p : State} (a : EpollTcpServer.Act)
    (h : held p.point ≠ none ∨ ∃ evs, p.point = .accept evs) :
    EpollTcpServer.step p a = onSocketAccept p a := by
  unfold EpollTcpServer.step
  split
  all_goals first
    | rfl
    | (rename_i hp; simp [hp, held] at h)

theorem follows_thread (hs : step limit tableFirst s a = some s') :
    Follows EpollTcpServer.step s.proc (some a.seen) s'.proc := by
  cases a with
  | accept res =>
    simp only [step, Option.ite_none_right_eq_some, Option.map_eq_some_iff] at hs
    obtain ⟨-, p', hp', rfl⟩ := hs
    exact (step_eq_onSocketAccept _ (.inr (accepted_of_accept hp').point)).trans hp'
  | call a =>
    obtain ⟨ha, p', hp', rfl⟩ := call_of_step hs
    exact (step_eq_onSocketAccept _ (.inl (handled_of_call ha hp').1)).trans hp'

/-- **A run of the loop is a run of the thread.** -/
theorem thread_of_loop {as : List Act} (h : Run (step limit tableFirst) free s as s') :
    Run EpollTcpServer.step free s.proc (as.map Act.seen) s'.proc := by
  have hr : Run EpollTcpServer.step free s.proc (as.filterMap fun a => some a.seen) s'.proc :=
    h.refine (I := fun _ => True) Backlog.proc (fun a => some a.seen) trivial
      (fun _ _ _ _ _ _ => trivial) fun _ _ _ _ _ hs => follows_thread hs
  rwa [List.filterMap_eq_map'] at hr

/-! ## No room -/

/-- `accept` fails, and goes on failing. -/
def Stuck (limit : ℕ) (tableFirst : Bool) (s : Backlog) : Prop :=
  (∃ evs, s.proc.point = .accept evs) ∧ CanAccept limit tableFirst s .refused

theorem stuck_step (h : Stuck limit tableFirst s) :
    ∃ s', step limit tableFirst s (.accept .refused) = some s' ∧ Stuck limit tableFirst s' := by
  obtain ⟨⟨evs, hp⟩, hc⟩ := h
  refine ⟨⟨(s.proc.goto (.accept evs)).record (.accept s.proc.listening), s.pending⟩, ?_,
    ⟨evs, rfl⟩, hc⟩
  have hs : onSocketAccept s.proc (.accept .error) =
      some ((s.proc.goto (.accept evs)).record (.accept s.proc.listening)) := by
    simp [onSocketAccept, hp, EpollTcpServer.CanAccept]
  rw [step, if_pos hc]
  show (onSocketAccept s.proc (.accept .error)).map _ = _
  rw [hs]
  rfl

/-- Once the loop is stuck, no number of calls is enough. -/
theorem not_terminates_of_stuck {as : List Act} (h : Run (step limit tableFirst) free s as s')
    (hs : Stuck limit tableFirst s') : ¬ Terminates limit tableFirst s := by
  rintro ⟨N, hN⟩
  obtain ⟨t, ht, -⟩ := Run.replicate (G := free) hs (fun _ hs => ⟨trivial, stuck_step hs⟩)
    (as.countP isOutside + N + 1)
  have hle := hN _ t (h.append ht)
  have ha : isAccept (.accept .refused) = true := rfl
  have ho : isOutside (.accept .refused) = false := rfl
  rw [List.countP_append, List.countP_append, List.countP_replicate, List.countP_replicate, ha,
    ho] at hle
  simp only [if_true, Bool.false_eq_true, if_false] at hle
  omega

variable (tableFirst) in
/-- A connection whose peer is gone keeps its number. -/
theorem take_number {p : State} {n : ℕ} {fd : Fd} {evs : List Event}
    (hp : p.point = .accept evs) (hl : p.listening = some .listening) (hn : 0 < n)
    (hfd : fd ∈ numbers limit p) :
    ∃ as p', Run (step limit tableFirst) free ⟨p, n⟩ as ⟨p', n - 1⟩ ∧ p'.point = .accept evs ∧
      p'.listening = some .listening ∧ numbers limit p' = (numbers limit p).erase fd := by
  have hnone : p.files fd = none := (Finset.mem_filter.mp hfd).2
  have hne : p.self.handle_ ≠ some fd := fun hh => by
    have : p.files fd = some .listening := by simpa [State.listening, hh] using hl
    rw [hnone] at this
    cases this
  let p₁ := ({ p with
    files := Function.update p.files fd (some (.sock p.conns))
    conns := p.conns + 1 }.goto (.getpeername fd evs)).record (.accept p.listening)
  have h₁ : step limit tableFirst ⟨p, n⟩ (.accept (.ok fd)) = some ⟨p₁, n - 1⟩ := by
    have hs : onSocketAccept p (.accept (.ok fd)) = some p₁ := by
      simp [onSocketAccept, hp, EpollTcpServer.CanAccept, hl, hnone, p₁]
    have hc : CanAccept limit tableFirst ⟨p, n⟩ (.ok fd) := ⟨hl, hn, hfd⟩
    rw [step, if_pos hc]
    show (onSocketAccept p (.accept (.ok fd))).map _ = _
    rw [hs]
    rfl
  have h₂ : step limit tableFirst ⟨p₁, n - 1⟩ (.call (.getpeername false)) =
      some ⟨p₁.goto (.accept evs), n - 1⟩ := rfl
  refine ⟨_, p₁.goto (.accept evs), (Run.nil.snoc trivial h₁).snoc trivial h₂, rfl, ?_,
    numbers_accept rfl⟩
  rw [← hl]
  exact listening_update rfl rfl hne

variable (tableFirst) in
theorem stuck_of_not_room {k : ℕ} {p : State} {n : ℕ} {evs : List Event}
    (hp : p.point = .accept evs) (hl : p.listening = some .listening)
    (hk : (numbers limit p).card = k) (hlt : k < n + tableFirst.toNat) :
    ∃ as t, Run (step limit tableFirst) free ⟨p, n⟩ as t ∧ Stuck limit tableFirst t := by
  induction k generalizing p n with
  | zero =>
    refine ⟨[], _, .nil, ⟨evs, hp⟩, .inr ⟨Finset.card_eq_zero.mp hk, ?_⟩⟩
    cases tableFirst with
    | false => exact .inr (by simpa using hlt)
    | true => exact .inl rfl
  | succ k ih =>
    have htf := Bool.toNat_le tableFirst
    have hn : 0 < n := by omega
    obtain ⟨fd, hfd⟩ := Finset.card_pos.mp (by rw [hk]; exact Nat.succ_pos k)
    obtain ⟨as, p', hr, hp', hl', hnum⟩ := take_number tableFirst hp hl hn hfd
    have hk' : (numbers limit p').card = k := by
      have := Finset.card_erase_of_mem hfd
      rw [hnum]
      omega
    obtain ⟨bs, t, ht, hs⟩ := ih (n := n - 1) hp' hl' hk' (by omega)
    exact ⟨as ++ bs, t, hr.append ht, hs⟩

end Loop

/-- **When the loop of `OnSocketAccept` ends.**  Exactly if `handle_` is a listening socket and
there is a free number for every connection that waits, and one more where the kernel looks for a
number first. -/
theorem terminates_iff (limit : ℕ) (tableFirst : Bool) (s : State) (evs : List Event) (n : ℕ) :
    Terminates limit tableFirst ⟨s.goto (.accept evs), n⟩ ↔
      s.listening = some .listening ∧ n + tableFirst.toNat ≤ (numbers limit s).card := by
  constructor
  · intro ht
    have hl : s.listening = some .listening := by
      by_contra hl
      exact not_terminates_of_stuck .nil ⟨⟨evs, rfl⟩, .inl hl⟩ ht
    refine ⟨hl, ?_⟩
    by_contra hlt
    obtain ⟨as, t, hr, hs⟩ := stuck_of_not_room tableFirst (p := s.goto (.accept evs)) rfl hl rfl
      (not_le.mp hlt)
    exact not_terminates_of_stuck hr hs ht
  · rintro ⟨hl, hroom⟩
    refine ⟨potential ⟨s.goto (.accept evs), n⟩, fun as t hr => ?_⟩
    have hF : Fed limit tableFirst ⟨s.goto (.accept evs), n⟩ := ⟨hroom, hl, nofun⟩
    have hle : as.countP isAccept + potential t ≤
        as.countP isOutside + potential ⟨s.goto (.accept evs), n⟩ :=
      hr.countP_le hF fun s a s' h _ hs => fed_step h hs
    omega

/-- **A full table**: a client waits and there is no number for it, whatever the kernel looks for
first. -/
theorem not_terminates_full : ¬ Terminates 5 true ⟨init.goto (.accept []), 1⟩ ∧
    ¬ Terminates 5 false ⟨init.goto (.accept []), 1⟩ :=
  ⟨not_terminates_of_stuck .nil ⟨⟨[], rfl⟩, .inr ⟨by decide, .inr (by decide)⟩⟩,
    not_terminates_of_stuck .nil ⟨⟨[], rfl⟩, .inr ⟨by decide, .inr (by decide)⟩⟩⟩

end PracticeCode.EpollTcpServer.AcceptLoop
