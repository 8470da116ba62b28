import PracticeCode.EpollTcpServer.Descriptors

/-!
# What reaches the callback before `EpollTcpServer` closes a descriptor

The loop thread and the clients together (`Net`): a client sends bytes and then closes or
half-closes; `read` takes what has arrived, and the masks of `epoll_wait` tell what has.  In what
order arrivals are merged into masks is left open.

`EpollLoop` asks for a closing mask before it asks for `EPOLLIN`, and closes the descriptor without
reading.  `delivered_of_drained`: a connection gets its whole stream delivered before it is closed
if it has no unread bytes whenever the loop looks at a closing mask of it; `lossRun` is a run in
which `EPOLLIN` and `EPOLLRDHUP` come together.
-/

namespace PracticeCode.EpollTcpServer

open Lib Linux

/-- `EPOLLERR`, `EPOLLHUP` or `EPOLLRDHUP`: the loop closes the descriptor. -/
def Mask.closing (m : Mask) : Bool := m.epollerr || m.epollhup || m.epollrdhup

/-- The loop thread, and for each connection what the client sent, what the server has not read of
it, whether the client closed or half-closed, and the messages that were passed to
`recv_callback_`. -/
structure Net where
  server : State
  sent : Conn → List UInt8
  unread : Conn → List UInt8
  fin : Conn → Bool
  delivered : Conn → List UInt8

inductive NetAct where
  | send (c : Conn) (bytes : List UInt8)
  | shut (c : Conn)
  | server (a : Act)
  deriving DecidableEq

def netInit : Net := ⟨init, fun _ => [], fun _ => [], fun _ => false, fun _ => []⟩

/-- The connection behind a file. -/
def connOf : Option File → Option Conn
  | some (.sock c) => some c
  | _ => none

/-- The connection that is being read. -/
def State.reading (s : State) : Option Conn :=
  match s.point with
  | .read fd _ => connOf (s.files fd)
  | _ => none

/-- What the clients did is what the results of `read` and `epoll_wait` show. -/
def CanArrive (n : Net) : Act → Prop
  | .read res => ∀ c ∈ n.server.reading,
    match res with
    | .data chunk => chunk <+: n.unread c
    | .again => n.unread c = [] ∧ n.fin c = false
    | .eof => n.unread c = [] ∧ n.fin c = true
    | .error => True
  | .epollWait evs => ∀ e ∈ evs, ∀ c ∈ connOf (n.server.files e.1),
    (e.2.epollin = true → n.unread c ≠ [] ∨ n.fin c = true) ∧
      (e.2.closing = true → n.fin c = true)
  | _ => True

/-- What is unread after a step of the server. -/
def Net.consume (n : Net) (a : Act) : Conn → List UInt8 :=
  match n.server.reading, a with
  | some c, .read (.data chunk) => Function.update n.unread c ((n.unread c).drop chunk.length)
  | _, _ => n.unread

/-- What is delivered after a step of the server. -/
def Net.deliver (n : Net) (a : Act) : Conn → List UInt8 :=
  match n.server.point, a with
  | .callback data _ _, .callback =>
    match connOf (data.fd.bind n.server.files) with
    | some c => Function.update n.delivered c (n.delivered c ++ data.msg)
    | none => n.delivered
  | _, _ => n.delivered

instance (n : Net) (a : Act) : Decidable (CanArrive n a) := by
  induction a using Act.casesOn with
  | read res => induction res using ReadResult.casesOn <;> unfold CanArrive <;> infer_instance
  | epollWait evs => unfold CanArrive; infer_instance
  | _ => exact isTrue trivial

/-- The system after a step of the server, which leaves it as `s`. -/
def Net.after (n : Net) (a : Act) (s : State) : Net :=
  { n with server := s, unread := n.consume a, delivered := n.deliver a }

def netStep (n : Net) : NetAct → Option Net
  | .send c bytes =>
    if n.fin c = false then
      some { n with sent := Function.update n.sent c (n.sent c ++ bytes)
                    unread := Function.update n.unread c (n.unread c ++ bytes) }
    else none
  | .shut c => if n.fin c = false then some { n with fin := Function.update n.fin c true } else none
  | .server a =>
    if CanArrive n a then (step n.server a).map (n.after a) else none

/-- A connection that is set up, and no reset: `read` and `write` have no error, and `EPOLLERR` does
not occur. -/
def cleanAct : Act → Prop
  | .read res => res ≠ .error
  | .write res => res ≠ .error
  | .getpeername ok | .getfl ok | .setfl ok | .ctlAdd ok => ok = true
  | .epollWait evs => ∀ e ∈ evs, e.2.epollerr = false
  | _ => True

instance : DecidablePred cleanAct := fun a => by
  induction a using Act.casesOn <;> unfold cleanAct <;> infer_instance

def clean (_ : Net) : NetAct → Prop
  | .server a => cleanAct a
  | _ => True

instance (n : Net) (a : NetAct) : Decidable (clean n a) := by
  induction a using NetAct.casesOn <;> unfold clean <;> infer_instance

/-- The connection of the event that the loop looks at next, if the mask is a closing one. -/
def State.hungUp (s : State) : Option Conn :=
  match s.point with
  | .loop ((fd, events) :: _) => if events.closing then connOf (s.files fd) else none
  | _ => none

/-- When the loop looks at a closing mask of a connection, everything that arrived was read. -/
def drained (n : Net) : NetAct → Prop
  | .server .dispatch => ∀ c ∈ n.server.hungUp, n.unread c = []
  | _ => True

instance (n : Net) (a : NetAct) : Decidable (drained n a) := by
  induction a using NetAct.casesOn with
  | server a => induction a using Act.casesOn <;> unfold drained <;> infer_instance
  | _ => exact isTrue trivial

/-- **Everything is delivered before the descriptor is closed.** -/
def Delivered (n : Net) : Prop :=
  ∀ c, .close (some (.sock c)) ∈ n.server.log → n.delivered c = n.sent c

/-! ## The invariant -/

/-- The packet that was read and not passed to the callback yet, and its descriptor. -/
def Point.read? : Point → Option (Packet × Fd)
  | .testCallback data fd _ | .callback data fd _ => some (data, fd)
  | _ => none

/-- The bytes of the connection `c` between `read` and the callback. -/
def State.undelivered (s : State) (c : Conn) : List UInt8 :=
  match s.point.read? with
  | some (data, fd) => if s.files fd = some (.sock c) then data.msg else []
  | none => []

/-- The events that the loop has not looked at yet. -/
def Point.batch : Point → List Event
  | .loop evs | .accept evs | .getpeername _ evs | .getfl _ evs | .setfl _ evs | .ctlAdd _ evs
  | .closeClient _ evs | .read _ evs | .testCallback _ _ evs | .callback _ _ evs | .write _ _ evs
  | .closeSend _ _ evs | .close _ evs => evs
  | .start | .head | .wait | .done | .terminated => []

/-- The descriptor that is about to be closed. -/
def Point.closing : Point → Option Fd
  | .close fd _ | .closeClient fd _ => some fd
  | _ => none

/-- The client is done and everything it sent was read. -/
def Net.Drained (n : Net) (c : Conn) : Prop := n.fin c = true ∧ n.unread c = []

structure Flow (n : Net) : Prop where
  callback : n.server.self.recv_callback_ = some .recv_call
  flow : ∀ c, n.delivered c ++ n.server.undelivered c ++ n.unread c = n.sent c
  marks : ∀ {fd events c}, (fd, events) ∈ n.server.point.batch → events.closing = true →
    n.server.files fd = some (.sock c) → n.fin c = true
  closing : ∀ {fd c}, n.server.point.closing = some fd → n.server.files fd = some (.sock c) →
    n.Drained c
  closed : ∀ {c}, .close (some (.sock c)) ∈ n.server.log → n.Drained c

theorem netInit_flow : Flow netInit where
  callback := rfl
  flow _ := rfl
  marks h := by cases h
  closing h := by cases h
  closed h := by cases h

/-! ### Single steps of the loop thread -/

section Inversion

variable {s s' : State} {a : Act} {fd : Fd} {evs : List Event}

theorem act_of_read (hp : s.point = .read fd evs) (hs : step s a = some s') :
    ∃ res, a = .read res := by
  simp only [step, hp] at hs
  cases a with
  | read res => exact ⟨res, rfl⟩
  | testCallback | callback => simp only [onSocketRead, hp] at hs; cases hs
  | _ => cases hs

/-- A connection whose set-up succeeds is not closed by `OnSocketAccept`. -/
theorem not_clientFail (hp : s.point = .getfl fd evs ∨ s.point = .setfl fd evs ∨
    s.point = .ctlAdd fd evs) (hc : cleanAct a) (hs : step s a = some s') :
    s'.point ≠ .closeClient fd evs := by
  rcases hp with hp | hp | hp
  · simp only [step, hp] at hs
    cases a with
    | getfl ok =>
      obtain rfl : ok = true := hc
      simp only [onSocketAccept, hp, if_true] at hs
      obtain rfl := Option.some.inj hs
      simp [State.goto]
    | _ => simp [onSocketAccept, hp] at hs
  · simp only [step, hp] at hs
    cases a with
    | setfl ok =>
      obtain rfl : ok = true := hc
      simp only [onSocketAccept, hp, if_true] at hs
      obtain rfl := Option.some.inj hs
      simp [State.goto]
    | _ => simp [onSocketAccept, hp] at hs
  · simp only [step, hp] at hs
    cases a with
    | ctlAdd ok =>
      obtain rfl : ok = true := hc
      simp only [onSocketAccept, hp, if_true, Option.ite_none_right_eq_some] at hs
      obtain rfl := Option.some.inj hs.2
      simp [State.goto]
    | _ => simp [onSocketAccept, hp] at hs

/-- Without a read error, `OnSocketRead` closes a descriptor at the end of its stream. -/
theorem eof_of_readStop (hp : s.point = .read fd evs) (hc : cleanAct a)
    (hs : step s a = some ((s.goto (.close fd evs)).record (.read (s.files fd) []))) :
    a = .read .eof := by
  obtain ⟨res, rfl⟩ := act_of_read hp hs
  cases res with
  | eof => rfl
  | error => exact absurd rfl hc
  | data chunk | again =>
    simp only [step, hp, onSocketRead, Option.ite_none_right_eq_some, Option.some.injEq] at hs
    simp [State.goto, State.record] at hs

/-- The descriptor is closed because of its mask. -/
theorem closing_of_hangup {events : Mask} (hp : s.point = .loop ((fd, events) :: evs))
    (hs : step s .dispatch = some (s.goto (.close fd evs))) : events.closing = true := by
  simp only [step, hp, epollLoop, State.goto, Option.some.injEq, State.mk.injEq] at hs
  have hb := hs.2.2.2.2.1
  unfold branch at hb
  unfold Mask.closing
  grind

end Inversion

/-! ### What the steps do to the bytes -/

section Step

variable {n : Net} {s : State} {a : Act} {p : Point} {fd : Fd} {evs : List Event}

/-- A step that neither reads nor calls back. -/
theorem after_eq (hr : n.server.reading = none) (hc : n.server.point.read? = none) :
    n.after a s = { n with server := s } := by
  have h1 : n.consume a = n.unread := by
    unfold Net.consume
    rw [hr]
  have h2 : n.deliver a = n.delivered := by
    unfold Net.deliver
    split
    · rename_i hp
      rw [hp] at hc
      cases hc
    · rfl
  rw [Net.after, h1, h2]

theorem after_eq_of_act (hr : ∀ chunk, a ≠ .read (.data chunk)) (hc : a ≠ .callback) :
    n.after a s = { n with server := s } := by
  have h1 : n.consume a = n.unread := by
    unfold Net.consume
    split
    · exact absurd rfl (hr _)
    · rfl
  have h2 : n.deliver a = n.delivered := by
    unfold Net.deliver
    split
    · exact absurd rfl hc
    · rfl
  rw [Net.after, h1, h2]

theorem undelivered_of_none {c : Conn} (h : s.point.read? = none) : s.undelivered c = [] := by
  unfold State.undelivered
  rw [h]

theorem undelivered_of_read {c : Conn} {data : Packet} (h : s.point.read? = some (data, fd)) :
    s.undelivered c = if s.files fd = some (.sock c) then data.msg else [] := by
  unfold State.undelivered
  rw [h]

/-- The thread goes on without moving a byte. -/
theorem Flow.goto (h : Flow n) (hr : p.read? = n.server.point.read?)
    (hb : p.batch ⊆ n.server.point.batch)
    (hcl : ∀ {fd c}, p.closing = some fd → n.server.files fd = some (.sock c) → n.Drained c) :
    Flow { n with server := n.server.goto p } where
  callback := h.callback
  flow c := by
    have : (n.server.goto p).undelivered c = n.server.undelivered c := by
      unfold State.undelivered
      rw [State.goto, hr]
    rw [this]
    exact h.flow c
  marks he := h.marks (hb he)
  closing := hcl
  closed := h.closed

/-- The interest list does not matter here. -/
theorem Flow.interest {i : Fd → Bool} (h : Flow n) :
    Flow { n with server := { n.server with interest := i } } :=
  ⟨h.callback, h.flow, h.marks, h.closing, h.closed⟩

theorem Flow.record {o : Op} (h : Flow n) (ho : ∀ c, o ≠ .close (some (.sock c))) :
    Flow { n with server := n.server.record o } where
  callback := h.callback
  flow := h.flow
  marks := h.marks
  closing := h.closing
  closed {c} hm := by
    rcases List.mem_append.mp hm with hm | hm
    · exact h.closed hm
    · exact absurd (List.mem_singleton.mp hm).symm (ho c)

/-- The same with a call that closes nothing. -/
theorem Flow.pass {o : Op} (h : Flow n) (hr : p.read? = n.server.point.read?)
    (hb : p.batch ⊆ n.server.point.batch)
    (hcl : ∀ {fd c}, p.closing = some fd → n.server.files fd = some (.sock c) → n.Drained c)
    (ho : ∀ c, o ≠ .close (some (.sock c))) :
    Flow { n with server := (n.server.goto p).record o } :=
  (h.goto hr hb hcl).record ho

/-- The descriptor that is closed belongs to a client that is done. -/
theorem Flow.closeFd (h : Flow n) (hcl : n.server.point.closing = some fd)
    (hp : p.read? = none) (hq : n.server.point.read? = none)
    (hb : p.batch ⊆ n.server.point.batch) (hnone : p.closing = none) :
    Flow { n with server := (n.server.closeFd fd).goto p } where
  callback := h.callback
  flow c := by
    have := h.flow c
    rw [undelivered_of_none hq] at this
    rw [undelivered_of_none (s := (n.server.closeFd fd).goto p) hp]
    exact this
  marks {fd' events c} he hm hf := by
    refine h.marks (hb he) hm ?_
    simp only [State.closeFd, State.goto, Function.update_apply] at hf
    split at hf
    · cases hf
    · exact hf
  closing {fd' c} hp' := by
    rw [show p.closing = some fd' from hp'] at hnone
    cases hnone
  closed {c} hm := by
    rcases List.mem_append.mp hm with hm | hm
    · exact h.closed hm
    · have hf : n.server.files fd = some (.sock c) := by
        simpa using (List.mem_singleton.mp hm).symm
      exact h.closing hcl hf

/-- `epoll_wait` reports a closing mask only for a client that is done. -/
theorem Flow.epollWait (h : Flow n) (hp : n.server.point = .wait)
    (ha : CanArrive n (.epollWait evs)) :
    Flow { n with server := n.server.goto (.loop evs) } where
  callback := h.callback
  flow c := by
    have := h.flow c
    rw [undelivered_of_none (by rw [hp]; rfl)] at this
    exact this
  marks {fd events c} he hm hf := by
    change n.server.files fd = some (.sock c) at hf
    exact (ha _ he c (by rw [hf]; rfl)).2 hm
  closing hp' := by cases hp'
  closed := h.closed

/-- A new connection has no event in the batch. -/
theorem Flow.accept {cli_fd : Fd} (h : Flow n) (hI : Inv n.server)
    (hp : n.server.point = .accept evs) (hf : n.server.files cli_fd = none) :
    Flow { n with server := { n.server with
      files := Function.update n.server.files cli_fd (some (.sock n.server.conns))
      conns := n.server.conns + 1 }.goto (.getpeername cli_fd evs) } where
  callback := h.callback
  flow c := by
    have := h.flow c
    rw [undelivered_of_none (by rw [hp]; rfl)] at this
    exact this
  marks {fd events c} he hm hfd := by
    have hne : fd ≠ cli_fd := by
      rintro rfl
      have hpend : fd ∈ n.server.point.pending := by
        rw [hp]
        exact List.mem_map.mpr ⟨_, he, rfl⟩
      exact hI.opened (hI.pending hpend) hf
    refine h.marks (by rw [hp]; exact he) hm ?_
    exact (Function.update_of_ne hne ..).symm.trans hfd
  closing hp' := by cases hp'
  closed := h.closed

/-- A connection that is open was not closed. -/
theorem not_closed_of_open {s : State} {c : Conn} (hI : Inv s) (hf : s.files fd = some (.sock c)) :
    .close (some (.sock c)) ∉ s.log :=
  List.count_eq_zero.mp (hI.fresh (.inr ⟨fd, hf⟩))

theorem exists_sock {f : Option File} (h : isSock f = true) : ∃ c, f = some (.sock c) := by
  unfold isSock at h
  rcases f with _ | f
  · simp at h
  · cases f <;> simp_all

/-- A chunk goes from the unread bytes into the hands of the thread. -/
theorem Flow.readData {chunk : List UInt8} (h : Flow n) (hI : Inv n.server)
    (hp : n.server.point = .read fd evs) (hs : isSock (n.server.files fd) = true)
    (ha : CanArrive n (.read (.data chunk))) :
    Flow (n.after (.read (.data chunk))
      ((n.server.goto (.testCallback ⟨some fd, chunk⟩ fd evs)).record
        (.read (n.server.files fd) chunk))) := by
  obtain ⟨c₀, hf⟩ := exists_sock hs
  have hr : n.server.reading = some c₀ := by
    unfold State.reading
    rw [hp]
    simp only [hf, connOf]
  have hu : n.consume (.read (.data chunk)) =
      Function.update n.unread c₀ ((n.unread c₀).drop chunk.length) := by
    unfold Net.consume
    rw [hr]
  have hd : n.deliver (.read (.data chunk)) = n.delivered := by
    unfold Net.deliver
    rw [hp]
  obtain ⟨rest, hrest⟩ := ha c₀ hr
  have hlog {o : Op} {c : Conn} (ho : .close (some (.sock c)) ∈ n.server.log ++ [o])
      (hne : ∀ c, o ≠ .close (some (.sock c))) :
      c ≠ c₀ ∧ .close (some (.sock c)) ∈ n.server.log := by
    rcases List.mem_append.mp ho with hm | hm
    · exact ⟨fun e => not_closed_of_open hI hf (e ▸ hm), hm⟩
    · exact absurd (List.mem_singleton.mp hm).symm (hne c)
  rw [Net.after, hu, hd]
  constructor
  · exact h.callback
  · intro c
    have hflow := h.flow c
    rw [undelivered_of_none (by rw [hp]; rfl), List.append_nil] at hflow
    change n.delivered c ++ (if n.server.files fd = some (.sock c) then chunk else []) ++
      Function.update n.unread c₀ _ c = n.sent c
    by_cases hc : c = c₀
    · subst hc
      rw [if_pos hf, Function.update_self, ← hflow, ← hrest, List.drop_left, List.append_assoc]
    · have hne : n.server.files fd ≠ some (.sock c) := by
        rw [hf]
        simpa using Ne.symm hc
      rw [if_neg hne, Function.update_of_ne hc, List.append_nil, hflow]
  · intro fd' events c he
    exact h.marks (by rw [hp]; exact he)
  · intro fd' c hp'
    cases hp'
  · intro c hm
    obtain ⟨hne, hm⟩ := hlog hm nofun
    refine ⟨(h.closed hm).1, ?_⟩
    change Function.update n.unread c₀ _ c = []
    rw [Function.update_of_ne hne]
    exact (h.closed hm).2

theorem connOf_eq_some {f : Option File} {c : Conn} : connOf f = some c ↔ f = some (.sock c) := by
  unfold connOf
  split <;> simp_all

/-- The callback gets the packet that the thread has in hand. -/
theorem Flow.call {data : Packet} (h : Flow n) (hw : n.server.point.Wf)
    (hp : n.server.point = .callback data fd evs) :
    Flow (n.after .callback ((n.server.goto (.write data fd evs)).record (.callback data))) := by
  rw [hp] at hw
  change data.fd = some fd at hw
  have hu : n.consume .callback = n.unread := by
    unfold Net.consume
    split
    · rename_i ha
      cases ha
    · rfl
  have hd : ∀ c, n.deliver .callback c =
      n.delivered c ++ if n.server.files fd = some (.sock c) then data.msg else [] := by
    intro c
    unfold Net.deliver
    simp only [hp, hw, Option.bind_some]
    cases hf : connOf (n.server.files fd) with
    | none =>
      rw [if_neg, List.append_nil]
      rw [← connOf_eq_some, hf]
      nofun
    | some c₀ =>
      rw [connOf_eq_some] at hf
      by_cases hc : c = c₀
      · subst hc
        rw [if_pos hf]
        exact Function.update_self ..
      · rw [if_neg (by rw [hf]; simpa using Ne.symm hc), List.append_nil]
        exact Function.update_of_ne hc ..
  rw [Net.after, hu]
  constructor
  · exact h.callback
  · intro c
    have hflow := h.flow c
    rw [undelivered_of_read (by rw [hp]; rfl)] at hflow
    change n.deliver .callback c ++ [] ++ n.unread c = n.sent c
    rw [hd, List.append_nil, hflow]
  · intro fd' events c he
    exact h.marks (by rw [hp]; exact he)
  · intro fd' c hp'
    cases hp'
  · intro c hm
    rcases List.mem_append.mp hm with hm | hm
    · exact h.closed hm
    · cases List.mem_singleton.mp hm

end Step

/-! ### The system -/

section Net

variable {n n' : Net} {a : Act} {s' : State}

/-- **A step of the loop thread keeps the account**, when it closes on no mask of a connection with
unread bytes. -/
theorem Flow.server (h : Flow n) (hI : Inv n.server) (hc : cleanAct a)
    (hd : drained n (.server a)) (ha : CanArrive n a) (hs : step n.server a = some s') :
    Flow (n.after a s') := by
  have quiet {p : Point} (hp : n.server.point = p) (hr : ∀ fd evs, p ≠ .read fd evs)
      (hq : p.read? = none) {t : State} : n.after a t = { n with server := t } := by
    refine after_eq ?_ (by rw [hp]; exact hq)
    unfold State.reading
    split
    · rename_i hp'
      exact absurd (hp.symm.trans hp') (hr _ _)
    · rfl
  cases ho : outcome_of_step hs with
  | enter hp | test hp | batchEnd hp =>
    rw [quiet hp nofun rfl]
    exact h.goto (by rw [hp]; rfl) (List.nil_subset _) nofun
  | stop hp =>
    rcases hp with hp | hp <;>
    · rw [quiet hp nofun rfl]
      exact h.goto (by rw [hp]; rfl) (List.nil_subset _) nofun
  | epollWait hp _ =>
    rw [quiet hp nofun rfl]
    exact (h.epollWait hp ha).record nofun
  | @hangup fd events evs hp =>
    rw [quiet hp nofun rfl]
    have hcl := closing_of_hangup hp hs
    refine h.goto (by rw [hp]; rfl) (by rw [hp]; exact List.subset_cons_self ..) fun he hf => ?_
    cases he
    refine ⟨h.marks (by rw [hp]; exact List.mem_cons_self) hcl hf, hd _ ?_⟩
    unfold State.hungUp
    simp only [hp, hcl, if_true]
    exact connOf_eq_some.mpr hf
  | incoming hp _ | readable hp _ | report hp =>
    rw [quiet hp nofun rfl]
    exact h.goto (by rw [hp]; rfl) (by rw [hp]; exact List.subset_cons_self ..) nofun
  | close hp =>
    rw [quiet hp nofun rfl]
    exact h.closeFd (by rw [hp]; rfl) rfl (by rw [hp]; rfl)
      (by rw [hp]; exact List.Subset.refl _) rfl
  | accept hp _ hf =>
    rw [quiet hp nofun rfl]
    exact (h.accept hI hp hf).record nofun
  | acceptAgain hp =>
    rw [quiet hp nofun rfl]
    exact h.pass (by rw [hp]; rfl) (by rw [hp]; exact List.Subset.refl _) nofun nofun
  | acceptError hp =>
    rw [quiet hp nofun rfl]
    exact h.pass (by rw [hp]) (by rw [hp]; exact List.Subset.refl _) nofun nofun
  | getpeername hp | getfl hp | setfl hp =>
    rw [quiet hp nofun rfl]
    exact h.goto (by rw [hp]; rfl) (by rw [hp]; exact List.Subset.refl _) nofun
  | getpeernameFail hp => cases hc
  | clientFail hp => exact absurd rfl (not_clientFail hp hc hs)
  | ctlAdd hp _ =>
    rw [quiet hp nofun rfl]
    exact h.interest.goto (by rw [hp]; rfl) (by rw [hp]; exact List.Subset.refl _) nofun
  | closeClient hp =>
    rw [quiet hp nofun rfl]
    exact h.closeFd (by rw [hp]; rfl) rfl (by rw [hp]; rfl)
      (by rw [hp]; exact List.Subset.refl _) rfl
  | readData hp hsock => exact h.readData hI hp hsock ha
  | readAgain hp =>
    rw [after_eq_of_act (a := .read .again) nofun nofun]
    exact h.pass (by rw [hp]; rfl) (by rw [hp]; exact List.Subset.refl _) nofun nofun
  | readStop hp =>
    obtain rfl := eof_of_readStop hp hc hs
    rw [after_eq_of_act (a := .read .eof) nofun nofun]
    refine h.pass (by rw [hp]; rfl) (by rw [hp]; exact List.Subset.refl _) ?_ nofun
    intro fd' c he hf
    cases he
    have hr : n.server.reading = some c := by
      unfold State.reading
      simp only [hp]
      exact connOf_eq_some.mpr hf
    exact (ha c hr).symm
  | hasCallback hp =>
    rw [after_eq_of_act (a := .testCallback) nofun nofun]
    exact h.goto (by rw [hp]; rfl) (by rw [hp]; exact List.Subset.refl _) nofun
  | noCallback hp hcb | terminate hp hcb =>
    rw [h.callback] at hcb
    cases hcb
  | callback hp => exact h.call hI.point hp
  | noFd hp _ =>
    rw [quiet hp nofun rfl]
    exact h.goto (by rw [hp]; rfl) (by rw [hp]; exact List.Subset.refl _) nofun
  | write hp _ _ | writeAgain hp _ =>
    rw [quiet hp nofun rfl]
    exact h.pass (by rw [hp]; rfl) (by rw [hp]; exact List.Subset.refl _) nofun nofun
  | writeError hp _ => exact absurd rfl hc
  | closeSend hp =>
    have hw := hI.point
    rw [hp] at hw
    exact hw.elim

/-- A client that still sends is not done. -/
theorem Flow.send {c : Conn} {bytes : List UInt8} (h : Flow n) (hfin : n.fin c = false) :
    Flow { n with sent := Function.update n.sent c (n.sent c ++ bytes)
                  unread := Function.update n.unread c (n.unread c ++ bytes) } := by
  have hdone {d : Conn} (hd : n.Drained d) : n.fin d = true ∧
      Function.update n.unread c (n.unread c ++ bytes) d = [] := by
    have hne : d ≠ c := by
      rintro rfl
      rw [hd.1] at hfin
      cases hfin
    rw [Function.update_of_ne hne]
    exact hd
  refine ⟨h.callback, fun d => ?_, h.marks, fun hp hf => hdone (h.closing hp hf),
    fun hm => hdone (h.closed hm)⟩
  have hflow := h.flow d
  by_cases hd : d = c
  · subst hd
    simp only [Function.update_self, ← hflow, List.append_assoc]
  · simp only [Function.update_of_ne hd, hflow]

theorem Flow.shut {c : Conn} (h : Flow n) :
    Flow { n with fin := Function.update n.fin c true } := by
  have hmono {d : Conn} (hd : n.fin d = true) : Function.update n.fin c true d = true := by
    rw [Function.update_apply]
    split
    · rfl
    · exact hd
  exact ⟨h.callback, h.flow, fun he hm hf => hmono (h.marks he hm hf),
    fun hp hf => ⟨hmono (h.closing hp hf).1, (h.closing hp hf).2⟩,
    fun hm => ⟨hmono (h.closed hm).1, (h.closed hm).2⟩⟩

theorem unbroken_of_clean {s : State} (h : cleanAct a) : unbroken s a := by
  cases a with
  | getpeername ok => exact ⟨h, trivial⟩
  | write res => exact ⟨trivial, h⟩
  | _ => exact ⟨trivial, trivial⟩

theorem flow_step {a : NetAct} (hI : Inv n.server) (h : Flow n) (hc : clean n a) (hd : drained n a)
    (hs : netStep n a = some n') : Inv n'.server ∧ Flow n' := by
  cases a with
  | send c bytes =>
    simp only [netStep, Option.ite_none_right_eq_some, Option.some.injEq] at hs
    obtain ⟨hfin, rfl⟩ := hs
    exact ⟨hI, h.send hfin⟩
  | shut c =>
    simp only [netStep, Option.ite_none_right_eq_some, Option.some.injEq] at hs
    obtain ⟨-, rfl⟩ := hs
    exact ⟨hI, h.shut⟩
  | server a =>
    simp only [netStep, Option.ite_none_right_eq_some, Option.map_eq_some_iff] at hs
    obtain ⟨ha, s', hs, rfl⟩ := hs
    exact ⟨inv_step hI (unbroken_of_clean hc) hs, h.server hI hc hd ha hs⟩

/-- What a closed connection was sent is what the callback got. -/
theorem Flow.delivered (h : Flow n) (hI : Inv n.server) : Delivered n := by
  intro c hm
  have hnone : n.server.undelivered c = [] := by
    unfold State.undelivered
    split
    · rw [if_neg fun hf => not_closed_of_open hI hf hm]
    · rfl
  have hflow := h.flow c
  rwa [hnone, (h.closed hm).2, List.append_nil, List.append_nil] at hflow

/-- **Everything is delivered before the descriptor is closed**, in every run in which a connection
has no unread bytes when the loop looks at a closing mask of it. -/
theorem delivered_of_drained {as : List NetAct}
    (h : Run netStep (fun n a => clean n a ∧ drained n a) netInit as n) : Delivered n := by
  have hIF : Inv n.server ∧ Flow n :=
    h.invariant (I := fun n => Inv n.server ∧ Flow n) ⟨init_inv, netInit_flow⟩
      fun _ _ _ hI hg hs => flow_step hI.1 hI.2 hg.1 hg.2 hs
  exact hIF.2.delivered hIF.1

end Net

/-- Two bytes are read before the client half-closes; then the loop gets the closing mask. -/
def drainedRun : List NetAct :=
  List.flatten [[.calloc true, .test, .epollWait [(4, .readable)], .dispatch,
      .accept (.ok 5), .getpeername true, .getfl true, .setfl true, .ctlAdd true, .accept .again,
      .dispatch, .test].map .server,
    [.send 0 [104, 105]],
    [.epollWait [(5, .readable)], .dispatch, .read (.data [104, 105]), .testCallback, .callback,
      .write (.ok 2), .read .again, .dispatch, .test].map .server,
    [.shut 0],
    [.epollWait [(5, ⟨false, false, true, true, false⟩)], .dispatch, .close].map .server]

theorem delivered_of_drained_two : ∃ n,
    Run netStep (fun n a => clean n a ∧ drained n a) netInit drainedRun n ∧
    (.close (some (.sock 0)) ∈ n.server.log ∧ n.sent 0 = [104, 105]) ∧ Delivered n := by
  obtain ⟨n, hr, hp⟩ : ∃ n, Run netStep (fun n a => clean n a ∧ drained n a) netInit drainedRun n ∧
      .close (some (.sock 0)) ∈ n.server.log ∧ n.sent 0 = [104, 105] :=
    Run.exists_of_exec _ _ (by decide)
  exact ⟨n, hr, hp, delivered_of_drained hr⟩

/-! ## Without the guard -/

/-- `EPOLLIN` and `EPOLLRDHUP` in one mask: the client sent two bytes and closed. -/
def lossRun : List NetAct :=
  List.flatten [[.calloc true, .test, .epollWait [(4, .readable)], .dispatch,
      .accept (.ok 5), .getpeername true, .getfl true, .setfl true, .ctlAdd true, .accept .again,
      .dispatch, .test].map .server,
    [.send 0 [104, 105], .shut 0],
    [.epollWait [(5, ⟨false, false, true, true, false⟩)], .dispatch, .close].map .server]

def netLowestFree (n : Net) : NetAct → Prop
  | .server a => lowestFree n.server a
  | _ => True

instance (n : Net) (a : NetAct) : Decidable (netLowestFree n a) := by
  induction a using NetAct.casesOn <;> unfold netLowestFree <;> infer_instance

/-- **The two bytes are lost.** -/
theorem not_delivered : ¬ ∀ as n,
    Run netStep (fun n a => clean n a ∧ netLowestFree n a) netInit as n → Delivered n := by
  intro h
  obtain ⟨n, hr, hc, hd, hs⟩ : ∃ n,
      Run netStep (fun n a => clean n a ∧ netLowestFree n a) netInit lossRun n ∧
      .close (some (.sock 0)) ∈ n.server.log ∧ n.delivered 0 = [] ∧ n.sent 0 = [104, 105] :=
    Run.exists_of_exec _ _ (by decide)
  have := h _ _ hr 0 hc
  rw [hd, hs] at this
  cases this

end PracticeCode.EpollTcpServer
