import PracticeCode.EpollTcpClient.Defs
import PracticeCode.EpollTcpServer.Delivery
import PracticeCode.EpollTcpServer.Echo

/-!
# The client and the server of `epoll_demo` together

A server and any number of clients, each with its two threads (`World`).  The `c`-th client that
connects is called `c`, and its connection too.  The logs say what each side has written to the
connection and read from it, so the streams need no state of their own: a `read` returns the next
bytes of what the other side has written.  How a stream is cut into pieces, and when it ends, is
left open.

`client_echo`: whatever the order of the steps, a client prints a subsequence of the bytes that it
sent: nothing of another client, nothing twice, nothing out of order.  It is a prefix where the
server's `write`s to the client were whole, and all of it when nothing is on its way.
-/

namespace PracticeCode.EpollTcpClient

open Lib Linux
open EpollTcpServer (received written Whole whole_append connOf_eq_some)

/-! ## The server -/

section Server

variable {s s' : EpollTcpServer.State} {a : EpollTcpServer.Act} {c : Conn}

/-- What a step of the server does with the bytes of the connection `c`. -/
inductive Moves (s : EpollTcpServer.State) (a : EpollTcpServer.Act) (s' : EpollTcpServer.State)
    (c : Conn) : Prop
  | still : s'.inFlight c = s.inFlight c → received s'.log c = received s.log c →
      written s'.log c = written s.log c → (Whole s'.log c → Whole s.log c) → Moves s a s' c
  | read {chunk} : a = .read (.data chunk) → s.reading = some c → s.inFlight c = [] →
      s'.inFlight c = chunk → received s'.log c = received s.log c ++ chunk →
      written s'.log c = written s.log c → (Whole s'.log c → Whole s.log c) → Moves s a s' c
  -- a packet is taken to `write`, and `n` bytes of it are accepted
  | write {n} : s'.inFlight c = [] → received s'.log c = received s.log c →
      written s'.log c = written s.log c ++ (s.inFlight c).take n →
      (Whole s'.log c → Whole s.log c ∧ (s.inFlight c).take n = s.inFlight c) → Moves s a s' c

/-- The bytes that were read are those that were offered to `write` and those in flight; of the
offered ones some were left out, and none where every `write` was whole. -/
structure Copied (s : EpollTcpServer.State) : Prop where
  callback : s.self.recv_callback_ = some .recv_call
  packet : ∀ {data fd}, s.point.packet = some (data, fd) → data.fd = some fd
  copied : ∀ c, ∃ r, received s.log c = r ++ s.inFlight c ∧ (written s.log c).Sublist r ∧
    (Whole s.log c → written s.log c = r)

/-- A step that logs nothing. -/
theorem Moves.of_log (hf : s'.inFlight c = s.inFlight c) (hl : s'.log = s.log) :
    Moves s a s' c :=
  .still hf (by rw [hl]) (by rw [hl]) (by rw [hl]; exact id)

/-- A step that logs a call which moves no byte. -/
theorem Moves.of_still {o : EpollTcpServer.Op} (ho : o.Still)
    (hf : s'.inFlight c = s.inFlight c) (hl : s'.log = s.log ++ [o]) : Moves s a s' c := by
  obtain ⟨hr, hw, -⟩ := ho c
  refine .still hf ?_ ?_ fun h => ?_
  · rw [hl, EpollTcpServer.received_append, hr, List.append_nil]
  · rw [hl, EpollTcpServer.written_append, hw, List.append_nil]
  · rw [hl] at h
    exact (whole_append.mp h).1

/-- No packet is in flight before and after. -/
theorem inFlight_eq (h : s.point.packet = none) (h' : s'.point.packet = none) :
    s'.inFlight c = s.inFlight c := by
  rw [EpollTcpServer.inFlight_of_none h, EpollTcpServer.inFlight_of_none h']

/-- The same packet is in flight before and after. -/
theorem inFlight_congr (h : s'.point.packet = s.point.packet) (hf : s'.files = s.files) :
    s'.inFlight c = s.inFlight c := by
  unfold EpollTcpServer.State.inFlight
  rw [h, hf]

theorem moves_read {fd : Fd} {evs : List EpollTcpServer.Event} {chunk : List UInt8}
    (hp : s.point = .read fd evs) :
    Moves s (.read (.data chunk)) ((s.goto (.testCallback ⟨some fd, chunk⟩ fd evs)).record
      (.read (s.files fd) chunk)) c := by
  have hnone : s.inFlight c = [] := EpollTcpServer.inFlight_of_none (by rw [hp]; rfl)
  have hfl : ((s.goto (.testCallback ⟨some fd, chunk⟩ fd evs)).record
      (.read (s.files fd) chunk)).inFlight c =
      if s.files fd = some (.sock c) then chunk else [] := rfl
  have hrec : (EpollTcpServer.Op.read (s.files fd) chunk).received c =
      if s.files fd = some (.sock c) then chunk else [] := rfl
  have hwr : (EpollTcpServer.Op.read (s.files fd) chunk).written c = [] := rfl
  by_cases e : s.files fd = some (.sock c)
  · refine .read rfl ?_ hnone ?_ ?_ ?_ fun h => (whole_append.mp h).1
    · unfold EpollTcpServer.State.reading
      rw [hp]
      exact connOf_eq_some.mpr e
    · rw [hfl, if_pos e]
    · rw [EpollTcpServer.log_record_goto, EpollTcpServer.received_append, hrec, if_pos e]
    · rw [EpollTcpServer.log_record_goto, EpollTcpServer.written_append, hwr, List.append_nil]
  · refine .still ?_ ?_ ?_ fun h => (whole_append.mp h).1
    · rw [hfl, if_neg e, hnone]
    · rw [EpollTcpServer.log_record_goto, EpollTcpServer.received_append, hrec, if_neg e,
        List.append_nil]
    · rw [EpollTcpServer.log_record_goto, EpollTcpServer.written_append, hwr, List.append_nil]

theorem moves_write {data : EpollTcpServer.Packet} {fd : Fd} {p : EpollTcpServer.Point}
    {res : Option ℕ} (hp : s.point.packet = some (data, fd)) (hp' : p.packet = none) :
    Moves s a ((s.goto p).record (.write (s.files fd) data.msg res)) c := by
  have hfl := EpollTcpServer.inFlight_of_packet (c := c) hp
  have hfl' : ((s.goto p).record (.write (s.files fd) data.msg res)).inFlight c = [] :=
    EpollTcpServer.inFlight_of_none hp'
  have hrec : received ((s.goto p).record (.write (s.files fd) data.msg res)).log c =
      received s.log c := by
    rw [EpollTcpServer.log_record_goto, EpollTcpServer.received_append]
    exact List.append_nil _
  by_cases e : s.files fd = some (.sock c)
  · rw [if_pos e] at hfl
    -- a `write` that fails accepts as much as one that returns 0
    refine .write (n := res.getD 0) hfl' hrec ?_ fun h => ?_
    · rw [EpollTcpServer.log_record_goto, EpollTcpServer.written_append, hfl]
      cases res with
      | none => simp [EpollTcpServer.Op.written]
      | some n => simp [EpollTcpServer.Op.written, e]
    · obtain ⟨hw, hlast⟩ := whole_append.mp h
      have hres : res = some data.msg.length := by
        by_contra hne
        exact hlast ⟨e, hne⟩
      rw [hfl, hres]
      exact ⟨hw, List.take_length⟩
  · rw [if_neg e] at hfl
    refine .still (hfl'.trans hfl.symm) hrec ?_ fun h => (whole_append.mp h).1
    rw [EpollTcpServer.log_record_goto, EpollTcpServer.written_append]
    cases res with
    | none => exact List.append_nil _
    | some n => rw [EpollTcpServer.Op.written, if_neg e, List.append_nil]

/-- **One step of the server.** -/
theorem moves_step (h : Copied s) (hs : EpollTcpServer.step s a = some s') (c : Conn) :
    Moves s a s' c := by
  cases EpollTcpServer.outcome_of_step hs with
  | enter hp | test hp | batchEnd hp | hangup hp | report hp | incoming hp _ | readable hp _ =>
    exact .of_log (inFlight_congr (by rw [hp]; rfl) rfl) rfl
  | getpeername hp | getpeernameFail hp | getfl hp | setfl hp | hasCallback hp =>
    exact .of_log (inFlight_congr (by rw [hp]; rfl) rfl) rfl
  | stop hp =>
    exact .of_log (inFlight_congr (by rcases hp with hp | hp <;> rw [hp] <;> rfl) rfl) rfl
  | clientFail hp =>
    exact .of_log (inFlight_congr (by rcases hp with hp | hp | hp <;> rw [hp] <;> rfl) rfl) rfl
  | terminate hp hc | noCallback hp hc =>
    rw [h.callback] at hc
    cases hc
  | noFd hp hd =>
    rw [h.packet (by rw [hp]; rfl)] at hd
    cases hd
  | ctlAdd hp _ => exact .of_log (inFlight_eq (by rw [hp]; rfl) rfl) rfl
  | epollWait hp _ =>
    exact .of_still (EpollTcpServer.still_epollWait _) (inFlight_eq (by rw [hp]; rfl) rfl) rfl
  | acceptAgain hp | acceptError hp | accept hp _ _ =>
    exact .of_still (EpollTcpServer.still_accept _) (inFlight_eq (by rw [hp]; rfl) rfl) rfl
  | close hp | closeClient hp | closeSend hp =>
    exact .of_still (EpollTcpServer.still_close _) (inFlight_eq (by rw [hp]; rfl) rfl) rfl
  | readAgain hp | readStop hp =>
    exact .of_still (EpollTcpServer.still_read _) (inFlight_eq (by rw [hp]; rfl) rfl) rfl
  | callback hp =>
    exact .of_still (EpollTcpServer.still_callback _) (inFlight_congr (by rw [hp]; rfl) rfl) rfl
  | readData hp _ => exact moves_read hp
  | @write n data sfd fd evs hp hd _ =>
    have hpk : s.point.packet = some (data, fd) := by rw [hp]; rfl
    obtain rfl : sfd = fd := Option.some.inj (hd.symm.trans (h.packet hpk))
    exact moves_write hpk rfl
  | @writeAgain data sfd fd evs hp hd | @writeError data sfd fd evs hp hd =>
    have hpk : s.point.packet = some (data, fd) := by rw [hp]; rfl
    obtain rfl : sfd = fd := Option.some.inj (hd.symm.trans (h.packet hpk))
    exact moves_write hpk rfl

theorem callback_step (h : Copied s) (hs : EpollTcpServer.step s a = some s') :
    s'.self.recv_callback_ = some .recv_call := by
  cases EpollTcpServer.outcome_of_step hs <;> exact h.callback

theorem packet_step (h : Copied s) (hs : EpollTcpServer.step s a = some s')
    {data : EpollTcpServer.Packet} {fd : Fd} (hpk : s'.point.packet = some (data, fd)) :
    data.fd = some fd := by
  cases EpollTcpServer.outcome_of_step hs with
  | readData hp _ =>
    cases hpk
    rfl
  | hasCallback hp | callback hp =>
    cases hpk
    exact h.packet (by rw [hp]; rfl)
  | _ => cases hpk

theorem copied_step (h : Copied s) (hs : EpollTcpServer.step s a = some s') : Copied s' := by
  refine ⟨callback_step h hs, packet_step h hs, fun c => ?_⟩
  obtain ⟨r, hr, hsub, hw⟩ := h.copied c
  cases moves_step h hs c with
  | still hfl hrec hwr hwhole =>
    refine ⟨r, by rw [hrec, hfl, hr], by rw [hwr]; exact hsub, fun h' => ?_⟩
    rw [hwr, hw (hwhole h')]
  | read _ _ hnone hfl hrec hwr hwhole =>
    rw [hnone, List.append_nil] at hr
    refine ⟨r, by rw [hrec, hfl, hr], by rw [hwr]; exact hsub, fun h' => ?_⟩
    rw [hwr, hw (hwhole h')]
  | write hfl hrec hwr hwhole =>
    refine ⟨r ++ s.inFlight c, by rw [hrec, hfl, hr, List.append_nil], ?_, fun h' => ?_⟩
    · rw [hwr]
      exact hsub.append (List.take_sublist ..)
    · obtain ⟨hold, htake⟩ := hwhole h'
      rw [hwr, hw hold, htake]

theorem init_copied : Copied EpollTcpServer.init :=
  ⟨rfl, nofun, fun _ => ⟨[], rfl, List.Sublist.refl _, fun _ => rfl⟩⟩

theorem written_mono (h : Copied s) (hs : EpollTcpServer.step s a = some s') (c : Conn) :
    written s.log c <+: written s'.log c := by
  cases moves_step h hs c with
  | still _ _ hwr _ | read _ _ _ _ _ hwr _ => exact hwr ▸ List.prefix_refl _
  | write _ _ hwr _ =>
    rw [hwr]
    exact List.prefix_append ..

end Server

/-! ## One client -/

/-- The bytes that the connection accepted from the client. -/
def Op.accepted : Op → List UInt8
  | .write _ msg (some n) => msg.take n
  | _ => []

/-- The bytes that the client read. -/
def Op.got : Op → List UInt8
  | .read _ chunk => chunk
  | _ => []

/-- The bytes that `recv_call` printed. -/
def Op.printed : Op → List UInt8
  | .callback data => data.msg
  | _ => []

def accepted (log : List Op) : List UInt8 := log.flatMap Op.accepted

def got (log : List Op) : List UInt8 := log.flatMap Op.got

def printed (log : List Op) : List UInt8 := log.flatMap Op.printed

/-- The packet that was read and is not printed yet. -/
def LoopPoint.inHand : LoopPoint → List UInt8
  | .testCallback data _ _ | .callback data _ _ => data.msg
  | _ => []

/-- `main` is in `Start`. -/
def MainPoint.starting : MainPoint → Bool
  | .createEpoll | .createSocket | .connect _ | .ctlAdd | .spawn => true
  | _ => false

/-- The loop thread has begun and has not ended. -/
def LoopPoint.running : LoopPoint → Bool
  | .none | .done => false
  | _ => true

/-- What was read is printed, but for the packet in hand; the end of the process loses that. -/
structure Printing (s : State) : Prop where
  callback : s.self.recv_callback_ = some .recv_call
  noLoop : s.main.starting = true → s.loop = .none
  prefix_got : printed s.log <+: got s.log
  printed_got : s.loop ≠ .done → printed s.log ++ s.loop.inHand = got s.log

section Client

variable {s s' : State} {a : Act} {c : Conn}

@[simp] theorem accepted_append {log : List Op} {o : Op} :
    accepted (log ++ [o]) = accepted log ++ o.accepted := by
  simp [accepted]

@[simp] theorem got_append {log : List Op} {o : Op} :
    got (log ++ [o]) = got log ++ o.got := by
  simp [got]

@[simp] theorem printed_append {log : List Op} {o : Op} :
    printed (log ++ [o]) = printed log ++ o.printed := by
  simp [printed]

theorem accepted_mono (hs : step c s a = some s') : accepted s.log <+: accepted s'.log := by
  cases outcome_of_step hs <;> simp [State.record, State.closeFd, State.exit]

theorem got_step (hs : step c s a = some s') :
    got s'.log = got s.log ∨
      ∃ chunk, a = .read (.data chunk) ∧ got s'.log = got s.log ++ chunk := by
  cases outcome_of_step hs with
  | readData hp _ => exact .inr ⟨_, rfl, got_append⟩
  | _ => exact .inl (by simp [State.record, State.closeFd, State.exit, Op.got])

/-- A step of `main`. -/
theorem Printing.main {files : Fd → Option File} {interest : Fd → Bool} {self : Client}
    {main : MainPoint} (h : Printing s) (hself : self.recv_callback_ = s.self.recv_callback_)
    (hmain : main.starting = true → s.main.starting = true) :
    Printing ⟨files, interest, self, main, s.loop, s.log⟩ :=
  ⟨hself.trans h.callback, fun hm => h.noLoop (hmain hm), h.prefix_got, h.printed_got⟩

/-- A step of the loop thread that neither takes a packet nor gives one away. -/
theorem Printing.loop {p : LoopPoint} (h : Printing s) (hrun : s.loop.running = true)
    (hp : p.inHand = s.loop.inHand) : Printing { s with loop := p } := by
  refine ⟨h.callback, ?_, h.prefix_got, ?_⟩
  · intro hm
    rw [h.noLoop hm] at hrun
    cases hrun
  · intro _
    show printed s.log ++ p.inHand = got s.log
    rw [hp]
    apply h.printed_got
    intro hd
    rw [hd] at hrun
    cases hrun

/-- A call that neither reads nor prints a byte. -/
theorem Printing.record {o : Op} (h : Printing s) (hpr : o.printed = []) (hgot : o.got = []) :
    Printing (s.record o) := by
  have hpr' : printed (s.record o).log = printed s.log := by
    rw [State.record, printed_append, hpr, List.append_nil]
  have hgot' : got (s.record o).log = got s.log := by
    rw [State.record, got_append, hgot, List.append_nil]
  refine ⟨h.callback, h.noLoop, ?_, ?_⟩
  · rw [hpr', hgot']
    exact h.prefix_got
  · rw [hpr', hgot']
    exact h.printed_got

theorem Printing.closeFd {fd : Fd} (h : Printing s) : Printing (s.closeFd fd) :=
  (h.main rfl id).record (o := .close (s.files fd)) rfl rfl

theorem Printing.exit (h : Printing s) : Printing s.exit :=
  ⟨h.callback, fun hm => Bool.noConfusion hm, h.prefix_got, fun hd => absurd rfl hd⟩

/-- **One step of the client.** -/
theorem printing_step (h : Printing s) (hs : step c s a = some s') : Printing s' := by
  cases outcome_of_step hs with
  | exit => exact h.exit
  | createEpoll hp _ | createSocket hp _ | connect hp | ctlAdd hp _ _ =>
    exact h.main rfl fun _ => by rw [hp]; rfl
  | ctlAddFail hp _ => exact h.closeFd.exit
  | getline hp => exact h.main rfl Bool.noConfusion
  | write hp _ _ _ | writeError hp _ => exact (h.main rfl Bool.noConfusion).record rfl rfl
  | closeSend hp _ => exact h.closeFd.main rfl Bool.noConfusion
  | spawn hp =>
    -- there is no loop thread before this step, so nothing is in hand
    have hl := h.noLoop (by rw [hp]; rfl)
    have heq := h.printed_got (by rw [hl]; exact LoopPoint.noConfusion)
    rw [hl] at heq
    exact ⟨h.callback, Bool.noConfusion, h.prefix_got, fun _ => heq⟩
  | go hp hp' =>
    apply h.loop
    · rcases hp with hp | hp | hp <;> rw [hp] <;> rfl
    · rcases hp with hp | hp | hp <;> rcases hp' with rfl | rfl | rfl <;> rw [hp] <;> rfl
  | epollWait hp _ | hasCallback hp => exact h.loop (by rw [hp]; rfl) (by rw [hp]; rfl)
  | dispatch hp =>
    refine (h.loop (by rw [hp]; rfl) ?_).record rfl rfl
    rw [hp]
    unfold branch
    split_ifs <;> rfl
  | @close fd evs hp =>
    have hrun : (s.closeFd fd).loop.running = true := by
      show s.loop.running = true
      rw [hp]
      rfl
    refine h.closeFd.loop hrun ?_
    show _ = s.loop.inHand
    rw [hp]
    rfl
  | readStop hp => exact (h.loop (by rw [hp]; rfl) (by rw [hp]; rfl)).record rfl rfl
  | noCallback hp hc =>
    rw [h.callback] at hc
    cases hc
  | readData hp _ =>
    have heq := h.printed_got (by rw [hp]; exact LoopPoint.noConfusion)
    rw [hp] at heq
    refine ⟨h.callback, fun hm => ?_, ?_, fun _ => ?_⟩
    · have := h.noLoop hm
      rw [hp] at this
      cases this
    · simpa [State.record, Op.printed, Op.got] using h.prefix_got.trans (List.prefix_append ..)
    · simpa [State.record, Op.printed, Op.got, LoopPoint.inHand] using heq
  | callback hp =>
    have heq := h.printed_got (by rw [hp]; exact LoopPoint.noConfusion)
    rw [hp] at heq
    refine ⟨h.callback, fun hm => ?_, ?_, fun _ => ?_⟩
    · have := h.noLoop hm
      rw [hp] at this
      cases this
    · simpa [State.record, Op.printed, Op.got, LoopPoint.inHand] using heq ▸ List.prefix_refl _
    · simpa [State.record, Op.printed, Op.got, LoopPoint.inHand] using heq

theorem init_printing : Printing init :=
  ⟨rfl, fun _ => rfl, List.nil_prefix, fun _ => rfl⟩

end Client

/-! ## All of them -/

structure World where
  server : EpollTcpServer.State
  clients : Conn → State

inductive WorldAct where
  | server (a : EpollTcpServer.Act)
  | client (c : Conn) (a : Act)
  deriving DecidableEq

/-- `accept` returns a connection that was made, and `read` the next bytes that the client wrote. -/
def CanServe (w : World) : EpollTcpServer.Act → Prop
  | .accept (.ok _) => (w.clients w.server.conns).self.handle_.isSome = true
  | .read (.data chunk) => ∀ c ∈ w.server.reading,
    received w.server.log c ++ chunk <+: accepted (w.clients c).log
  | _ => True

/-- Connections are numbered in the order in which they are made, and `read` returns the next bytes
that the server wrote. -/
def CanRun (w : World) (c : Conn) : Act → Prop
  | .connect true => ∀ d < c, (w.clients d).self.handle_.isSome = true
  | .read (.data chunk) => got (w.clients c).log ++ chunk <+: written w.server.log c
  | _ => True

instance (w : World) : DecidablePred (CanServe w) := fun a => by
  induction a using EpollTcpServer.Act.casesOn with
  | accept res => induction res using EpollTcpServer.AcceptResult.casesOn <;> unfold CanServe <;>
      infer_instance
  | read res => induction res using EpollTcpServer.ReadResult.casesOn <;> unfold CanServe <;>
      infer_instance
  | _ => exact isTrue trivial

instance (w : World) (c : Conn) : DecidablePred (CanRun w c) := fun a => by
  induction a using Act.casesOn with
  | connect ok => induction ok using Bool.casesOn <;> unfold CanRun <;> infer_instance
  | read res => induction res using EpollTcpServer.ReadResult.casesOn <;> unfold CanRun <;>
      infer_instance
  | _ => exact isTrue trivial

def worldStep (w : World) : WorldAct → Option World
  | .server a =>
    if CanServe w a then
      (EpollTcpServer.step w.server a).map fun s => { w with server := s }
    else none
  | .client c a =>
    if CanRun w c a then
      (step c (w.clients c) a).map fun s => { w with clients := Function.update w.clients c s }
    else none

def worldInit : World := ⟨EpollTcpServer.init, fun _ => init⟩

/-- What one side has read of a connection is the beginning of what the other wrote. -/
structure Talk (w : World) : Prop where
  server : Copied w.server
  client : ∀ c, Printing (w.clients c)
  up : ∀ c, received w.server.log c <+: accepted (w.clients c).log
  down : ∀ c, got (w.clients c).log <+: written w.server.log c

section World

variable {w w' : World} {c : Conn}

theorem Talk.serve {a : EpollTcpServer.Act} {s : EpollTcpServer.State} (h : Talk w)
    (hc : CanServe w a) (hs : EpollTcpServer.step w.server a = some s) :
    Talk { w with server := s } := by
  refine ⟨copied_step h.server hs, h.client, fun c => ?_, fun c => ?_⟩
  · cases moves_step h.server hs c with
    | still _ hrec _ _ | write _ hrec _ _ =>
      rw [hrec]
      exact h.up c
    | read ha hr _ _ hrec _ _ =>
      subst ha
      rw [hrec]
      exact hc c hr
  · exact (h.down c).trans (written_mono h.server hs c)

theorem Talk.run {a : Act} {s : State} (h : Talk w) (hc : CanRun w c a)
    (hs : step c (w.clients c) a = some s) :
    Talk { w with clients := Function.update w.clients c s } := by
  refine ⟨h.server, fun d => ?_, fun d => ?_, fun d => ?_⟩
  all_goals rcases eq_or_ne d c with rfl | hne
  · simpa using printing_step (h.client d) hs
  · simpa [hne] using h.client d
  · simpa using (h.up d).trans (accepted_mono hs)
  · simpa [hne] using h.up d
  · obtain hg | ⟨chunk, rfl, hg⟩ := got_step hs
    · simpa [hg] using h.down d
    · have : got (w.clients d).log ++ chunk <+: written w.server.log d := hc
      simpa [hg] using this
  · simpa [hne] using h.down d

theorem talk_step {a : WorldAct} (h : Talk w) (hs : worldStep w a = some w') : Talk w' := by
  cases a with
  | server a =>
    simp only [worldStep, Option.ite_none_right_eq_some, Option.map_eq_some_iff] at hs
    obtain ⟨hc, s, hs, rfl⟩ := hs
    exact h.serve hc hs
  | client c a =>
    simp only [worldStep, Option.ite_none_right_eq_some, Option.map_eq_some_iff] at hs
    obtain ⟨hc, s, hs, rfl⟩ := hs
    exact h.run hc hs

theorem worldInit_talk : Talk worldInit :=
  ⟨init_copied, fun _ => init_printing, fun _ => List.nil_prefix, fun _ => List.nil_prefix⟩

end World

/-- No byte of the connection `c` is on its way: everything written was read, and no packet is
between `read` and `write`, or between `read` and `recv_call`. -/
structure World.Quiet (w : World) (c : Conn) : Prop where
  up : received w.server.log c = accepted (w.clients c).log
  server : w.server.inFlight c = []
  down : got (w.clients c).log = written w.server.log c
  client : (w.clients c).loop ≠ .done ∧ (w.clients c).loop.inHand = []

instance (w : World) (c : Conn) : Decidable (w.Quiet c) :=
  decidable_of_iff (received w.server.log c = accepted (w.clients c).log ∧
      w.server.inFlight c = [] ∧ got (w.clients c).log = written w.server.log c ∧
      (w.clients c).loop ≠ .done ∧ (w.clients c).loop.inHand = [])
    ⟨fun h => ⟨h.1, h.2.1, h.2.2.1, h.2.2.2⟩, fun h => ⟨h.up, h.server, h.down, h.client⟩⟩

/-- **What a client prints is an echo of what it sent**: a subsequence of it, whatever the order of
the steps; a prefix, where each packet for it was accepted whole by the one `write` that it gets;
and then all of it, when nothing is on its way. -/
theorem client_echo {as : List WorldAct} {w : World} (h : Run worldStep free worldInit as w)
    (c : Conn) :
    (printed (w.clients c).log).Sublist (accepted (w.clients c).log) ∧
      (Whole w.server.log c → printed (w.clients c).log <+: accepted (w.clients c).log ∧
        (w.Quiet c → printed (w.clients c).log = accepted (w.clients c).log)) := by
  have hT : Talk w := h.invariant (I := Talk) worldInit_talk fun _ _ _ hT _ hs => talk_step hT hs
  obtain ⟨r, hr, hsub, hwhole⟩ := hT.server.copied c
  have hread : r <+: accepted (w.clients c).log := by
    refine List.IsPrefix.trans ?_ (hT.up c)
    rw [hr]
    exact List.prefix_append ..
  have hprinted : printed (w.clients c).log <+: written w.server.log c :=
    (hT.client c).prefix_got.trans (hT.down c)
  refine ⟨hprinted.sublist.trans (hsub.trans hread.sublist), fun hw => ⟨?_, fun hq => ?_⟩⟩
  · rw [hwhole hw] at hprinted
    exact hprinted.trans hread
  · have hgot := (hT.client c).printed_got hq.client.1
    rw [hq.client.2, List.append_nil] at hgot
    rw [hgot, hq.down, hwhole hw, ← hq.up, hr, hq.server, List.append_nil]

/-- `Start`, a line that is accepted whole, and the loop thread up to `epoll_wait`. -/
def lineRun (c : Conn) (msg : List UInt8) : List WorldAct :=
  [.createEpoll (some 3), .createSocket (some 4), .connect true, .ctlAdd true, .spawn true,
    .getline msg, .write (.ok msg.length), .calloc true, .test].map (.client c)

/-- The server reads the line of the first client in two pieces; the second client waits in the
backlog. -/
def echoRun : List WorldAct :=
  lineRun 0 [1, 2, 3] ++ lineRun 1 [9] ++
    ([.calloc true, .test, .epollWait [(4, .readable)], .dispatch,
      .accept (.ok 5), .getpeername true, .getfl true, .setfl true, .ctlAdd true, .accept .again,
      .dispatch, .test, .epollWait [(5, .readable)], .dispatch,
      .read (.data [1, 2]), .testCallback, .callback, .write (.ok 2),
      .read (.data [3]), .testCallback, .callback, .write (.ok 1)] :
        List EpollTcpServer.Act).map .server ++
    [.epollWait [(4, .readable)], .dispatch, .read (.data [1, 2, 3]), .testCallback,
      .callback].map (.client 0)

theorem client_echo_line : ∃ w, Run worldStep free worldInit echoRun w ∧
    (accepted (w.clients 0).log = [1, 2, 3] ∧ Whole w.server.log 0 ∧ w.Quiet 0) ∧
    printed (w.clients 0).log = [1, 2, 3] := by
  obtain ⟨w, hr, hp⟩ : ∃ w, Run worldStep free worldInit echoRun w ∧
      accepted (w.clients 0).log = [1, 2, 3] ∧ Whole w.server.log 0 ∧ w.Quiet 0 :=
    Run.exists_of_exec _ _ (by decide)
  refine ⟨w, hr, hp, ?_⟩
  rw [((client_echo hr 0).2 hp.2.1).2 hp.2.2, hp.1]

end PracticeCode.EpollTcpClient
