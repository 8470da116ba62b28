import PracticeCode.EpollServer.Defs
import PracticeCode.NonblockingServer.Defs
import PracticeCode.PollServer.Defs
import PracticeCode.SelectServer.Defs

/-!
# The four echo servers send back full buffers

The loops of `select`, `poll`, `epoll` and `2.nonblocking` clear the buffer, `recv` into it and send
the whole buffer back.  `View` is what the law needs of a state: the connections, the log, and the
reply that is about to be sent; `Tracks` says that the log is one of an echo server, and every step
of each server keeps it.

`replied_eq_received_iff`: with a `send` that accepts what it is given, the client gets its stream
back exactly when every `recv` returned 1024 bytes.
-/

namespace PracticeCode.EchoServers

open Lib Linux

/-- What the echo law needs of a state. -/
structure View where
  files : Fd → Option Conn
  log : List Call
  sending : Option (Fd × List UInt8)

/-- The log is one of an echo server, and the reply that is about to be sent is the one it lacks. -/
def Tracks (v : View) : Prop :=
  match v.sending with
  | none => Echoes v.log none
  | some (fd, buf) => ∃ c chunk, v.files fd = some c ∧ buf = fill chunk ∧
      Echoes v.log (some (c, chunk))

/-- No reply is about to be sent on `c`. -/
def View.Idle (c : Conn) (v : View) : Prop := ∀ fd ∈ v.sending.map Prod.fst, v.files fd ≠ some c

section Tracks

variable {files files' : Fd → Option Conn} {log : List Call} {fd : Fd} {buf chunk : List UInt8}
  {c : Conn} {v : View}

theorem Tracks.other {call : Call} (h : Tracks ⟨files, log, none⟩) (hc : call.moves = false) :
    Tracks ⟨files', log ++ [call], none⟩ :=
  Echoes.other h hc

/-- A `recv` that gives nothing to send back. -/
theorem Tracks.recvStop {res : Recv} (h : Tracks ⟨files, log, none⟩)
    (hres : ∀ bytes, res ≠ .data bytes) :
    Tracks ⟨files, log ++ [.recv fd (files fd) res], none⟩ := by
  refine h.other ?_
  cases res with
  | data bytes => exact absurd rfl (hres bytes)
  | eof | again | fail => rfl

theorem Tracks.recv (h : Tracks ⟨files, log, none⟩) (hm : chunk.length ≤ bufferSize)
    (hf : files fd = some c) :
    Tracks ⟨files, log ++ [.recv fd (files fd) (.data chunk)], some (fd, fill chunk)⟩ :=
  ⟨c, chunk, hf, rfl, hf ▸ Echoes.recv h hm⟩

theorem Tracks.send (h : Tracks ⟨files, log, some (fd, buf)⟩) :
    Tracks ⟨files, log ++ [.send fd (files fd) buf (some bufferSize)], none⟩ := by
  obtain ⟨c, chunk, hf, rfl, he⟩ := h
  change files fd = some c at hf
  change Echoes (log ++ [.send fd (files fd) (fill chunk) (some bufferSize)]) none
  rw [hf]
  exact .send he

theorem Tracks.replied_eq_iff (h : Tracks v) (hc : v.Idle c) :
    replied c v.log = received c v.log ↔ ∀ chunk ∈ chunks c v.log, chunk.length = bufferSize := by
  obtain ⟨files, log, sending⟩ := v
  cases sending with
  | none => exact Echoes.replied_eq_iff h rfl
  | some p =>
    obtain ⟨fd, buf⟩ := p
    obtain ⟨d, chunk, hf, -, he⟩ := h
    have hdc : d ≠ c := by
      rintro rfl
      exact hc fd (by simp) hf
    exact he.replied_eq_iff (by simp [waiting, hdc])

end Tracks

/-! ## The nonblocking server -/

section Nonblocking

open NonblockingServer

/-- `send` accepts all bytes. -/
def nonblockingFull (_ : NonblockingServer.State) : NonblockingServer.Act → Prop
  | .send res => res = some bufferSize
  | _ => True

def nonblockingView (s : NonblockingServer.State) : View := ⟨s.table.files, s.log, s.sending⟩

theorem nonblocking_step {sfd : Fd} {s s' : NonblockingServer.State} {a : NonblockingServer.Act}
    (h : Tracks (nonblockingView s)) (hg : nonblockingFull s a)
    (hs : NonblockingServer.step sfd s a = some s') : Tracks (nonblockingView s') := by
  obtain ⟨t, fds, i, pt, log⟩ := s
  cases NonblockingServer.outcome_of_step hs with
  | accept hp | acceptAgain hp | acceptFail hp | recvAgain hp | close hp =>
    cases hp
    exact h.other rfl
  | recvStop hp hi hres =>
    cases hp
    exact h.recvStop hres
  | recvData hp hi hcan =>
    cases hp
    obtain ⟨c, hc⟩ := Option.isSome_iff_exists.mp hcan.2.2
    exact h.recv hcan.2.1 hc
  | @send _ _ res hp =>
    cases hp
    obtain rfl : res = some bufferSize := hg
    exact h.send
  | endRound hp =>
    cases hp
    exact h

end Nonblocking

/-! ## The poll server -/

section Poll

def pollFull (_ : PollServer.State) : PollServer.Act → Prop
  | .send res => res = some bufferSize
  | _ => True

def pollView (s : PollServer.State) : View := ⟨s.table.files, s.log, s.sending⟩

theorem poll_step {sfd : Fd} {s s' : PollServer.State} {a : PollServer.Act}
    (h : Tracks (pollView s)) (hg : pollFull s a) (hs : PollServer.step sfd s a = some s') :
    Tracks (pollView s') := by
  obtain ⟨t, fds, i, pt, log⟩ := s
  cases PollServer.outcome_of_step hs with
  | timeout => exact h
  | poll hp | fail hp | passEnd hp | skip hp | listening hp | client hp =>
    cases hp
    exact h
  | acceptFail hp | accept hp | close hp =>
    cases hp
    exact h.other rfl
  | recvStop hp hres =>
    cases hp
    exact h.recvStop hres
  | recvData hp hcan =>
    cases hp
    obtain ⟨c, hc⟩ := Option.isSome_iff_exists.mp hcan.2.2
    exact h.recv hcan.2.1 hc
  | @send _ _ res hp =>
    cases hp
    obtain rfl : res = some bufferSize := hg
    exact h.send

end Poll

/-! ## The select server -/

section Select

def selectFull (_ : SelectServer.State) : SelectServer.Act → Prop
  | .send res => res = some bufferSize
  | _ => True

def selectView (s : SelectServer.State) : View := ⟨s.table.files, s.log, s.sending⟩

theorem select_step {sfd : Fd} {s s' : SelectServer.State} {a : SelectServer.Act}
    (h : Tracks (selectView s)) (hg : selectFull s a) (hs : SelectServer.step sfd s a = some s') :
    Tracks (selectView s') := by
  obtain ⟨t, sets, rd, it, pt, log⟩ := s
  cases SelectServer.outcome_of_step hs with
  | timeout => exact h
  | select hp | fail hp | passEnd hp | skip hp | listening hp | client hp =>
    cases hp
    exact h
  | acceptFail hp | accept hp | overflow hp | close hp =>
    cases hp
    exact h.other rfl
  | recvStop hp hi hres =>
    cases hp
    exact h.recvStop hres
  | recvData hp hi hcan =>
    cases hp
    cases hi
    obtain ⟨c, hc⟩ := Option.isSome_iff_exists.mp hcan.2.2
    exact h.recv hcan.2.1 hc
  | @send _ _ res hp hi =>
    cases hp
    cases hi
    obtain rfl : res = some bufferSize := hg
    exact h.send

end Select

/-! ## The epoll server

Its state has no log, so it is watched.
-/

section Epoll

open EpollServer (Point)

def epollFull (_ : EpollServer.State) : EpollServer.Act → Prop
  | .send res => res = some bufferSize
  | _ => True

def sockOf (k : Kernel Fd) (fd : Fd) : Option Conn :=
  match k.files fd with
  | some (.sock c) => some c
  | _ => none

/-- The calls of a step of `EpollINET` on sockets. -/
def epollCalls (s : EpollServer.State) : EpollServer.Act → List Call
  | .accept fd => [.accept (some fd)]
  | .acceptFail => [.accept none]
  | .recv n => match s.point with
    | .recv cfd _ => match (s.kernel.recv cfd n).1 with
      | .data c chunk => [.recv cfd (some c) (.data chunk)]
      | .eof => [.recv cfd (sockOf s.kernel cfd) .eof]
      | .again => [.recv cfd (sockOf s.kernel cfd) .again]
      | .fail => [.recv cfd (sockOf s.kernel cfd) .fail]
    | _ => []
  | .recvFail => match s.point with
    | .recv cfd _ => [.recv cfd (sockOf s.kernel cfd) .fail]
    | _ => []
  | .send res => match s.point with
    | .send cfd buf _ => [.send cfd (sockOf s.kernel cfd) buf res]
    | _ => []
  | .close => match s.point with
    | .close cfd _ => [.close cfd (sockOf s.kernel cfd)]
    | _ => []
  | _ => []

def epollSending : Point → Option (Fd × List UInt8)
  | .send cfd buf _ => some (cfd, buf)
  | _ => none

def epollView (s : EpollServer.State × List Call) : View :=
  ⟨sockOf s.1.kernel, s.2, epollSending s.1.point⟩

theorem sockOf_congr {k k' : Kernel Fd} (h : k'.files = k.files) : sockOf k' = sockOf k := by
  funext fd
  simp only [sockOf, h]

/-- A chunk of an open connection, of at most the length that was asked for. -/
theorem recv_data {k k' : Kernel Fd} {cfd : Fd} {n : ℕ} {c : Conn} {chunk : List UInt8}
    (h : k.recv cfd n = (.data c chunk, k')) :
    sockOf k cfd = some c ∧ sockOf k' = sockOf k ∧ chunk.length ≤ n := by
  obtain ⟨hf, -, rfl, rfl⟩ := Kernel.recv_eq_data h
  exact ⟨by simp only [sockOf, hf], rfl, List.length_take_le ..⟩

theorem epoll_recv {s s' : EpollServer.State} {log : List Call} {n : ℕ}
    (h : Tracks (epollView (s, log))) (hs : EpollServer.step s (.recv n) = some s') :
    Tracks (epollView (s', log ++ epollCalls s (.recv n))) := by
  obtain ⟨k, pt⟩ := s
  simp only [EpollServer.step, EpollServer.loopStep] at hs
  split at hs
  · rename_i cfd evs
    simp only [Option.ite_none_right_eq_some] at hs
    obtain ⟨⟨-, hn⟩, hs⟩ := hs
    cases hk : k.recv cfd n with
    | mk res k' =>
    rw [hk] at hs
    cases res with
    | data c chunk =>
      obtain rfl := Option.some.inj hs
      obtain ⟨hf, hf', hm⟩ := recv_data hk
      have hr := Tracks.recv h (hm.trans hn) hf
      simp only [epollCalls, hk]
      change Tracks ⟨sockOf k', _, _⟩
      rw [hf']
      change Tracks ⟨sockOf k, log ++ [.recv cfd (sockOf k cfd) (.data chunk)], _⟩ at hr
      rw [hf] at hr
      exact hr
    | again | eof | fail =>
      obtain rfl := Option.some.inj hs
      simp only [epollCalls, hk]
      exact Tracks.other h rfl
  · cases hs

/-- A step that calls nothing, leaves the table alone and is not about a reply. -/
theorem epoll_frame {k k' : Kernel Fd} {log : List Call} {p p' : Point}
    (h : Tracks (epollView (⟨k, p⟩, log))) (hf : k'.files = k.files)
    (hp : epollSending p' = epollSending p) : Tracks (epollView (⟨k', p'⟩, log ++ [])) := by
  rw [List.append_nil]
  change Tracks ⟨sockOf k', log, epollSending p'⟩
  rw [sockOf_congr hf, hp]
  exact h

theorem epoll_step {s s' : EpollServer.State × List Call} {a : EpollServer.Act}
    (h : Tracks (epollView s)) (hg : epollFull s.1 a)
    (hs : watch EpollServer.step epollCalls s a = some s') : Tracks (epollView s') := by
  obtain ⟨⟨k, pt⟩, log⟩ := s
  obtain ⟨s', log'⟩ := s'
  obtain ⟨hs, rfl⟩ := watch_eq_some.mp hs
  cases a with
  | recv n => exact epoll_recv h hs
  | connect =>
    obtain rfl := Option.some.inj hs
    exact epoll_frame h rfl rfl
  | clientSend c bytes =>
    obtain ⟨k', hk, rfl⟩ := Option.map_eq_some_iff.mp hs
    obtain ⟨-, -, rfl⟩ := Kernel.clientSend_eq_some hk
    exact epoll_frame h rfl rfl
  | clientClose c =>
    obtain ⟨k', hk, rfl⟩ := Option.map_eq_some_iff.mp hs
    obtain ⟨-, -, rfl⟩ := Kernel.clientClose_eq_some hk
    exact epoll_frame h rfl rfl
  | epollWait fds =>
    simp only [EpollServer.step, EpollServer.loopStep] at hs
    split at hs
    · obtain ⟨p, hk, rfl⟩ := Option.map_eq_some_iff.mp hs
      exact epoll_frame h (by rw [(Kernel.epollWait_eq_some hk).2.2.2]) rfl
    · cases hs
  | epollFail | ctlAddFail =>
    simp only [EpollServer.step, EpollServer.loopStep] at hs
    split at hs
    · obtain rfl := Option.some.inj hs
      simp only [epollCalls, List.append_nil]
      exact h
    · cases hs
  | dispatch =>
    simp only [EpollServer.step, EpollServer.loopStep] at hs
    split at hs
    · obtain rfl := Option.some.inj hs
      exact epoll_frame h rfl rfl
    · obtain rfl := Option.some.inj hs
      exact epoll_frame h rfl rfl
    · split at hs <;> obtain rfl := Option.some.inj hs <;> exact epoll_frame h rfl rfl
    · cases hs
  | accept fd =>
    simp only [EpollServer.step, EpollServer.loopStep] at hs
    split at hs
    · obtain ⟨p, hk, rfl⟩ := Option.map_eq_some_iff.mp hs
      exact Tracks.other h rfl
    · cases hs
  | acceptFail =>
    simp only [EpollServer.step, EpollServer.loopStep] at hs
    split at hs
    · obtain rfl := Option.some.inj hs
      exact Tracks.other h rfl
    · cases hs
  | ctlAdd | ctlDel =>
    simp only [EpollServer.step, EpollServer.loopStep] at hs
    split at hs
    · split at hs <;> obtain rfl := Option.some.inj hs <;>
        simp only [epollCalls, List.append_nil] <;> exact h
    · cases hs
  | recvFail =>
    simp only [EpollServer.step, EpollServer.loopStep] at hs
    split at hs
    · obtain rfl := Option.some.inj hs
      exact Tracks.other h rfl
    · cases hs
  | send res =>
    simp only [EpollServer.step, EpollServer.loopStep] at hs
    split at hs
    · simp only [Option.ite_none_right_eq_some] at hs
      obtain ⟨-, hs⟩ := hs
      obtain rfl : res = some bufferSize := hg
      obtain rfl := Option.some.inj hs
      exact Tracks.send h
    · cases hs
  | close =>
    simp only [EpollServer.step, EpollServer.loopStep] at hs
    split at hs
    · obtain rfl := Option.some.inj hs
      exact Tracks.other h rfl
    · cases hs

end Epoll

/-! ## The echo law of the four servers -/

inductive Server where
  | select | poll | epoll | nonblocking

/-- The view of a state that a server reaches with a `send` that accepts all bytes. -/
inductive Reaches : Server → View → Prop
  | select {sfd as s} : Run (SelectServer.step sfd) selectFull (SelectServer.init sfd) as s →
      Reaches .select (selectView s)
  | poll {sfd as s} : Run (PollServer.step sfd) pollFull (PollServer.init sfd) as s →
      Reaches .poll (pollView s)
  | epoll {as s} :
      Run (watch EpollServer.step epollCalls) (fun s a => epollFull s.1 a) (EpollServer.init, [])
        as s → Reaches .epoll (epollView s)
  | nonblocking {sfd as s} :
      Run (NonblockingServer.step sfd) nonblockingFull NonblockingServer.init as s →
      Reaches .nonblocking (nonblockingView s)

theorem selectView_init (sfd : Fd) :
    selectView (SelectServer.init sfd) = ⟨fun _ => none, [], none⟩ := by
  unfold selectView SelectServer.State.sending SelectServer.init
  split <;> rfl

theorem Reaches.tracks {srv : Server} {v : View} (h : Reaches srv v) : Tracks v := by
  cases h with
  | select h =>
    refine h.invariant (I := fun s => Tracks (selectView s)) ?_ fun _ _ _ => select_step
    rw [selectView_init]
    exact Echoes.nil
  | poll h =>
    refine h.invariant (I := fun s => Tracks (pollView s)) ?_ fun _ _ _ => poll_step
    exact Echoes.nil
  | epoll h =>
    refine h.invariant (I := fun s => Tracks (epollView s)) ?_ fun _ _ _ => epoll_step
    exact Echoes.nil
  | nonblocking h =>
    refine h.invariant (I := fun s => Tracks (nonblockingView s)) ?_ fun _ _ _ => nonblocking_step
    exact Echoes.nil

/-! One client sends `chunk`, which comes in one piece, and each server answers it. -/

def selectRun (chunk : List UInt8) : List SelectServer.Act :=
  [.select [3], .dispatch, .accept (some 4), .dispatch, .dispatch, .select [4], .dispatch,
    .dispatch, .recv (.data chunk), .send (some bufferSize)]

def pollRun (chunk : List UInt8) : List PollServer.Act :=
  [.poll [3], .dispatch, .accept (some 4), .dispatch, .dispatch, .poll [4], .dispatch, .dispatch,
    .recv (.data chunk), .send (some bufferSize)]

def epollRun (chunk : List UInt8) : List EpollServer.Act :=
  [.connect, .epollWait [3], .dispatch, .accept 5, .ctlAdd, .dispatch, .clientSend 0 chunk,
    .epollWait [5], .dispatch, .recv bufferSize, .send (some bufferSize)]

def nonblockingRun (chunk : List UInt8) : List NonblockingServer.Act :=
  [.accept 4, .recv (.data chunk), .send (some bufferSize)]

instance (s : SelectServer.State) (a : SelectServer.Act) : Decidable (selectFull s a) := by
  induction a using SelectServer.Act.casesOn <;> unfold selectFull <;> infer_instance

instance (s : PollServer.State) (a : PollServer.Act) : Decidable (pollFull s a) := by
  induction a using PollServer.Act.casesOn <;> unfold pollFull <;> infer_instance

instance (s : EpollServer.State) (a : EpollServer.Act) : Decidable (epollFull s a) := by
  induction a using EpollServer.Act.casesOn <;> unfold epollFull <;> infer_instance

instance (s : NonblockingServer.State) (a : NonblockingServer.Act) :
    Decidable (nonblockingFull s a) := by
  induction a using NonblockingServer.Act.casesOn <;> unfold nonblockingFull <;> infer_instance

/-- The log shows one chunk in, and something else out. -/
def View.Padded (v : View) : Prop :=
  v.sending = none ∧ received 0 v.log = [104, 105] ∧ replied 0 v.log ≠ [104, 105]

instance : DecidablePred View.Padded := fun v => by unfold View.Padded; infer_instance

theorem View.idle_of_none {c : Conn} {v : View} (h : v.sending = none) : v.Idle c := by
  simp [View.Idle, h]

/-- Whatever the pieces, a client gets its stream back. -/
def Verbatim (srv : Server) : Prop :=
  ∀ v c, Reaches srv v → v.Idle c → replied c v.log = received c v.log

theorem View.Padded.not_verbatim {srv : Server} {v : View} (hv : Reaches srv v) (hp : v.Padded) :
    ¬ Verbatim srv := by
  intro h
  have heq := h v 0 hv (View.idle_of_none hp.1)
  exact hp.2.2 (heq.trans hp.2.1)

set_option maxRecDepth 8000 in
/-- Two bytes come back as 1024, on each of the four servers. -/
theorem not_verbatim : ¬ Verbatim .select ∧ ¬ Verbatim .poll ∧ ¬ Verbatim .epoll ∧
    ¬ Verbatim .nonblocking := by
  refine ⟨?_, ?_, ?_, ?_⟩
  · obtain ⟨s, hr, hs⟩ : ∃ s, Run (SelectServer.step 3) selectFull (SelectServer.init 3)
      (selectRun [104, 105]) s ∧ (selectView s).Padded := Run.exists_of_exec _ _ (by decide)
    exact hs.not_verbatim (.select hr)
  · obtain ⟨s, hr, hs⟩ : ∃ s, Run (PollServer.step 3) pollFull (PollServer.init 3)
      (pollRun [104, 105]) s ∧ (pollView s).Padded := Run.exists_of_exec _ _ (by decide)
    exact hs.not_verbatim (.poll hr)
  · obtain ⟨s, hr, hs⟩ : ∃ s, Run (watch EpollServer.step epollCalls)
      (fun s a => epollFull s.1 a) (EpollServer.init, []) (epollRun [104, 105]) s ∧
        (epollView s).Padded := Run.exists_of_exec _ _ (by decide)
    exact hs.not_verbatim (.epoll hr)
  · obtain ⟨s, hr, hs⟩ : ∃ s, Run (NonblockingServer.step 3) nonblockingFull NonblockingServer.init
      (nonblockingRun [104, 105]) s ∧ (nonblockingView s).Padded :=
        Run.exists_of_exec _ _ (by decide)
    exact hs.not_verbatim (.nonblocking hr)

/-- **The stream comes back as it was sent exactly when every `recv` filled the buffer.** -/
theorem replied_eq_received_iff {srv : Server} {v : View} {c : Conn} (h : Reaches srv v)
    (hc : v.Idle c) :
    replied c v.log = received c v.log ↔ ∀ chunk ∈ chunks c v.log, chunk.length = bufferSize :=
  h.tracks.replied_eq_iff hc

set_option maxRecDepth 8000 in
theorem replied_eq_received_iff_full : ∃ v, Reaches .poll v ∧
    received 0 v.log = List.replicate bufferSize 7 ∧ replied 0 v.log = received 0 v.log := by
  obtain ⟨s, hr, hs, hc⟩ : ∃ s, Run (PollServer.step 3) pollFull (PollServer.init 3)
      (pollRun (List.replicate bufferSize 7)) s ∧ (pollView s).sending = none ∧
        chunks 0 (pollView s).log = [List.replicate bufferSize 7] :=
    Run.exists_of_exec _ _ (by decide)
  refine ⟨_, .poll hr, by simp [received, hc], ?_⟩
  exact (replied_eq_received_iff (.poll hr) (View.idle_of_none hs)).mpr (by simp [hc])

end PracticeCode.EchoServers
