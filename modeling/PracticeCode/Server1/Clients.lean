import PracticeCode.Server1.Defs

/-!
# `1.common_epoll/client.cpp` and its server

The threads of the client run `connect_and_send`: a blocking socket is connected, and then a message
is sent and an answer awaited, again and again.  `handle_error` and the return of `main` end the
process and close its sockets.

A connection is a `Link`: the bytes on their way in both directions.  The server makes the steps of
`step`; what its calls return is decided by the links (`transport`), and a call that blocks is a
step that is not possible.  The buffers of a connection have no bound: a `send` takes at least one
byte at once and never waits for room, on either side.
-/

namespace PracticeCode.Server1

open Linux

/-! ## The connections -/

/-- What the server did with a connection. -/
inductive Stage where
  | pending
  | accepted
  | dropped
  deriving DecidableEq

structure Link where
  stage : Stage
  /-- The client closed its end. -/
  shut : Bool
  /-- The bytes on their way to the server, and to the client. -/
  request : List UInt8
  reply : List UInt8
  -- everything the client passed to `send`, the server got from `recv`, and the client got
  sent : List UInt8
  chunks : List (List UInt8)
  got : List UInt8
  deriving DecidableEq

namespace Link

def fresh : Link := ⟨.pending, false, [], [], [], [], []⟩

variable (l : Link)

/-- `recv` on the server's end returns at once. -/
def readable : Bool := !l.request.isEmpty || l.shut

/-- The client sends. -/
def ask (bytes : List UInt8) : Link :=
  { l with request := l.request ++ bytes, sent := l.sent ++ bytes }

/-- The server receives. -/
def hear (bytes : List UInt8) : Link :=
  { l with request := l.request.drop bytes.length, chunks := l.chunks ++ [bytes] }

/-- The server sends. -/
def answer (bytes : List UInt8) : Link := { l with reply := l.reply ++ bytes }

/-- The client receives. -/
def get (bytes : List UInt8) : Link :=
  { l with reply := l.reply.drop bytes.length, got := l.got ++ bytes }

end Link

/-! ## The threads of the client -/

/-- A thread in `connect_and_send`. -/
inductive Thread where
  | connect
  | send (c : Conn)
  | recv (c : Conn)
  | close (c : Conn)
  | returned
  deriving DecidableEq

def Thread.conn : Thread → Option Conn
  | .send c | .recv c | .close c => some c
  | .connect | .returned => none

/-- `"msg from " << tid`. -/
def message (tid : List UInt8) : List UInt8 := ascii "msg from " ++ tid

/-- The server, the client, and the connections between them. -/
structure System where
  server : State
  table : Table
  links : Conn → Link
  connected : ℕ
  threads : List Thread

/-- Both programs have started; `n` threads are there. -/
def boot (efd sfd : Fd) (n : ℕ) : System :=
  ⟨init efd sfd, .empty, fun _ => .fresh, 0, List.replicate n .connect⟩

namespace System

variable (x : System)

def setLink (c : Conn) (l : Link) : System := { x with links := Function.update x.links c l }

def setThread (i : ℕ) (t : Thread) : System := { x with threads := x.threads.set i t }

/-- The client process ends. -/
def exitClients : System := { x with
  links := fun c => { x.links c with shut := true }
  threads := x.threads.map fun _ => .returned }

/-- `epoll_wait` may report the number. -/
def ready (sfd fd : Fd) : Bool :=
  if fd = sfd then decide (x.table.made < x.connected)
  else (x.table.files fd).any fun c => (x.links c).readable

end System

/-! ## The steps -/

/-- What a call of the server does to the connections; `none` while the call blocks.  There is
always room for what is sent. -/
def transport (sfd : Fd) (x : System) : Act → Option System
  | .epollWait fds => if ∀ fd ∈ fds, x.ready sfd fd = true then some x else none
  | .accept (some cfd) =>
    if x.table.made < x.connected then
      some ({ x with table := x.table.accept cfd }.setLink x.table.made
        { x.links x.table.made with stage := .accepted })
    else none
  | .recv res => match x.server.point with
    | .recv cfd _ => (x.table.files cfd).bind fun c => match res with
      | .data bytes =>
        if bytes <+: (x.links c).request then some (x.setLink c ((x.links c).hear bytes)) else none
      | .eof => if (x.links c).shut = true ∧ (x.links c).request = [] then some x else none
      -- the sockets are blocking
      | .again => none
      | .fail => if (x.links c).shut = true then some x else none
    | _ => none
  | .send res => match x.server.point with
    | .send cfd buf _ => (x.table.files cfd).bind fun c => match res with
      | some m =>
        if 0 < m ∧ m ≤ buf.length then some (x.setLink c ((x.links c).answer (buf.take m)))
        else none
      | none => if (x.links c).shut = true then some x else none
    | _ => none
  | .close => match x.server.point with
    | .close cfd _ => (x.table.files cfd).map fun c =>
      { x with table := x.table.close cfd }.setLink c { x.links c with stage := .dropped }
    | _ => none
  | _ => some x

inductive ClientAct where
  | connect
  | send (m : ℕ)
  | recv (bytes : List UInt8)
  | recvEof
  | close
  /-- `connect`, `send` or `recv` fails. -/
  | fail
  deriving DecidableEq

/-- `connect_and_send` in a thread whose number prints as `tid`. -/
def connect_and_send (tid : List UInt8) (x : System) (i : ℕ) : ClientAct → Option System
  | .connect => match x.threads[i]? with
    | some .connect =>
      if x.server.point = .exited then none
      else some ({ x with connected := x.connected + 1 }.setLink x.connected .fresh |>.setThread i
        (.send x.connected))
    | _ => none
  | .send m => match x.threads[i]? with
    | some (.send c) =>
      if 0 < m ∧ m ≤ (message tid).length then
        some (x.setLink c ((x.links c).ask ((message tid).take m)) |>.setThread i (.recv c))
      else none
    | _ => none
  | .recv bytes => match x.threads[i]? with
    | some (.recv c) =>
      if bytes ≠ [] ∧ bytes.length ≤ bufferSize ∧ bytes <+: (x.links c).reply then
        some (x.setLink c ((x.links c).get bytes) |>.setThread i (.send c))
      else none
    | _ => none
  | .recvEof => match x.threads[i]? with
    | some (.recv c) =>
      if (x.links c).reply = [] ∧ ((x.links c).stage = .dropped ∨ x.server.point = .exited) then
        some (x.setThread i (.close c))
      else none
    | _ => none
  | .close => match x.threads[i]? with
    | some (.close c) =>
      some (x.setLink c { x.links c with shut := true } |>.setThread i .returned)
    | _ => none
  | .fail => match x.threads[i]? with
    | some .connect | some (.send _) | some (.recv _) => some x.exitClients
    | _ => none

inductive SystemAct where
  | server (a : Act)
  | client (i : ℕ) (a : ClientAct)
  /-- `main` of the client returns. -/
  | exit
  deriving DecidableEq

/-- `tid i` is what the number of the thread `i` prints as. -/
def system (sfd : Fd) (tid : ℕ → List UInt8) (x : System) : SystemAct → Option System
  | .server a => (step sfd x.server a).bind fun s =>
    (transport sfd x a).map fun y => { y with server := s }
  | .client i a => connect_and_send (tid i) x i a
  | .exit => some x.exitClients

/-! ## The inversion of `system` -/

section Outcome

variable (sfd : Fd) (x : System)

/-- The call did not fail for a reason of its own; a failure ends the server. -/
def Act.ok : Act → Bool
  | .epollFail | .accept none | .ctlAdd false | .send none | .ctlDel false => false
  | _ => true

/-- A step of the server; `log` is its log behind the step. -/
inductive Served : Act → System → Prop
  | wait {fds evs log} : x.server.point = .wait → x.server.kernel.wait 10 fds = some evs →
      (∀ fd ∈ fds, x.ready sfd fd = true) →
      Served (.epollWait fds) { x with server := ⟨x.server.kernel, .loop evs, log⟩ }
  | exit {a log} : a.ok = false →
      Served a { x with server := ⟨x.server.kernel, .exited, log⟩ }
  | batchEnd {log} : x.server.point = .loop [] →
      Served .dispatch { x with server := ⟨x.server.kernel, .wait, log⟩ }
  | listening {evs log} : x.server.point = .loop (sfd :: evs) →
      Served .dispatch { x with server := ⟨x.server.kernel, .accept evs, log⟩ }
  | data {fd evs log} : x.server.point = .loop (fd :: evs) → fd ≠ sfd →
      Served .dispatch { x with server := ⟨x.server.kernel, .recv fd evs, log⟩ }
  | accept {cfd evs log} : x.server.point = .accept evs → x.server.kernel.isOpen cfd = false →
      x.table.made < x.connected →
      Served (.accept (some cfd)) { ({ x with table := x.table.accept cfd }.setLink x.table.made
          { x.links x.table.made with stage := .accepted }) with
        server := ⟨x.server.kernel.accept cfd, .add cfd evs, log⟩ }
  | add {cfd evs k log} : x.server.point = .add cfd evs → x.server.kernel.add cfd cfd = some k →
      Served (.ctlAdd true) { x with server := ⟨k, .loop evs, log⟩ }
  | recvData {cfd evs c bytes log} : x.server.point = .recv cfd evs →
      x.table.files cfd = some c → 0 < bytes.length → bytes.length ≤ bufferSize →
      bytes <+: (x.links c).request →
      Served (.recv (.data bytes)) { (x.setLink c ((x.links c).hear bytes)) with
        server := ⟨x.server.kernel, .send cfd (fill bytes) evs, log⟩ }
  | recvStop {cfd evs c res log} : x.server.point = .recv cfd evs →
      x.table.files cfd = some c → (x.links c).shut = true →
      Served (.recv res) { x with server := ⟨x.server.kernel, .del cfd evs, log⟩ }
  | send {cfd buf evs c m log} : x.server.point = .send cfd buf evs →
      x.table.files cfd = some c → 0 < m → m ≤ buf.length →
      Served (.send (some m)) { (x.setLink c ((x.links c).answer (buf.take m))) with
        server := ⟨x.server.kernel, .loop evs, log⟩ }
  | del {cfd evs k log} : x.server.point = .del cfd evs → x.server.kernel.del cfd = some k →
      Served (.ctlDel true) { x with server := ⟨k, .close cfd evs, log⟩ }
  | close {cfd evs c log} : x.server.point = .close cfd evs → x.table.files cfd = some c →
      Served .close { ({ x with table := x.table.close cfd }.setLink c
          { x.links c with stage := .dropped }) with
        server := ⟨x.server.kernel.close cfd, .loop evs, log⟩ }

variable {sfd x} {y : System} {tid : ℕ → List UInt8} {a : Act}

theorem system_server_eq_some : system sfd tid x (.server a) = some y ↔
    ∃ s z, step sfd x.server a = some s ∧ transport sfd x a = some z ∧
      y = { z with server := s } := by
  simp only [system, Option.bind_eq_some_iff, Option.map_eq_some_iff]
  constructor
  · rintro ⟨s, hs, z, hz, rfl⟩
    exact ⟨s, z, hs, hz, rfl⟩
  · rintro ⟨s, z, hs, hz, rfl⟩
    exact ⟨s, hs, z, hz, rfl⟩

theorem served_recv {res : Recv} (h : system sfd tid x (.server (.recv res)) = some y) :
    Served sfd x (.recv res) y := by
  obtain ⟨s, z, hs, hz, rfl⟩ := system_server_eq_some.mp h
  simp only [step, handle_data] at hs
  split at hs
  · rename_i cfd evs hp
    simp only [Option.ite_none_right_eq_some] at hs
    obtain ⟨hfit, hs⟩ := hs
    simp only [transport, hp] at hz
    obtain ⟨c, hc, hz⟩ := Option.bind_eq_some_iff.mp hz
    cases res with
    | data bytes =>
      simp only [Option.ite_none_right_eq_some, Option.some.injEq] at hz
      obtain ⟨hpre, rfl⟩ := hz
      obtain rfl := Option.some.inj hs
      exact .recvData hp hc hfit.1 hfit.2 hpre
    | eof =>
      simp only [Option.ite_none_right_eq_some, Option.some.injEq] at hz
      obtain ⟨⟨hshut, -⟩, rfl⟩ := hz
      obtain rfl := Option.some.inj hs
      exact .recvStop hp hc hshut
    | again => cases hz
    | fail =>
      simp only [Option.ite_none_right_eq_some, Option.some.injEq] at hz
      obtain ⟨hshut, rfl⟩ := hz
      obtain rfl := Option.some.inj hs
      exact .recvStop hp hc hshut
  · cases hs

theorem served_send {res : Option ℕ} (h : system sfd tid x (.server (.send res)) = some y) :
    Served sfd x (.send res) y := by
  obtain ⟨s, z, hs, hz, rfl⟩ := system_server_eq_some.mp h
  simp only [step, handle_data] at hs
  split at hs
  · rename_i cfd buf evs hp
    simp only [transport, hp] at hz
    obtain ⟨c, hc, hz⟩ := Option.bind_eq_some_iff.mp hz
    cases res with
    | none =>
      simp only [Option.ite_none_right_eq_some, Option.some.injEq] at hz
      obtain ⟨-, rfl⟩ := hz
      obtain rfl := Option.some.inj hs
      exact .exit rfl
    | some m =>
      simp only [Option.ite_none_right_eq_some, Option.some.injEq] at hz
      obtain ⟨⟨hm, hle⟩, rfl⟩ := hz
      obtain rfl := Option.some.inj hs
      exact .send hp hc hm hle
  · cases hs

theorem served_accept {res : Option Fd} (h : system sfd tid x (.server (.accept res)) = some y) :
    Served sfd x (.accept res) y := by
  obtain ⟨s, z, hs, hz, rfl⟩ := system_server_eq_some.mp h
  simp only [step, handle_connection] at hs
  split at hs
  · rename_i evs hp
    cases res with
    | none =>
      obtain rfl := Option.some.inj hs
      obtain rfl := Option.some.inj hz
      exact .exit rfl
    | some cfd =>
      simp only [Option.ite_none_right_eq_some, Option.some.injEq] at hs
      obtain ⟨hfree, rfl⟩ := hs
      simp only [transport, Option.ite_none_right_eq_some, Option.some.injEq] at hz
      obtain ⟨hlt, rfl⟩ := hz
      exact .accept hp hfree hlt
  · cases hs

theorem served_close (h : system sfd tid x (.server .close) = some y) : Served sfd x .close y := by
  obtain ⟨s, z, hs, hz, rfl⟩ := system_server_eq_some.mp h
  simp only [step, handle_data] at hs
  split at hs
  · rename_i cfd evs hp
    simp only [transport, hp] at hz
    obtain ⟨c, hc, rfl⟩ := Option.map_eq_some_iff.mp hz
    obtain rfl := Option.some.inj hs
    exact .close hp hc
  · cases hs

theorem served_dispatch (h : system sfd tid x (.server .dispatch) = some y) :
    Served sfd x .dispatch y := by
  obtain ⟨s, z, hs, hz, rfl⟩ := system_server_eq_some.mp h
  obtain rfl : x = z := Option.some.inj hz
  simp only [step] at hs
  split at hs
  · rename_i hp
    obtain rfl := Option.some.inj hs
    exact .batchEnd hp
  · rename_i fd evs hp
    split at hs
    · rename_i e
      subst e
      obtain rfl := Option.some.inj hs
      exact .listening hp
    · rename_i hne
      obtain rfl := Option.some.inj hs
      exact .data hp hne
  · cases hs

theorem served_of_system (h : system sfd tid x (.server a) = some y) : Served sfd x a y := by
  cases a with
  | recv res => exact served_recv h
  | send res => exact served_send h
  | accept res => exact served_accept h
  | close => exact served_close h
  | dispatch => exact served_dispatch h
  | epollWait fds =>
    obtain ⟨s, z, hs, hz, rfl⟩ := system_server_eq_some.mp h
    simp only [transport, Option.ite_none_right_eq_some, Option.some.injEq] at hz
    obtain ⟨hr, rfl⟩ := hz
    simp only [step] at hs
    split at hs
    · rename_i hp
      obtain ⟨evs, hw, rfl⟩ := Option.map_eq_some_iff.mp hs
      exact .wait hp hw hr
    · cases hs
  | epollFail =>
    obtain ⟨s, z, hs, hz, rfl⟩ := system_server_eq_some.mp h
    obtain rfl : x = z := Option.some.inj hz
    simp only [step] at hs
    split at hs
    · obtain rfl := Option.some.inj hs
      exact .exit rfl
    · cases hs
  | ctlAdd ok =>
    obtain ⟨s, z, hs, hz, rfl⟩ := system_server_eq_some.mp h
    obtain rfl : x = z := Option.some.inj hz
    simp only [step, handle_connection] at hs
    split at hs
    · rename_i cfd evs hp
      cases ok with
      | true =>
        obtain ⟨k, hk, rfl⟩ := Option.map_eq_some_iff.mp hs
        exact .add hp hk
      | false =>
        obtain rfl := Option.some.inj hs
        exact .exit rfl
    · cases hs
  | ctlDel ok =>
    obtain ⟨s, z, hs, hz, rfl⟩ := system_server_eq_some.mp h
    obtain rfl : x = z := Option.some.inj hz
    simp only [step, handle_data] at hs
    split at hs
    · rename_i cfd evs hp
      cases ok with
      | true =>
        obtain ⟨k, hk, rfl⟩ := Option.map_eq_some_iff.mp hs
        exact .del hp hk
      | false =>
        obtain rfl := Option.some.inj hs
        exact .exit rfl
    · cases hs

/-- A step of the thread `i`. -/
inductive Moved (tid : List UInt8) (x : System) (i : ℕ) : ClientAct → System → Prop
  | connect : x.threads[i]? = some .connect →
      Moved tid x i .connect ({ x with connected := x.connected + 1 }.setLink x.connected .fresh
        |>.setThread i (.send x.connected))
  | send {c m} : x.threads[i]? = some (.send c) → 0 < m → m ≤ (message tid).length →
      Moved tid x i (.send m)
        (x.setLink c ((x.links c).ask ((message tid).take m)) |>.setThread i (.recv c))
  | recv {c bytes} : x.threads[i]? = some (.recv c) → bytes <+: (x.links c).reply →
      Moved tid x i (.recv bytes) (x.setLink c ((x.links c).get bytes) |>.setThread i (.send c))
  | recvEof {c} : x.threads[i]? = some (.recv c) → Moved tid x i .recvEof (x.setThread i (.close c))
  | close {c} : x.threads[i]? = some (.close c) →
      Moved tid x i .close (x.setLink c { x.links c with shut := true } |>.setThread i .returned)
  | fail : Moved tid x i .fail x.exitClients

theorem moved_of_client {tid : List UInt8} {i : ℕ} {a : ClientAct}
    (h : connect_and_send tid x i a = some y) : Moved tid x i a y := by
  cases a with
  | connect =>
    simp only [connect_and_send] at h
    split at h
    · rename_i hi
      simp only [Option.ite_none_left_eq_some, Option.some.injEq] at h
      obtain ⟨-, rfl⟩ := h
      exact .connect hi
    · cases h
  | send m =>
    simp only [connect_and_send] at h
    split at h
    · rename_i c hi
      simp only [Option.ite_none_right_eq_some, Option.some.injEq] at h
      obtain ⟨⟨h0, hle⟩, rfl⟩ := h
      exact .send hi h0 hle
    · cases h
  | recv bytes =>
    simp only [connect_and_send] at h
    split at h
    · rename_i c hi
      simp only [Option.ite_none_right_eq_some, Option.some.injEq] at h
      obtain ⟨⟨-, -, hpre⟩, rfl⟩ := h
      exact .recv hi hpre
    · cases h
  | recvEof =>
    simp only [connect_and_send] at h
    split at h
    · rename_i c hi
      simp only [Option.ite_none_right_eq_some, Option.some.injEq] at h
      obtain ⟨-, rfl⟩ := h
      exact .recvEof hi
    · cases h
  | close =>
    simp only [connect_and_send] at h
    split at h
    · rename_i c hi
      obtain rfl := Option.some.inj h
      exact .close hi
    · cases h
  | fail =>
    simp only [connect_and_send] at h
    split at h
    · obtain rfl := Option.some.inj h
      exact .fail
    · obtain rfl := Option.some.inj h
      exact .fail
    · obtain rfl := Option.some.inj h
      exact .fail
    · cases h

end Outcome

end PracticeCode.Server1
