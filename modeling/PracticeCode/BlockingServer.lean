import PracticeCode.Lib.Run
import Mathlib.Data.List.Basic

/-!
# `1.blocking/server.cpp`: one client at a time

`AcceptAndRecvINET` and `AcceptAndRecvUnixDomain` are one loop: accept, then clear the buffer,
`recv` into it and `send` from it until the client is gone.  They differ in how much of the buffer
they clear and how much of it they send (`Loop`).

The buffer is one cell of 1024 bytes; what it holds at first is arbitrary, and it is the same cell
for every message and every client.  `reply_independent_iff`: what `AcceptAndRecvINET` sends for a
message depends on the message only if the message fills the buffer.
-/

namespace PracticeCode.BlockingServer

open Lib

/-- `BUFFER_SIZE`. -/
abbrev bufferSize : ℕ := 1024

/-- The length given to the clearing call, and the length given to `send` after `recv` returned
`recvbytes`. -/
structure Loop where
  clear : ℕ
  reply (recvbytes : ℕ) : ℕ

/-- `memset(buffer, 0, sizeof(buffer))` and `send(cfd, buffer, recvbytes, 0)`. -/
def AcceptAndRecvUnixDomain : Loop := ⟨bufferSize, fun recvbytes => recvbytes⟩

/-- `bzero(buf, 0)` and `send(cfd, buf, sizeof(buf), 0)`. -/
def AcceptAndRecvINET : Loop := ⟨0, fun _ => bufferSize⟩

inductive Point where
  | accept
  | recv
  | send (recvbytes : ℕ)
  | close
  | returned
  deriving DecidableEq

structure State where
  buf : List UInt8
  point : Point
  deriving DecidableEq

/-- What `recv` returns. -/
inductive Recv where
  | data (bytes : List UInt8)
  | eof
  | fail
  deriving DecidableEq

inductive Act where
  | accept
  | acceptFail
  | recv (res : Recv)
  /-- Whatever `send` returns, it is not looked at. -/
  | send
  | close
  deriving DecidableEq

def init (buf : List UInt8) : State := ⟨buf, .accept⟩

/-- The first `n` bytes of the buffer become zero. -/
def bzero (buf : List UInt8) (n : ℕ) : List UInt8 := List.replicate n 0 ++ buf.drop n

/-- `recv` writes what it returns to the front of the buffer. -/
def receive (buf bytes : List UInt8) : List UInt8 := bytes ++ buf.drop bytes.length

def step (l : Loop) (s : State) : Act → Option State
  | .accept => match s.point with
    | .accept => some { s with point := .recv }
    | _ => none
  | .acceptFail => match s.point with
    | .accept => some { s with point := .returned }
    | _ => none
  | .recv res => match s.point with
    -- the clearing call stands before every `recv`
    | .recv => match res with
      | .data bytes =>
        if 0 < bytes.length ∧ bytes.length ≤ bufferSize then
          some ⟨receive (bzero s.buf l.clear) bytes, .send bytes.length⟩
        else none
      | .eof => some ⟨bzero s.buf l.clear, .close⟩
      | .fail => some ⟨bzero s.buf l.clear, .recv⟩
    | _ => none
  | .send => match s.point with
    | .send _ => some { s with point := .recv }
    | _ => none
  | .close => match s.point with
    | .close => some { s with point := .accept }
    | _ => none

/-- The bytes that are passed to `send`. -/
def State.reply (l : Loop) (s : State) : Option (List UInt8) :=
  match s.point with
  | .send recvbytes => some (s.buf.take (l.reply recvbytes))
  | _ => none

/-! ## The buffer -/

section Buffer

variable {l : Loop} {buf bytes : List UInt8} {n : ℕ} {s s' : State} {a : Act} {as : List Act}

theorem length_bzero (hn : n ≤ buf.length) : (bzero buf n).length = buf.length := by
  simp only [bzero, List.length_append, List.length_replicate, List.length_drop]
  omega

theorem length_receive (hn : bytes.length ≤ buf.length) :
    (receive buf bytes).length = buf.length := by
  simp only [receive, List.length_append, List.length_drop]
  omega

theorem length_buf_step (hl : l.clear ≤ bufferSize) (hb : s.buf.length = bufferSize)
    (h : step l s a = some s') : s'.buf.length = bufferSize := by
  have hz : (bzero s.buf l.clear).length = bufferSize := by
    rw [length_bzero (by omega), hb]
  cases a with
  | recv res =>
    simp only [step] at h
    split at h
    · split at h
      · simp only [Option.ite_none_right_eq_some, Option.some.injEq] at h
        obtain ⟨⟨-, hm⟩, rfl⟩ := h
        exact (length_receive (by omega)).trans hz
      · exact Option.some.inj h ▸ hz
      · exact Option.some.inj h ▸ hz
    · cases h
  | accept | acceptFail | send | close =>
    simp only [step] at h
    split at h
    · exact Option.some.inj h ▸ hb
    · cases h

theorem length_buf (hl : l.clear ≤ bufferSize) (hb : buf.length = bufferSize)
    (h : Run (step l) free (init buf) as s) : s.buf.length = bufferSize :=
  h.invariant (I := fun s => s.buf.length = bufferSize) hb
    fun _ _ _ hI _ hs => length_buf_step hl hI hs

/-- What is sent for a message. -/
theorem reply_of_recv (h : step l s (.recv (.data bytes)) = some s') :
    bytes.length ≤ bufferSize ∧
      s'.reply l = some ((receive (bzero s.buf l.clear) bytes).take (l.reply bytes.length)) := by
  simp only [step] at h
  split at h
  · simp only [Option.ite_none_right_eq_some, Option.some.injEq] at h
    obtain ⟨⟨-, hm⟩, rfl⟩ := h
    exact ⟨hm, rfl⟩
  · cases h

/-- `AcceptAndRecvUnixDomain` sends back what it received. -/
theorem reply_unixDomain (h : step AcceptAndRecvUnixDomain s (.recv (.data bytes)) = some s') :
    s'.reply AcceptAndRecvUnixDomain = some bytes := by
  rw [(reply_of_recv h).2]
  simp [AcceptAndRecvUnixDomain, receive]

/-- `AcceptAndRecvINET` sends the message, and then what the buffer holds behind it. -/
theorem reply_inet (hb : s.buf.length = bufferSize)
    (h : step AcceptAndRecvINET s (.recv (.data bytes)) = some s') :
    s'.reply AcceptAndRecvINET = some (bytes ++ s.buf.drop bytes.length) := by
  obtain ⟨hm, hr⟩ := reply_of_recv h
  have hlen : (receive s.buf bytes).length = bufferSize := by
    rw [length_receive (by omega), hb]
  rw [hr]
  change some ((receive s.buf bytes).take bufferSize) = _
  rw [List.take_of_length_le (Nat.le_of_eq hlen)]
  rfl

end Buffer

/-! ## Two runs -/

section Runs

variable {bytes : List UInt8} {s' : State}

/-- For any two runs, from any contents of the buffer, whose current `recv` returns `bytes`, the
bytes passed to `send` are the same. -/
def Independent (l : Loop) (bytes : List UInt8) : Prop :=
  ∀ (buf₁ buf₂ : List UInt8) (as₁ as₂ : List Act) (s₁ s₂ t₁ t₂ : State),
    buf₁.length = bufferSize → buf₂.length = bufferSize →
    Run (step l) free (init buf₁) as₁ s₁ → Run (step l) free (init buf₂) as₂ s₂ →
    step l s₁ (.recv (.data bytes)) = some t₁ → step l s₂ (.recv (.data bytes)) = some t₂ →
    t₁.reply l = t₂.reply l

theorem independent_unixDomain (bytes : List UInt8) :
    Independent AcceptAndRecvUnixDomain bytes := by
  intro _ _ _ _ _ _ _ _ _ _ _ _ h₁ h₂
  rw [reply_unixDomain h₁, reply_unixDomain h₂]

/-- The leftovers of a buffer full of `b`s. -/
theorem reply_inet_replicate {b : UInt8}
    (h : step AcceptAndRecvINET ⟨List.replicate bufferSize b, .recv⟩ (.recv (.data bytes)) =
      some s') :
    s'.reply AcceptAndRecvINET = some (bytes ++ List.replicate (bufferSize - bytes.length) b) := by
  rw [reply_inet List.length_replicate h, List.drop_replicate]

/-- Two leftovers that show a difference. -/
theorem leftovers_ne (hm : bytes.length < bufferSize) :
    some (bytes ++ List.replicate (bufferSize - bytes.length) (0 : UInt8)) ≠
      some (bytes ++ List.replicate (bufferSize - bytes.length) 1) := by
  obtain ⟨k, hk⟩ := Nat.exists_eq_add_of_lt hm
  have hk' : bufferSize - bytes.length = k + 1 := by omega
  simp [hk', List.replicate_succ]

set_option maxRecDepth 8000 in
/-- A first client sends a full buffer of `1`s; the reply to the next one's two bytes ends with
them.  A server that has just started sends what its buffer held instead. -/
theorem not_independent : ¬ Independent AcceptAndRecvINET [104, 105] := by
  intro h
  have h₁ : Run (step AcceptAndRecvINET) free (init (List.replicate bufferSize 0)) [.accept]
      ⟨List.replicate bufferSize 0, .recv⟩ := .of_exec (by decide)
  have h₂ : Run (step AcceptAndRecvINET) free (init (List.replicate bufferSize 0))
      [.accept, .recv (.data (List.replicate bufferSize 1)), .send, .recv .eof, .close, .accept]
      ⟨List.replicate bufferSize 1, .recv⟩ := .of_exec (by decide)
  obtain ⟨t₁, ht₁⟩ : ∃ t, step AcceptAndRecvINET ⟨List.replicate bufferSize 0, .recv⟩
      (.recv (.data [104, 105])) = some t := ⟨_, rfl⟩
  obtain ⟨t₂, ht₂⟩ : ∃ t, step AcceptAndRecvINET ⟨List.replicate bufferSize 1, .recv⟩
      (.recv (.data [104, 105])) = some t := ⟨_, rfl⟩
  have heq := h _ _ _ _ _ _ _ _ List.length_replicate List.length_replicate h₁ h₂ ht₁ ht₂
  rw [reply_inet_replicate ht₁, reply_inet_replicate ht₂] at heq
  exact leftovers_ne (by decide) heq

/-- **Noninterference holds exactly for the messages that fill the buffer.**  Behind a shorter one,
`AcceptAndRecvINET` sends what earlier messages and clients left. -/
theorem reply_independent_iff (h0 : 0 < bytes.length) (hm : bytes.length ≤ bufferSize) :
    Independent AcceptAndRecvINET bytes ↔ bytes.length = bufferSize := by
  constructor
  · intro h
    -- two first contents of the buffer show behind the message
    have hrun (b : UInt8) : Run (step AcceptAndRecvINET) free (init (List.replicate bufferSize b))
        [.accept] ⟨List.replicate bufferSize b, .recv⟩ := .cons trivial rfl .nil
    have hstep (b : UInt8) : ∃ t, step AcceptAndRecvINET ⟨List.replicate bufferSize b, .recv⟩
        (.recv (.data bytes)) = some t := by
      simp only [step, h0, hm, and_self, if_true]
      exact ⟨_, rfl⟩
    obtain ⟨t₁, h₁⟩ := hstep 0
    obtain ⟨t₂, h₂⟩ := hstep 1
    have heq := h _ _ _ _ _ _ _ _ List.length_replicate List.length_replicate (hrun 0) (hrun 1)
      h₁ h₂
    rw [reply_inet_replicate h₁, reply_inet_replicate h₂] at heq
    by_contra hne
    exact leftovers_ne (by omega) heq
  · intro hfull buf₁ buf₂ as₁ as₂ s₁ s₂ t₁ t₂ hb₁ hb₂ hr₁ hr₂ h₁ h₂
    have hl : AcceptAndRecvINET.clear ≤ bufferSize := Nat.zero_le _
    have hs₁ := length_buf hl hb₁ hr₁
    have hs₂ := length_buf hl hb₂ hr₂
    rw [reply_inet hs₁ h₁, reply_inet hs₂ h₂, List.drop_of_length_le (by omega),
      List.drop_of_length_le (by omega)]

set_option maxRecDepth 8000 in
theorem reply_independent_iff_full :
    Independent AcceptAndRecvINET (List.replicate bufferSize 1) :=
  (reply_independent_iff (by decide) (by decide)).mpr List.length_replicate

end Runs

end PracticeCode.BlockingServer
