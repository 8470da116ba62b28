import PracticeCode.Linux.Kernel

/-!
# The sockets of a server that looks at no epoll instance

The servers of `linux_io` that use `select`, `poll` or nothing need less of the kernel: which of the
accepted connections a number refers to.  What a call returns is part of the action of a step, and
the calls are kept in a log with the connection the number referred to.

`Echoes log p` says that a log is one of an echo server with a cleared buffer of 1024 bytes: every
chunk that `recv` returned is answered at once with the whole buffer.  `p` is the chunk whose answer
is still to come.
-/

namespace PracticeCode.Linux

/-- The accepted connections that are not closed, and how many were accepted. -/
structure Table where
  files : Fd → Option Conn
  made : ℕ

namespace Table

def empty : Table := ⟨fun _ => none, 0⟩

/-- `accept` returns the number `fd`. -/
def accept (t : Table) (fd : Fd) : Table := ⟨Function.update t.files fd (some t.made), t.made + 1⟩

def close (t : Table) (fd : Fd) : Table := { t with files := Function.update t.files fd none }

/-- A connection has one number, and was accepted. -/
structure Wf (t : Table) : Prop where
  inj : ∀ {fd fd' c}, t.files fd = some c → t.files fd' = some c → fd = fd'
  made : ∀ {fd c}, t.files fd = some c → c < t.made

section

variable {t : Table} {fd : Fd}

theorem files_accept (t : Table) (fd x : Fd) :
    (t.accept fd).files x = if x = fd then some t.made else t.files x :=
  Function.update_apply ..

theorem files_close (t : Table) (fd x : Fd) :
    (t.close fd).files x = if x = fd then none else t.files x :=
  Function.update_apply ..

theorem files_close_eq_some {x : Fd} {c : Conn} :
    (t.close fd).files x = some c ↔ x ≠ fd ∧ t.files x = some c := by
  rw [files_close]
  split <;> simp [*]

/-- `fd` is the listening socket `sfd`, or accepted and not closed. -/
def Open (t : Table) (sfd fd : Fd) : Prop := fd = sfd ∨ (t.files fd).isSome

theorem open_accept {sfd x : Fd} : (t.accept fd).Open sfd x ↔ x = fd ∨ t.Open sfd x := by
  unfold Open
  rw [files_accept]
  split <;> simp [*]

theorem open_close {sfd x : Fd} (hne : fd ≠ sfd) :
    (t.close fd).Open sfd x ↔ t.Open sfd x ∧ x ≠ fd := by
  unfold Open
  rw [files_close]
  split
  · rename_i e
    simp [e, hne]
  · simp [*]

theorem wf_empty : empty.Wf where
  inj h := by cases h
  made h := by cases h

theorem Wf.accept (h : t.Wf) (fd : Fd) : (t.accept fd).Wf := by
  have hlt : ∀ {x c}, (t.accept fd).files x = some c →
      x = fd ∧ c = t.made ∨ t.files x = some c ∧ c < t.made := by
    intro x c hx
    rw [files_accept] at hx
    split at hx
    · exact .inl ⟨‹_›, (Option.some.inj hx).symm⟩
    · exact .inr ⟨hx, h.made hx⟩
  constructor
  · intro x y c hx hy
    rcases hlt hx with ⟨rfl, rfl⟩ | ⟨hx, hc⟩ <;> rcases hlt hy with ⟨rfl, hc'⟩ | ⟨hy, hc'⟩
    · rfl
    · exact absurd hc' (lt_irrefl _)
    · exact absurd hc (hc' ▸ lt_irrefl _)
    · exact h.inj hx hy
  · intro x c hx
    rcases hlt hx with ⟨-, rfl⟩ | ⟨-, hc⟩
    · exact Nat.lt_succ_self _
    · exact Nat.lt_succ_of_lt hc

theorem Wf.close (h : t.Wf) (fd : Fd) : (t.close fd).Wf where
  inj hx hy := h.inj (files_close_eq_some.mp hx).2 (files_close_eq_some.mp hy).2
  made hx := h.made (files_close_eq_some.mp hx).2

end

end Table

/-- What `recv` returns; `again` is the error of a nonblocking socket without data. -/
inductive Recv where
  | data (bytes : List UInt8)
  | eof
  | again
  | fail
  deriving DecidableEq

/-- A call on a descriptor, with the connection that the number referred to. -/
inductive Call where
  | accept (res : Option Fd)
  | recv (fd : Fd) (target : Option Conn) (res : Recv)
  | send (fd : Fd) (target : Option Conn) (buf : List UInt8) (res : Option ℕ)
  | close (fd : Fd) (target : Option Conn)
  deriving DecidableEq

/-- `BUFFER_SIZE`. -/
abbrev bufferSize : ℕ := 1024

/-- The buffer, cleared before `recv` put `chunk` at its front. -/
def fill (chunk : List UInt8) : List UInt8 := chunk ++ List.replicate (bufferSize - chunk.length) 0

/-- The bytes of a text without a terminating zero. -/
def ascii (s : String) : List UInt8 := s.toList.map fun c => UInt8.ofNat c.toNat

/-- `recv` into a buffer of 1024 bytes returns between 1 and 1024 bytes, of an open connection. -/
def Table.CanRecv (t : Table) (fd : Fd) : Recv → Prop
  | .data bytes => 0 < bytes.length ∧ bytes.length ≤ bufferSize ∧ (t.files fd).isSome
  | _ => True

instance (t : Table) (fd : Fd) : DecidablePred (t.CanRecv fd) := fun res => by
  induction res using Recv.casesOn <;> unfold Table.CanRecv <;> infer_instance

/-- A `recv` into the buffer returns between 1 and 1024 bytes, or it returns 0 or -1. -/
def Recv.Fits : Recv → Prop
  | .data bytes => 0 < bytes.length ∧ bytes.length ≤ bufferSize
  | _ => True

instance : DecidablePred Recv.Fits := fun res => by
  induction res using Recv.casesOn <;> unfold Recv.Fits <;> infer_instance

theorem Table.canRecv_iff {t : Table} {fd : Fd} {c : Conn} {res : Recv} (h : t.files fd = some c) :
    t.CanRecv fd res ↔ res.Fits := by
  cases res <;> simp [Table.CanRecv, Recv.Fits, h]

/-! ## What came in and what went out -/

/-- What `recv` returned on the connection `c`, call by call. -/
def chunks (c : Conn) (log : List Call) : List (List UInt8) :=
  log.filterMap fun
    | .recv _ (some d) (.data bytes) => if d = c then some bytes else none
    | _ => none

/-- The bytes of the client's stream that the server read. -/
def received (c : Conn) (log : List Call) : List UInt8 := (chunks c log).flatten

/-- The bytes that `send` accepted on the connection `c`. -/
def replied (c : Conn) (log : List Call) : List UInt8 :=
  log.flatMap fun
    | .send _ (some d) buf (some m) => if d = c then buf.take m else []
    | _ => []

/-- A call that moves bytes of a client. -/
def Call.moves : Call → Bool
  | .recv _ _ (.data _) | .send .. => true
  | _ => false

/-- The log of an echo server whose `send` accepts what it is given. -/
inductive Echoes : List Call → Option (Conn × List UInt8) → Prop
  | nil : Echoes [] none
  | recv {log fd c chunk} : Echoes log none → chunk.length ≤ bufferSize →
      Echoes (log ++ [.recv fd (some c) (.data chunk)]) (some (c, chunk))
  | send {log fd c chunk} : Echoes log (some (c, chunk)) →
      Echoes (log ++ [.send fd (some c) (fill chunk) (some bufferSize)]) none
  | other {log call} : Echoes log none → call.moves = false → Echoes (log ++ [call]) none

section Echoes

variable {c : Conn} {log : List Call} {call : Call} {p : Option (Conn × List UInt8)}
  {chunk : List UInt8}

@[simp] theorem chunks_append (log log' : List Call) :
    chunks c (log ++ log') = chunks c log ++ chunks c log' :=
  List.filterMap_append ..

@[simp] theorem replied_append (log log' : List Call) :
    replied c (log ++ log') = replied c log ++ replied c log' :=
  List.flatMap_append ..

@[simp] theorem chunks_recv (fd : Fd) (d : Conn) :
    chunks c [.recv fd (some d) (.data chunk)] = if d = c then [chunk] else [] := by
  by_cases hd : d = c <;> simp [chunks, hd]

@[simp] theorem chunks_send (fd : Fd) (target : Option Conn) (res : Option ℕ) :
    chunks c [.send fd target chunk res] = [] := rfl

@[simp] theorem replied_recv (fd : Fd) (target : Option Conn) (res : Recv) :
    replied c [.recv fd target res] = [] := rfl

@[simp] theorem replied_send (fd : Fd) (d : Conn) (m : ℕ) :
    replied c [.send fd (some d) chunk (some m)] = if d = c then chunk.take m else [] := by
  simp [replied]

theorem chunks_of_not_moves (h : call.moves = false) : chunks c [call] = [] := by
  cases call with
  | recv fd target res => cases res <;> cases target <;> simp [chunks, Call.moves] at h ⊢
  | _ => rfl

theorem replied_of_not_moves (h : call.moves = false) : replied c [call] = [] := by
  cases call <;> simp [replied, Call.moves] at h ⊢

theorem length_fill (h : chunk.length ≤ bufferSize) : (fill chunk).length = bufferSize := by
  simp only [fill, List.length_append, List.length_replicate]
  omega

/-- The chunk of `c` that waits for its answer. -/
def waiting (c : Conn) : Option (Conn × List UInt8) → List (List UInt8)
  | some (d, chunk) => if d = c then [chunk] else []
  | none => []

/-- Everything that was answered was answered with a full buffer. -/
theorem Echoes.split (h : Echoes log p) : ∃ answered,
    chunks c log = answered ++ waiting c p ∧ replied c log = answered.flatMap fill ∧
      ∀ chunk ∈ chunks c log, chunk.length ≤ bufferSize := by
  induction h with
  | nil => exact ⟨[], rfl, rfl, by simp [chunks]⟩
  | @recv log fd d chunk _ hm ih =>
    obtain ⟨answered, hc, hr, hl⟩ := ih
    rw [waiting, List.append_nil] at hc
    refine ⟨answered, by simp [hc, waiting], by simp [hr], ?_⟩
    rw [chunks_append, chunks_recv]
    refine List.forall_mem_append.mpr ⟨hl, ?_⟩
    split <;> simp [hm]
  | @send log fd d chunk hp ih =>
    obtain ⟨answered, hc, hr, hl⟩ := ih
    rw [waiting] at hc
    by_cases hd : d = c
    · rw [if_pos hd] at hc
      have hm : chunk.length ≤ bufferSize := hl chunk (by simp [hc])
      refine ⟨answered ++ [chunk], by simp [hc, waiting], ?_, by simpa using hl⟩
      simp [hr, hd, List.take_of_length_le (Nat.le_of_eq (length_fill hm))]
    · rw [if_neg hd, List.append_nil] at hc
      exact ⟨answered, by simp [hc, waiting], by simp [hr, hd], by simpa using hl⟩
  | other _ hn ih =>
    obtain ⟨answered, hc, hr, hl⟩ := ih
    refine ⟨answered, ?_, ?_, ?_⟩
    · simpa [chunks_of_not_moves hn] using hc
    · simpa [replied_of_not_moves hn] using hr
    · simpa [chunks_of_not_moves hn] using hl

/-- Padding makes an answer longer, never shorter. -/
theorem length_flatten_le {l : List (List UInt8)} (hl : ∀ chunk ∈ l, chunk.length ≤ bufferSize) :
    l.flatten.length ≤ (l.flatMap fill).length := by
  induction l with
  | nil => simp
  | cons chunk l ih =>
    rw [List.forall_mem_cons] at hl
    have := ih hl.2
    simp only [List.flatten_cons, List.flatMap_cons, List.length_append, length_fill hl.1]
    omega

theorem length_eq_of_flatMap_fill {l : List (List UInt8)}
    (hl : ∀ chunk ∈ l, chunk.length ≤ bufferSize)
    (h : (l.flatMap fill).length = l.flatten.length) : ∀ chunk ∈ l, chunk.length = bufferSize := by
  induction l with
  | nil => simp
  | cons chunk l ih =>
    rw [List.forall_mem_cons] at hl ⊢
    have hle := length_flatten_le hl.2
    simp only [List.flatten_cons, List.flatMap_cons, List.length_append, length_fill hl.1] at h
    have := hl.1
    exact ⟨by omega, ih hl.2 (by omega)⟩

/-- Full buffers are the chunks only if each chunk is full. -/
theorem flatMap_fill_eq_iff {l : List (List UInt8)} (hl : ∀ chunk ∈ l, chunk.length ≤ bufferSize) :
    l.flatMap fill = l.flatten ↔ ∀ chunk ∈ l, chunk.length = bufferSize := by
  constructor
  · intro h
    exact length_eq_of_flatMap_fill hl (by rw [h])
  · intro h
    rw [List.flatten_eq_flatMap]
    refine List.flatMap_congr fun chunk hm => ?_
    simp [fill, h chunk hm]

/-- **The echo law.**  Once everything read on a connection is answered, the answers are the stream
exactly when every `recv` filled the buffer. -/
theorem Echoes.replied_eq_iff (h : Echoes log p) (hp : waiting c p = []) :
    replied c log = received c log ↔ ∀ chunk ∈ chunks c log, chunk.length = bufferSize := by
  obtain ⟨answered, hc, hr, hl⟩ := h.split (c := c)
  rw [hp, List.append_nil] at hc
  rw [hr, received, hc]
  rw [hc] at hl
  exact flatMap_fill_eq_iff hl

end Echoes

end PracticeCode.Linux
