import Mathlib.Algebra.Ring.Nat
import Mathlib.Data.List.Nodup
import Mathlib.Logic.Function.Basic

/-!
# The kernel under the event servers

What the servers of `linux_event/libevent` and `linux_io/3.io_multiplexing/epoll` use of Linux: the
descriptor table of the process, the connections of the clients, eventfd counters and one
edge-triggered epoll instance.  `α` is the `epoll_data` the program registers with a descriptor.

* `files` : the descriptor table; a closed number is `none`;
* `inbox`/`eof` : the bytes of a connection the server has not read, and whether the client closed;
* `backlog` : the connections of the listening socket that are not accepted yet;
* `reg`/`edge` : the interest list, and the edges `epoll_wait` has not returned yet.

An edge is raised at every arrival on a registered descriptor and at `EPOLL_CTL_ADD` of a readable
one; `epollWait` consumes it.  Closing a number removes it from the interest list.
-/

namespace PracticeCode.Linux

abbrev Fd := ℕ

/-- The connections, numbered in the order in which the clients connect. -/
abbrev Conn := ℕ

/-- What a descriptor refers to.  An eventfd is named after the connection it was created for. -/
inductive File where
  | std | epoll | listening
  | sock (c : Conn)
  | event (c : Conn)
  deriving DecidableEq

structure Kernel (α : Type) where
  files : Fd → Option File
  inbox : Conn → List UInt8
  eof : Conn → Bool
  counter : Conn → ℕ
  backlog : List Conn
  conns : ℕ
  reg : Fd → Option α
  edge : Fd → Bool

/-- The largest value of an eventfd counter, `0xfffffffffffffffe`. -/
abbrev eventMax : ℕ := 2 ^ 64 - 2

namespace Kernel

variable {α : Type}

/-- The process after `main` registered the listening socket `sfd` with the epoll instance `efd`,
before the first client. -/
def boot (efd sfd : Fd) (listen : α) : Kernel α where
  files fd :=
    if fd < 3 then some .std else if fd = efd then some .epoll
    else if fd = sfd then some .listening else none
  inbox _ := []
  eof _ := false
  counter _ := 0
  backlog := []
  conns := 0
  reg fd := if fd = sfd then some listen else none
  edge _ := false

/-! ## Readiness and edges -/

/-- Whether `EPOLLIN` holds of a file. -/
def ready (k : Kernel α) : File → Bool
  | .listening => !k.backlog.isEmpty
  | .sock c => !(k.inbox c).isEmpty || k.eof c
  | .event c => decide (0 < k.counter c)
  | _ => false

def readyFd (k : Kernel α) (fd : Fd) : Bool := (k.files fd).any k.ready

/-- An arrival on `f`: every registered descriptor of `f` has an edge to deliver. -/
def raise (k : Kernel α) (f : File) : Kernel α :=
  { k with edge := fun fd => k.edge fd || (decide (k.files fd = some f) && (k.reg fd).isSome) }

/-! ## The clients -/

def connect (k : Kernel α) : Kernel α :=
  { k with backlog := k.backlog ++ [k.conns], conns := k.conns + 1 }.raise .listening

def clientSend (k : Kernel α) (c : Conn) (bytes : List UInt8) : Option (Kernel α) :=
  if c < k.conns ∧ k.eof c = false ∧ bytes ≠ [] then
    some ({ k with inbox := Function.update k.inbox c (k.inbox c ++ bytes) }.raise (.sock c))
  else none

def clientClose (k : Kernel α) (c : Conn) : Option (Kernel α) :=
  if c < k.conns ∧ k.eof c = false then
    some ({ k with eof := Function.update k.eof c true }.raise (.sock c))
  else none

/-! ## System calls of the server -/

/-- `fd` is the number the kernel gives to a new descriptor. -/
def LowestFree (k : Kernel α) (fd : Fd) : Prop :=
  k.files fd = none ∧ ∀ m < fd, k.files m ≠ none

instance (k : Kernel α) : DecidablePred k.LowestFree := fun _ => by
  unfold LowestFree; infer_instance

/-- `accept(lfd)` on a listening socket, which returns the number `fd`. -/
def accept (k : Kernel α) (lfd fd : Fd) : Option (Conn × Kernel α) :=
  match k.backlog with
  | [] => none
  | c :: rest =>
    if k.files lfd = some .listening ∧ k.files fd = none then
      some (c, { k with backlog := rest, files := Function.update k.files fd (some (.sock c)) })
    else none

/-- `eventfd(0, EFD_SEMAPHORE|EFD_NONBLOCK)`, which returns the number `fd`. -/
def eventfd (k : Kernel α) (fd : Fd) (c : Conn) : Option (Kernel α) :=
  if k.files fd = none then
    some { k with
      files := Function.update k.files fd (some (.event c))
      counter := Function.update k.counter c 0 }
  else none

inductive RecvResult where
  | data (c : Conn) (chunk : List UInt8)
  | eof
  | again
  | fail
  deriving DecidableEq

/-- A nonblocking `recv` of at most `n` bytes. -/
def recv (k : Kernel α) (fd : Fd) (n : ℕ) : RecvResult × Kernel α :=
  match k.files fd with
  | some (.sock c) =>
    if k.inbox c ≠ [] then
      (.data c ((k.inbox c).take n),
        { k with inbox := Function.update k.inbox c ((k.inbox c).drop n) })
    else if k.eof c then (.eof, k) else (.again, k)
  | _ => (.fail, k)

/-- The results of a `send` of `len` bytes: `none` is -1, `some m` a count. -/
def CanSend (k : Kernel α) (fd : Fd) (len : ℕ) : Option ℕ → Prop
  | none => True
  | some m => m ≤ len ∧ ((k.files fd).any fun f => f matches .sock _) = true

instance (k : Kernel α) (fd : Fd) (len : ℕ) : DecidablePred (k.CanSend fd len) := fun res => by
  induction res using Option.casesOn <;> unfold CanSend <;> infer_instance

inductive ReadResult where
  | ok | again | other
  deriving DecidableEq

/-- `read(fd, &u, sizeof(uint64_t))`: `ok` when it returns 8, `again` on `EAGAIN`.  An eventfd in
semaphore mode gives one unit; a socket gives what it has. -/
def readU64 (k : Kernel α) (fd : Fd) : ReadResult × Kernel α :=
  match k.files fd with
  | some (.event c) =>
    if 0 < k.counter c then
      (.ok, { k with counter := Function.update k.counter c (k.counter c - 1) })
    else (.again, k)
  | some (.sock c) =>
    if k.inbox c ≠ [] then
      (if 8 ≤ (k.inbox c).length then .ok else .other,
        { k with inbox := Function.update k.inbox c ((k.inbox c).drop 8) })
    else if k.eof c then (.other, k) else (.again, k)
  | _ => (.other, k)

/-- `write(fd, &u, sizeof(uint64_t))` with `u = 1`; only an eventfd counts it. -/
def writeU64 (k : Kernel α) (fd : Fd) : Kernel α :=
  match k.files fd with
  | some (.event c) =>
    if k.counter c + 1 ≤ eventMax then
      { k with counter := Function.update k.counter c (k.counter c + 1) }.raise (.event c)
    else k
  | _ => k

def close (k : Kernel α) (fd : Fd) : Kernel α :=
  { k with
    files := Function.update k.files fd none
    reg := Function.update k.reg fd none
    edge := Function.update k.edge fd false }

/-- The process ends: the kernel closes every descriptor. -/
def exit (k : Kernel α) : Kernel α :=
  { k with files := fun _ => none, reg := fun _ => none, edge := fun _ => false }

/-! ## epoll -/

/-- `EPOLL_CTL_ADD` with `EPOLLIN|EPOLLET`; it fails on a closed or registered number. -/
def ctlAdd (k : Kernel α) (fd : Fd) (data : α) : Option (Kernel α) :=
  if k.files fd ≠ none ∧ (k.reg fd).isNone then
    some { k with
      reg := Function.update k.reg fd (some data)
      edge := Function.update k.edge fd (k.readyFd fd) }
  else none

/-- `EPOLL_CTL_DEL`; it fails on a closed or unregistered number. -/
def ctlDel (k : Kernel α) (fd : Fd) : Option (Kernel α) :=
  if k.files fd ≠ none ∧ (k.reg fd).isSome then
    some { k with
      reg := Function.update k.reg fd none
      edge := Function.update k.edge fd false }
  else none

/-- One entry of the array `epoll_wait` fills: the registered data and the bit `EPOLLIN`. -/
def report (k : Kernel α) (fd : Fd) : Option (α × Bool) :=
  (k.reg fd).map fun data => (data, k.readyFd fd)

/-- `epoll_wait` returns the edges of `fds` and consumes them. -/
def epollWait (k : Kernel α) (maxevents : ℕ) (fds : List Fd) :
    Option (List (α × Bool) × Kernel α) :=
  if fds ≠ [] ∧ fds.length ≤ maxevents ∧ fds.Nodup ∧ ∀ fd ∈ fds, k.edge fd = true then
    some (fds.filterMap k.report, { k with edge := fun fd => k.edge fd && decide (fd ∉ fds) })
  else none

end Kernel

end PracticeCode.Linux
