import PracticeCode.Lib.Run
import Mathlib.Algebra.Ring.Nat
import Mathlib.Data.List.InsertIdx
import Mathlib.Data.List.Nodup
import Mathlib.Data.List.Perm.Basic
import Mathlib.Logic.Function.Basic

/-!
# `ReadByKernelAIO`, and three ways to get it wrong

`n` reads of one block each are prepared and submitted, and `CheckByIOGetevents` waits for `n`
events and calls the callback of each.  The kernel copies an `iocb` when it is submitted, but an
event only points back to it (`e.obj`), and the callback reads the `iocb` that stands there then,
and the buffer that this one points to.

`ReadByKernelAIOSubmitError1`, `ReadByKernelAIOSubmitError2` and `ReadByKernelAIOAllocError` are the
same loop with other addresses (`Variant`), and their comments say what goes wrong.

`completion` records which tasks the kernel completed or gave up.  Where `io_submit` refuses a
submission the functions return at once, without a callback.

* `readByKernelAIO_calls`: every run of `ReadByKernelAIO` is bounded, gets stuck nowhere, and calls
  the callback once for each block, in the order of completion, with this block in the buffer;
* `submitError1_waits`: `ReadByKernelAIOSubmitError1` has one read submitted, and waits for good;
* `submitError2_calls`: in `ReadByKernelAIOSubmitError2` every callback finds the last `iocb`;
* `allocError_calls`: in `ReadByKernelAIOAllocError` every callback finds the one buffer, with the
  block that was read last.
-/

namespace PracticeCode.KernelAio

open Lib

namespace Callbacks

abbrev SEQ_BUF_SIZE : ℕ := 1024

abbrev Addr := ℕ

inductive Callback where
  | LibioCallback
  deriving DecidableEq

/-- An `iocb`: `u.c.buf`, `u.c.nbytes`, `u.c.offset`, and the callback in `data`. -/
structure Iocb where
  buf : Addr
  nbytes : ℕ
  offset : ℕ
  data : Option Callback
  deriving DecidableEq

/-- What the functions differ in.  A buffer is a cell of `SEQ_BUF_SIZE` bytes. -/
structure Variant where
  /-- The address of the `iocb` of a task. -/
  iocb : ℕ → Addr
  buf : ℕ → Addr
  /-- `io_submit(ctx, 1, &io_cb_ptr)` stands in the loop. -/
  each : Bool
  /-- The words that the `io_submit` behind the loop finds; `none` is no readable pointer. -/
  iocbpp : List (Option Addr)

/-- `io_submit(ctx, MAX_EVENT, &io_cb_ptr)`: behind the pointer is what the stack holds. -/
def ReadByKernelAioSubmitError1 (stack : List (Option Addr)) : Variant :=
  ⟨id, id, false, some 0 :: stack⟩

/-- The `iocb` is a local variable of the loop, and nothing else is written there later. -/
def ReadByKernelAioSubmitError2 : Variant := ⟨fun _ => 0, id, true, []⟩

/-- What the kernel keeps of a submitted `iocb`. -/
structure Request where
  obj : Addr
  cb : Iocb
  deriving DecidableEq

/-- `io_event`; a failed read has no `res`. -/
structure Event where
  obj : Addr
  res : Option ℕ
  deriving DecidableEq

/-- A call of `LibioCallback`, with the buffer as it finds it. -/
structure Call where
  res : Option ℕ
  nbytes : ℕ
  offset : ℕ
  buf : List UInt8
  deriving DecidableEq

inductive Point where
  /-- The head of the `for` loop, and the statements of its body. -/
  | prep (i : ℕ)
  | setCallback (i : ℕ)
  | submit (i : ℕ)
  | submitAll
  -- `CheckByIOGetevents`
  | getevents
  | events (es : List Event)
  | done
  /-- `return ""` -/
  | failed
  /-- An `iocb` without a callback was called back. -/
  | undefined
  deriving DecidableEq

structure State where
  iocbs : Addr → Option Iocb
  bufs : Addr → List UInt8
  inflight : List Request
  ring : List Event
  calls : List Call
  point : Point

/-- `io_setup` succeeded; `fill` is what `posix_memalign` left in the buffers. -/
def init (fill : Addr → List UInt8) : State := ⟨fun _ => none, fill, [], [], [], .prep 0⟩

inductive Act where
  | next
  | submitFail
  /-- The kernel completes a read that is in flight, or gives it up. -/
  | complete (k : ℕ) (ok : Bool)
  deriving DecidableEq

/-- The block of a file. -/
def block (file : List UInt8) (i : ℕ) : List UInt8 :=
  (file.drop (i * SEQ_BUF_SIZE)).take SEQ_BUF_SIZE

/-- `io_prep_pread(cb, fd, buf, SEQ_BUF_SIZE, offset)`, which clears the rest. -/
def io_prep_pread (v : Variant) (i : ℕ) : Iocb := ⟨v.buf i, SEQ_BUF_SIZE, i * SEQ_BUF_SIZE, none⟩

def io_set_callback (cb : Iocb) : Iocb := { cb with data := some .LibioCallback }

/-- The requests that `io_submit` takes: it stops at the first pointer that is none. -/
def io_submit (iocbs : Addr → Option Iocb) : List (Option Addr) → List Request
  | some a :: words => match iocbs a with
    | some cb => ⟨a, cb⟩ :: io_submit iocbs words
    | none => []
  | _ => []

/-- The bytes that are read stand at the front of the buffer. -/
def overlay (cell bytes : List UInt8) : List UInt8 := bytes ++ cell.drop bytes.length

def step (n : ℕ) (v : Variant) (file : List UInt8) (s : State) : Act → Option State
  | .next => match s.point with
    | .prep i =>
      if i < n then some { s with
        iocbs := Function.update s.iocbs (v.iocb i) (some (io_prep_pread v i))
        point := .setCallback i }
      else some { s with point := if v.each then .getevents else .submitAll }
    | .setCallback i => some { s with
        iocbs := Function.update s.iocbs (v.iocb i) ((s.iocbs (v.iocb i)).map io_set_callback)
        point := if v.each then .submit i else .prep (i + 1) }
    | .submit i =>
      let taken := io_submit s.iocbs [some (v.iocb i)]
      if taken = [] then some { s with point := .failed }
      else some { s with inflight := s.inflight ++ taken, point := .prep (i + 1) }
    | .submitAll =>
      let words := v.iocbpp.take n
      let taken := io_submit s.iocbs words
      if words ≠ [] ∧ taken = [] then some { s with point := .failed }
      else some { s with inflight := s.inflight ++ taken, point := .getevents }
    | .getevents =>
      if n ≤ s.ring.length then
        some { s with ring := s.ring.drop n, point := .events (s.ring.take n) }
      else none
    | .events (e :: es) => match s.iocbs e.obj with
      | some ⟨buf, nbytes, offset, some .LibioCallback⟩ =>
        some { s with
          calls := s.calls ++ [⟨e.res, nbytes, offset, s.bufs buf⟩], point := .events es }
      | _ => some { s with point := .undefined }
    | .events [] => some { s with point := .done }
    | _ => none
  | .submitFail => match s.point with
    | .submit _ | .submitAll => some { s with point := .failed }
    | _ => none
  | .complete k ok => match s.inflight[k]? with
    | some ⟨obj, cb⟩ =>
      if ok then
        let bytes := (file.drop cb.offset).take cb.nbytes
        some { s with
          bufs := Function.update s.bufs cb.buf (overlay (s.bufs cb.buf) bytes)
          inflight := s.inflight.eraseIdx k, ring := s.ring ++ [⟨obj, some bytes.length⟩] }
      else some { s with inflight := s.inflight.eraseIdx k, ring := s.ring ++ [⟨obj, none⟩] }
    | none => none

/-- The task that the kernel completes or gives up in the step, which its offset tells. -/
def completion (s : State) : Act → List (ℕ × Bool)
  | .complete k ok => (s.inflight[k]?.map fun r => (r.cb.offset / SEQ_BUF_SIZE, ok)).toList
  | _ => []

/-! ## The inversion of `step` -/

section Outcome

variable {n : ℕ} {v : Variant} {file : List UInt8} {s s' : State} {a : Act}

inductive Outcome (n : ℕ) (v : Variant) (file : List UInt8) (s : State) : Act → State → Prop
  | prep {i} : s.point = .prep i → i < n → Outcome n v file s .next { s with
      iocbs := Function.update s.iocbs (v.iocb i) (some (io_prep_pread v i))
      point := .setCallback i }
  | prepared {i} : s.point = .prep i → ¬ i < n →
      Outcome n v file s .next { s with point := if v.each then .getevents else .submitAll }
  | setCallback {i} : s.point = .setCallback i → Outcome n v file s .next { s with
      iocbs := Function.update s.iocbs (v.iocb i) ((s.iocbs (v.iocb i)).map io_set_callback)
      point := if v.each then .submit i else .prep (i + 1) }
  | submit {i} : s.point = .submit i → Outcome n v file s .next { s with
      inflight := s.inflight ++ io_submit s.iocbs [some (v.iocb i)], point := .prep (i + 1) }
  | submitAll : s.point = .submitAll → Outcome n v file s .next { s with
      inflight := s.inflight ++ io_submit s.iocbs (v.iocbpp.take n), point := .getevents }
  | fail {b} : (∃ i, s.point = .submit i) ∨ s.point = .submitAll → b = .next ∨ b = .submitFail →
      Outcome n v file s b { s with point := .failed }
  | getevents : s.point = .getevents → n ≤ s.ring.length → Outcome n v file s .next { s with
      ring := s.ring.drop n, point := .events (s.ring.take n) }
  | callback {e es cb} : s.point = .events (e :: es) → s.iocbs e.obj = some cb →
      Outcome n v file s .next { s with
        calls := s.calls ++ [⟨e.res, cb.nbytes, cb.offset, s.bufs cb.buf⟩], point := .events es }
  | undefined {e es} : s.point = .events (e :: es) →
      (∀ cb, s.iocbs e.obj = some cb → cb.data = none) →
      Outcome n v file s .next { s with point := .undefined }
  | done : s.point = .events [] → Outcome n v file s .next { s with point := .done }
  | complete {k obj cb} : s.inflight[k]? = some ⟨obj, cb⟩ →
      Outcome n v file s (.complete k true) { s with
        bufs := Function.update s.bufs cb.buf
          (overlay (s.bufs cb.buf) ((file.drop cb.offset).take cb.nbytes))
        inflight := s.inflight.eraseIdx k
        ring := s.ring ++ [⟨obj, some ((file.drop cb.offset).take cb.nbytes).length⟩] }
  | giveUp {k r} : s.inflight[k]? = some r → Outcome n v file s (.complete k false) { s with
      inflight := s.inflight.eraseIdx k, ring := s.ring ++ [⟨r.obj, none⟩] }

theorem outcome_of_step (h : step n v file s a = some s') : Outcome n v file s a s' := by
  cases a with
  | next =>
    simp only [step] at h
    split at h
    · rename_i i hp
      split at h
      · rename_i hi
        obtain rfl := Option.some.inj h
        exact .prep hp hi
      · rename_i hi
        obtain rfl := Option.some.inj h
        exact .prepared hp hi
    · rename_i i hp
      obtain rfl := Option.some.inj h
      exact .setCallback hp
    · rename_i i hp
      split at h
      · obtain rfl := Option.some.inj h
        exact .fail (.inl ⟨i, hp⟩) (.inl rfl)
      · obtain rfl := Option.some.inj h
        exact .submit hp
    · rename_i hp
      split at h
      · obtain rfl := Option.some.inj h
        exact .fail (.inr hp) (.inl rfl)
      · obtain rfl := Option.some.inj h
        exact .submitAll hp
    · rename_i hp
      simp only [Option.ite_none_right_eq_some, Option.some.injEq] at h
      obtain ⟨hle, rfl⟩ := h
      exact .getevents hp hle
    · rename_i e es hp
      split at h
      · rename_i hcb
        obtain rfl := Option.some.inj h
        exact .callback hp hcb
      · rename_i hno
        obtain rfl := Option.some.inj h
        refine .undefined hp fun cb hcb => ?_
        obtain ⟨buf, nbytes, offset, data⟩ := cb
        cases data with
        | none => rfl
        | some c => exact absurd hcb (hno buf nbytes offset)
    · rename_i hp
      obtain rfl := Option.some.inj h
      exact .done hp
    · cases h
  | submitFail =>
    simp only [step] at h
    split at h
    · rename_i i hp
      obtain rfl := Option.some.inj h
      exact .fail (.inl ⟨i, hp⟩) (.inr rfl)
    · rename_i hp
      obtain rfl := Option.some.inj h
      exact .fail (.inr hp) (.inr rfl)
    · cases h
  | complete k ok =>
    simp only [step] at h
    split at h
    · rename_i obj cb hk
      cases ok with
      | true =>
        obtain rfl := Option.some.inj h
        exact .complete hk
      | false =>
        obtain rfl := Option.some.inj h
        exact .giveUp hk
    · cases h

end Outcome

/-! ## The tasks -/

section Tasks

variable (v : Variant) (file : List UInt8)

/-- The `iocb` of a task. -/
def full (i : ℕ) : Iocb := io_set_callback (io_prep_pread v i)

def request (i : ℕ) : Request := ⟨v.iocb i, full v i⟩

/-- The memory of the `iocb`s behind the first `m` tasks. -/
def mem (m : ℕ) : Addr → Option Iocb :=
  (List.range m).foldl (fun iocbs i => Function.update iocbs (v.iocb i) (some (full v i)))
    fun _ => none

/-- The event of a task that was read or given up. -/
def event (d : ℕ × Bool) : Event :=
  ⟨v.iocb d.1, if d.2 then some (block file d.1).length else none⟩

/-- What a read leaves in the buffers. -/
def write (bufs : Addr → List UInt8) (d : ℕ × Bool) : Addr → List UInt8 :=
  if d.2 then Function.update bufs (v.buf d.1) (overlay (bufs (v.buf d.1)) (block file d.1))
  else bufs

/-- The buffers behind some reads. -/
def written (fill : Addr → List UInt8) (ds : List (ℕ × Bool)) : Addr → List UInt8 :=
  ds.foldl (write v file) fill

theorem mem_succ (m : ℕ) :
    mem v (m + 1) = Function.update (mem v m) (v.iocb m) (some (full v m)) := by
  simp [mem, List.range_succ]

/-- A variant submits the first `k` tasks; where the `iocb` of a task was, that of its `owner` is in
the end. -/
structure Yields (n k : ℕ) (owner : ℕ → ℕ) : Prop where
  le : k ≤ n
  iocb : ∀ i < n, mem v n (v.iocb i) = some (full v (owner i))
  once : v.each = false → io_submit (mem v n) (v.iocbpp.take n) = (List.range k).map (request v)
  pos : v.each = false → v.iocbpp.take n ≠ [] → 0 < k
  each : v.each = true → k = n

/-- What the callback of a task reports. -/
def call (owner : ℕ → ℕ) (bufs : Addr → List UInt8) (d : ℕ × Bool) : Call :=
  ⟨(event v file d).res, SEQ_BUF_SIZE, owner d.1 * SEQ_BUF_SIZE, bufs (v.buf (owner d.1))⟩

end Tasks

/-! ## The invariant -/

/-- `m` tasks are submitted: `fl` are in flight, and `ds` were completed in this order. -/
structure Tracked (v : Variant) (file : List UInt8) (fill : Addr → List UInt8) (s : State) (m : ℕ)
    (fl : List ℕ) (ds : List (ℕ × Bool)) : Prop where
  inflight : s.inflight = fl.map (request v)
  perm : (fl ++ ds.map Prod.fst).Perm (List.range m)
  bufs : s.bufs = written v file fill ds

/-- The memory of the `iocb`s, and the number of tasks that are submitted. -/
def AtPoint (n k : ℕ) (v : Variant) (s : State) (m : ℕ) : Prop :=
  match s.point with
  | .prep i => i ≤ n ∧ s.iocbs = mem v i ∧ m = if v.each then i else 0
  | .setCallback i => i < n ∧ m = (if v.each then i else 0) ∧
      s.iocbs = Function.update (mem v i) (v.iocb i) (some (io_prep_pread v i))
  | .submit i => i < n ∧ m = i ∧ s.iocbs = mem v (i + 1) ∧ v.each = true
  | .submitAll => s.iocbs = mem v n ∧ m = 0 ∧ v.each = false
  | .getevents | .events _ | .done => s.iocbs = mem v n ∧ m = k
  | .failed => True
  | .undefined => False

/-- The events of `CheckByIOGetevents` that are still to be handled. -/
def Point.rest : Point → Option (List Event)
  | .events es => some es
  | .done => some []
  | _ => none

/-- Before `io_getevents` returns the completions are on the ring; then they are called back one
after the other, and none is to come. -/
def Reported (n k : ℕ) (owner : ℕ → ℕ) (v : Variant) (file : List UInt8) (s : State) (fl : List ℕ)
    (ds : List (ℕ × Bool)) : Prop :=
  match s.point.rest with
  | none => s.ring = ds.map (event v file) ∧ s.calls = []
  | some es => fl = [] ∧ k = n ∧ ∃ called rest, ds = called ++ rest ∧
      es = rest.map (event v file) ∧ s.calls = called.map (call v file owner s.bufs)

def Inv (n k : ℕ) (owner : ℕ → ℕ) (v : Variant) (file : List UInt8) (fill : Addr → List UInt8)
    (s : State) (ds : List (ℕ × Bool)) : Prop :=
  ∃ m fl, Tracked v file fill s m fl ds ∧ AtPoint n k v s m ∧ Reported n k owner v file s fl ds

section Invariant

variable {n k m : ℕ} {owner : ℕ → ℕ} {v : Variant} {file : List UInt8} {fill : Addr → List UInt8}
  {s s' : State} {a : Act} {fl : List ℕ} {ds : List (ℕ × Bool)}

theorem init_inv (n k : ℕ) (owner : ℕ → ℕ) (v : Variant) (file : List UInt8)
    (fill : Addr → List UInt8) : Inv n k owner v file fill (init fill) [] := by
  refine ⟨0, [], ⟨rfl, by simp, rfl⟩, ⟨Nat.zero_le n, rfl, ?_⟩, rfl, rfl⟩
  split <;> rfl

/-- More tasks are submitted. -/
theorem Tracked.submit (h : Tracked v file fill s m fl ds) {js : List ℕ} {m' : ℕ}
    (hr : List.range m' = List.range m ++ js) {iocbs : Addr → Option Iocb} {pt : Point}
    {taken : List Request} (ht : taken = js.map (request v)) :
    Tracked v file fill { s with iocbs := iocbs, inflight := s.inflight ++ taken, point := pt } m'
      (fl ++ js) ds where
  inflight := by rw [h.inflight, ht, List.map_append]
  perm := by
    rw [hr]
    refine List.Perm.trans ?_ (h.perm.append_right js)
    rw [List.append_assoc, List.append_assoc]
    exact List.perm_append_comm.append_left fl
  bufs := h.bufs

/-- A task is completed. -/
theorem Tracked.complete (h : Tracked v file fill s m fl ds) {i : ℕ} {r : Request}
    (hi : s.inflight[i]? = some r) : ∃ j, r = request v j ∧ ∀ ok ring,
      Tracked v file fill { s with
        bufs := write v file s.bufs (j, ok), inflight := s.inflight.eraseIdx i, ring := ring } m
        (fl.eraseIdx i) (ds ++ [(j, ok)]) := by
  rw [h.inflight, List.getElem?_map] at hi
  obtain ⟨j, hj, rfl⟩ := Option.map_eq_some_iff.mp hi
  obtain ⟨hlt, rfl⟩ := List.getElem?_eq_some_iff.mp hj
  refine ⟨fl[i], rfl, fun ok ring => ⟨?_, ?_, ?_⟩⟩
  · change s.inflight.eraseIdx i = _
    rw [h.inflight, List.eraseIdx_map]
  · refine List.Perm.trans ?_ h.perm
    rw [List.map_append, ← List.append_assoc]
    refine List.perm_append_comm.trans ?_
    exact (List.getElem_cons_eraseIdx_perm hlt).append_right (ds.map Prod.fst)
  · change write v file s.bufs (fl[i], ok) = _
    rw [h.bufs, written, written, List.foldl_append]
    rfl

/-- All tasks are called back only when all are submitted and completed. -/
theorem Tracked.all (h : Tracked v file fill s m fl ds) (hlt : m ≤ ds.length) :
    fl = [] ∧ ds.length = m := by
  have hlen := h.perm.length_eq
  rw [List.length_append, List.length_map, List.length_range] at hlen
  exact ⟨List.eq_nil_of_length_eq_zero (by omega), by omega⟩

/-- A step of the functions keeps what is tracked. -/
theorem Tracked.same (h : Tracked v file fill s m fl ds) (hi : s'.inflight = s.inflight)
    (hb : s'.bufs = s.bufs) : Tracked v file fill s' m fl ds :=
  ⟨hi.trans h.inflight, h.perm, hb.trans h.bufs⟩

theorem Reported.of_none (hr : Reported n k owner v file s fl ds) (hp : s.point.rest = none) :
    s.ring = ds.map (event v file) ∧ s.calls = [] := by
  simpa only [Reported, hp] using hr

theorem Reported.of_some (hr : Reported n k owner v file s fl ds) {es : List Event}
    (hp : s.point.rest = some es) : fl = [] ∧ k = n ∧ ∃ called rest, ds = called ++ rest ∧
      es = rest.map (event v file) ∧ s.calls = called.map (call v file owner s.bufs) := by
  simpa only [Reported, hp] using hr

/-- Nothing is reported yet. -/
theorem Reported.goto {fl' : List ℕ} (hr : Reported n k owner v file s fl ds)
    (hp : s.point.rest = none) (hp' : s'.point.rest = none) (hring : s'.ring = s.ring)
    (hcalls : s'.calls = s.calls) : Reported n k owner v file s' fl' ds := by
  obtain ⟨h1, h2⟩ := hr.of_none hp
  unfold Reported
  rw [hp']
  exact ⟨hring.trans h1, hcalls.trans h2⟩

theorem inv_prep (h : Inv n k owner v file fill s ds) {i : ℕ} (hp : s.point = .prep i)
    (hi : i < n) :
    Inv n k owner v file fill { s with
      iocbs := Function.update s.iocbs (v.iocb i) (some (io_prep_pread v i))
      point := .setCallback i } ds := by
  obtain ⟨m, fl, ht, hpt, hr⟩ := h
  simp only [AtPoint, hp] at hpt
  obtain ⟨-, hmem, hm⟩ := hpt
  refine ⟨m, fl, ht.same rfl rfl, ⟨hi, hm, ?_⟩, hr.goto (by rw [hp]; rfl) rfl rfl rfl⟩
  rw [hmem]

theorem inv_prepared (hY : Yields v n k owner) (h : Inv n k owner v file fill s ds) {i : ℕ}
    (hp : s.point = .prep i) (hi : ¬ i < n) :
    Inv n k owner v file fill { s with point := if v.each then .getevents else .submitAll } ds := by
  obtain ⟨m, fl, ht, hpt, hr⟩ := h
  simp only [AtPoint, hp] at hpt
  obtain ⟨hle, hmem, hm⟩ := hpt
  obtain rfl : i = n := by omega
  refine ⟨m, fl, ht.same rfl rfl, ?_, hr.goto (by rw [hp]; rfl) ?_ rfl rfl⟩
  · cases he : v.each with
    | true =>
      rw [he] at hm
      exact ⟨hmem, hm.trans (hY.each he).symm⟩
    | false =>
      rw [he] at hm
      exact ⟨hmem, hm, he⟩
  · cases v.each <;> rfl

theorem inv_setCallback (h : Inv n k owner v file fill s ds) {i : ℕ}
    (hp : s.point = .setCallback i) :
    Inv n k owner v file fill { s with
      iocbs := Function.update s.iocbs (v.iocb i) ((s.iocbs (v.iocb i)).map io_set_callback)
      point := if v.each then .submit i else .prep (i + 1) } ds := by
  obtain ⟨m, fl, ht, hpt, hr⟩ := h
  simp only [AtPoint, hp] at hpt
  obtain ⟨hi, hm, hmem⟩ := hpt
  have hfull : Function.update s.iocbs (v.iocb i) ((s.iocbs (v.iocb i)).map io_set_callback) =
      mem v (i + 1) := by
    rw [hmem, Function.update_self, Function.update_idem, mem_succ]
    rfl
  refine ⟨m, fl, ht.same rfl rfl, ?_, hr.goto (by rw [hp]; rfl) ?_ rfl rfl⟩
  · cases he : v.each with
    | true =>
      rw [he] at hm
      exact ⟨hi, hm, hfull, he⟩
    | false =>
      rw [he] at hm
      refine ⟨hi, hfull, ?_⟩
      rw [hm, he]
      rfl
  · cases v.each <;> rfl

theorem inv_submit (h : Inv n k owner v file fill s ds) {i : ℕ} (hp : s.point = .submit i) :
    Inv n k owner v file fill { s with
      inflight := s.inflight ++ io_submit s.iocbs [some (v.iocb i)]
      point := .prep (i + 1) } ds := by
  obtain ⟨m, fl, ht, hpt, hr⟩ := h
  simp only [AtPoint, hp] at hpt
  obtain ⟨hi, rfl, hmem, he⟩ := hpt
  have hone : io_submit s.iocbs [some (v.iocb m)] = [m].map (request v) := by
    rw [hmem, mem_succ]
    simp [io_submit, request]
  refine ⟨m + 1, fl ++ [m], ht.submit List.range_succ hone, ⟨hi, hmem, ?_⟩, ?_⟩
  · rw [he]
    rfl
  · exact hr.goto (by rw [hp]; rfl) rfl rfl rfl

theorem inv_submitAll (hY : Yields v n k owner) (h : Inv n k owner v file fill s ds)
    (hp : s.point = .submitAll) : Inv n k owner v file fill { s with
      inflight := s.inflight ++ io_submit s.iocbs (v.iocbpp.take n), point := .getevents } ds := by
  obtain ⟨m, fl, ht, hpt, hr⟩ := h
  simp only [AtPoint, hp] at hpt
  obtain ⟨hmem, rfl, he⟩ := hpt
  refine ⟨k, fl ++ List.range k, ht.submit (by simp) ?_, ⟨hmem, rfl⟩, ?_⟩
  · rw [hmem, hY.once he]
  · exact hr.goto (by rw [hp]; rfl) rfl rfl rfl

theorem inv_getevents (hY : Yields v n k owner) (h : Inv n k owner v file fill s ds)
    (hp : s.point = .getevents) (hle : n ≤ s.ring.length) : Inv n k owner v file fill { s with
      ring := s.ring.drop n, point := .events (s.ring.take n) } ds := by
  obtain ⟨m, fl, ht, hpt, hr⟩ := h
  simp only [AtPoint, hp] at hpt
  obtain ⟨hmem, rfl⟩ := hpt
  obtain ⟨hring, hcalls⟩ := hr.of_none (by rw [hp]; rfl)
  have hlen : s.ring.length = ds.length := by rw [hring, List.length_map]
  have hk := hY.le
  obtain ⟨rfl, hds⟩ := ht.all (by omega)
  have htake : s.ring.take n = ds.map (event v file) := by
    rw [List.take_of_length_le (by omega), hring]
  refine ⟨m, [], ht.same rfl rfl, ⟨hmem, rfl⟩, rfl, by omega, [], ds, rfl, htake, hcalls⟩

theorem inv_callback (hY : Yields v n k owner) (h : Inv n k owner v file fill s ds) {e : Event}
    {es : List Event} {cb : Iocb} (hp : s.point = .events (e :: es))
    (hcb : s.iocbs e.obj = some cb) : Inv n k owner v file fill { s with
      calls := s.calls ++ [⟨e.res, cb.nbytes, cb.offset, s.bufs cb.buf⟩]
      point := .events es } ds := by
  obtain ⟨m, fl, ht, hpt, hr⟩ := h
  simp only [AtPoint, hp] at hpt
  obtain ⟨hmem, rfl⟩ := hpt
  obtain ⟨rfl, rfl, called, rest, rfl, hes, hcalls⟩ := hr.of_some (by rw [hp]; rfl)
  obtain ⟨d, rest, rfl, rfl, rfl⟩ := List.map_eq_cons_iff.mp hes.symm
  have hd : d.1 < m := by
    have hmem : d.1 ∈ List.range m := ht.perm.mem_iff.mp (by simp)
    exact List.mem_range.mp hmem
  obtain rfl : full v (owner d.1) = cb := by
    rw [hmem] at hcb
    exact Option.some.inj ((hY.iocb d.1 hd).symm.trans hcb)
  refine ⟨m, [], ht.same rfl rfl, ⟨hmem, rfl⟩, rfl, rfl, called ++ [d], rest,
    by simp, rfl, ?_⟩
  rw [List.map_append]
  exact congrArg (· ++ _) hcalls

/-- A completion puts its event on the ring. -/
theorem inv_complete (h : Inv n k owner v file fill s ds) {i : ℕ} {r : Request}
    (hi : s.inflight[i]? = some r) : ∃ j, r = request v j ∧ ∀ ok,
      Inv n k owner v file fill { s with
        bufs := write v file s.bufs (j, ok), inflight := s.inflight.eraseIdx i
        ring := s.ring ++ [event v file (j, ok)] } (ds ++ [(j, ok)]) := by
  obtain ⟨m, fl, ht, hpt, hr⟩ := h
  obtain ⟨j, rfl, hdone⟩ := ht.complete hi
  refine ⟨j, rfl, fun ok => ⟨m, fl.eraseIdx i, hdone ok _, hpt, ?_⟩⟩
  cases hrest : s.point.rest with
  | none =>
    obtain ⟨hring, hcalls⟩ := hr.of_none hrest
    simp only [Reported, hrest, List.map_append]
    exact ⟨congrArg (· ++ _) hring, hcalls⟩
  | some es =>
    -- nothing is in flight any more
    obtain ⟨rfl, -⟩ := hr.of_some hrest
    simp [ht.inflight] at hi

/-- The offset of a request tells its task. -/
theorem completion_eq {i j : ℕ} (hi : s.inflight[i]? = some (request v j)) (ok : Bool) :
    completion s (.complete i ok) = [(j, ok)] := by
  have hoff : (full v j).offset / SEQ_BUF_SIZE = j := Nat.mul_div_cancel j (by decide)
  simp [completion, hi, request, hoff]

theorem inv_step (hY : Yields v n k owner) (h : Inv n k owner v file fill s ds)
    (hs : step n v file s a = some s') : Inv n k owner v file fill s' (ds ++ completion s a) := by
  cases outcome_of_step hs with
  | prep hp hi => simpa [completion] using inv_prep h hp hi
  | prepared hp hi => simpa [completion] using inv_prepared hY h hp hi
  | setCallback hp => simpa [completion] using inv_setCallback h hp
  | submit hp => simpa [completion] using inv_submit h hp
  | submitAll hp => simpa [completion] using inv_submitAll hY h hp
  | getevents hp hle => simpa [completion] using inv_getevents hY h hp hle
  | callback hp hcb => simpa [completion] using inv_callback hY h hp hcb
  | fail hp hb =>
    obtain ⟨m, fl, ht, -, hr⟩ := h
    have hno : completion s a = [] := by rcases hb with rfl | rfl <;> rfl
    rw [hno, List.append_nil]
    refine ⟨m, fl, ht.same rfl rfl, trivial, hr.goto ?_ rfl rfl rfl⟩
    rcases hp with ⟨i, hp⟩ | hp <;> rw [hp] <;> rfl
  | @undefined e es hp hno =>
    obtain ⟨m, fl, ht, hpt, hr⟩ := h
    simp only [AtPoint, hp] at hpt
    obtain ⟨hmem, rfl⟩ := hpt
    obtain ⟨rfl, rfl, called, rest, rfl, hes, -⟩ := hr.of_some (by rw [hp]; rfl)
    obtain ⟨d, rest, rfl, rfl, -⟩ := List.map_eq_cons_iff.mp hes.symm
    have hd : d.1 ∈ List.range m := ht.perm.mem_iff.mp (by simp)
    have hnone := hno _ (by rw [hmem]; exact hY.iocb d.1 (List.mem_range.mp hd))
    cases hnone
  | done hp =>
    obtain ⟨m, fl, ht, hpt, hr⟩ := h
    simp only [AtPoint, hp] at hpt
    obtain ⟨hfl, hk, called, rest, hds, hes, hcalls⟩ := hr.of_some (by rw [hp]; rfl)
    simp only [completion, List.append_nil]
    exact ⟨m, fl, ht.same rfl rfl, hpt, hfl, hk, called, rest, hds, hes, hcalls⟩
  | complete hi =>
    obtain ⟨j, hj, hinv⟩ := inv_complete h hi
    rw [completion_eq (hj ▸ hi)]
    obtain ⟨rfl, rfl⟩ := Request.mk.inj hj
    exact hinv true
  | giveUp hi =>
    obtain ⟨j, rfl, hinv⟩ := inv_complete h hi
    rw [completion_eq hi]
    exact hinv false

/-! ## Progress -/

/-- `io_submit` has something to take. -/
theorem not_failed (hY : Yields v n k owner) (h : Inv n k owner v file fill s ds)
    (hf : s.point ≠ .failed) (ha : a ≠ .submitFail) (hs : step n v file s a = some s') :
    s'.point ≠ .failed := by
  obtain ⟨m, fl, -, hpt, -⟩ := h
  unfold AtPoint at hpt
  cases a with
  | submitFail => exact absurd rfl ha
  | complete i ok =>
    cases outcome_of_step hs with
    | complete _ | giveUp _ => exact hf
    | fail _ hb => rcases hb with hb | hb <;> cases hb
  | next =>
    cases hp : s.point with
    | submit i =>
      simp only [hp] at hpt
      obtain ⟨-, -, hmem, -⟩ := hpt
      simp only [step, hp, hmem, mem_succ, io_submit, Function.update_self] at hs
      rw [if_neg (List.cons_ne_nil _ _)] at hs
      obtain rfl := Option.some.inj hs
      simp
    | submitAll =>
      simp only [hp] at hpt
      obtain ⟨hmem, -, he⟩ := hpt
      simp only [step, hp, hmem, hY.once he] at hs
      split at hs
      · rename_i hno
        have hk := hY.pos he hno.1
        have hlen := congrArg List.length hno.2
        simp only [List.length_map, List.length_range, List.length_nil] at hlen
        omega
      · obtain rfl := Option.some.inj hs
        simp
    | failed => exact absurd hp hf
    | _ =>
      cases outcome_of_step hs <;> simp_all <;> split <;> simp

/-- Only `io_getevents` waits, for more events than will come. -/
theorem progress (h : Inv n k owner v file fill s ds) (hf : s.point ≠ .failed)
    (hd : s.point ≠ .done) : (∃ a, a ≠ .submitFail ∧ (step n v file s a).isSome) ∨
      s.point = .getevents ∧ s.ring.length = k ∧ k < n := by
  obtain ⟨m, fl, ht, hpt, hr⟩ := h
  unfold AtPoint at hpt
  cases hp : s.point with
  | prep i =>
    refine .inl ⟨.next, Act.noConfusion, ?_⟩
    by_cases hi : i < n <;> simp [step, hp, hi]
  | setCallback i => exact .inl ⟨.next, Act.noConfusion, by simp [step, hp]⟩
  | submit i =>
    refine .inl ⟨.next, Act.noConfusion, ?_⟩
    simp only [step, hp]
    split <;> rfl
  | submitAll =>
    refine .inl ⟨.next, Act.noConfusion, ?_⟩
    simp only [step, hp]
    split <;> rfl
  | getevents =>
    simp only [hp] at hpt
    obtain ⟨-, rfl⟩ := hpt
    obtain ⟨hring, -⟩ := hr.of_none (by rw [hp]; rfl)
    have hlen : s.ring.length = ds.length := by rw [hring, List.length_map]
    by_cases hle : n ≤ s.ring.length
    · exact .inl ⟨.next, Act.noConfusion, by simp [step, hp, hle]⟩
    · cases fl with
      | nil =>
        have hm := ht.perm.length_eq
        simp only [List.nil_append, List.length_map, List.length_range] at hm
        exact .inr ⟨rfl, by omega, by omega⟩
      | cons j fl =>
        refine .inl ⟨.complete 0 true, Act.noConfusion, ?_⟩
        simp [step, ht.inflight, request]
  | events es =>
    refine .inl ⟨.next, Act.noConfusion, ?_⟩
    cases es with
    | nil => simp [step, hp]
    | cons e es =>
      simp only [step, hp]
      split <;> rfl
  | done => exact absurd hp hd
  | failed => exact absurd hp hf
  | undefined => simp only [hp] at hpt

/-- What is left to do for the functions; a `submit` puts at most as much in flight. -/
def Point.weight (n : ℕ) : Point → ℕ
  | .prep i => 2 * n + 6 + 5 * (n - i)
  | .setCallback i => 2 * n + 5 + 5 * (n - i)
  | .submit i => 2 * n + 4 + 5 * (n - i)
  | .submitAll => 2 * n + 4
  | .getevents => n + 3
  | .events es => es.length + 1
  | .done | .failed | .undefined => 0

/-- A bound of the steps that are left. -/
def State.work (n : ℕ) (s : State) : ℕ := s.inflight.length + s.point.weight n

theorem length_io_submit_le (iocbs : Addr → Option Iocb) (words : List (Option Addr)) :
    (io_submit iocbs words).length ≤ words.length := by
  induction words with
  | nil => exact Nat.le_refl _
  | cons w words ih =>
    cases w with
    | none => exact Nat.zero_le _
    | some a =>
      unfold io_submit
      split
      · exact Nat.succ_le_succ ih
      · exact Nat.zero_le _

theorem work_step (h : AtPoint n k v s m) (hs : step n v file s a = some s') :
    s'.work n < s.work n := by
  unfold AtPoint at h
  cases outcome_of_step hs with
  | fail hp _ =>
    rcases hp with ⟨i, hp⟩ | hp <;> simp only [State.work, hp, Point.weight] <;> omega
  | prep hp hi => simp [State.work, hp, Point.weight]
  | @prepared i hp hi =>
    cases hv : v.each
    · simp only [State.work, hp, Point.weight, Bool.false_eq_true, if_false]
      omega
    · simp only [State.work, hp, Point.weight, if_true]
      omega
  | @setCallback i hp =>
    simp only [hp] at h
    cases hv : v.each
    · simp only [State.work, hp, Point.weight, Bool.false_eq_true, if_false]
      omega
    · simp [State.work, hp, Point.weight]
  | @submit i hp =>
    simp only [hp] at h
    have hlen := length_io_submit_le s.iocbs [some (v.iocb i)]
    simp only [State.work, hp, Point.weight, List.length_append]
    simp only [List.length_singleton] at hlen
    omega
  | submitAll hp =>
    have hlen := length_io_submit_le s.iocbs (v.iocbpp.take n)
    simp only [State.work, hp, Point.weight, List.length_append]
    simp only [List.length_take] at hlen
    omega
  | getevents hp hle =>
    simp only [State.work, hp, Point.weight, List.length_take]
    omega
  | callback hp _ | undefined hp _ | done hp => simp [State.work, hp, Point.weight]
  | complete hi | giveUp hi =>
    obtain ⟨hlt, -⟩ := List.getElem?_eq_some_iff.mp hi
    simp only [State.work, List.length_eraseIdx_of_lt hlt]
    omega

end Invariant

/-! ## Runs -/

/-- The function ends, and gives up only where `io_submit` refuses what it is given. -/
structure Ends (n : ℕ) (v : Variant) (file : List UInt8) (as : List Act) (s : State) : Prop where
  length_le : as.length ≤ 7 * n + 6
  progress : s.point ≠ .done → s.point ≠ .failed →
    ∃ a, a ≠ .submitFail ∧ (step n v file s a).isSome
  refused : s.point = .failed → .submitFail ∈ as ∧ s.calls = []

/-- A run of a function in which the kernel completed or gave up the tasks `ds`, in this order. -/
abbrev Completes (n : ℕ) (v : Variant) (file : List UInt8) (fill : Addr → List UInt8)
    (as : List Act) (s : State) (ds : List (ℕ × Bool)) : Prop :=
  Run (watch (step n v file) completion) free (init fill, []) as (s, ds)

section Runs

variable {n k : ℕ} {owner : ℕ → ℕ} {v : Variant} {file : List UInt8} {fill : Addr → List UInt8}
  {s : State} {as : List Act} {ds : List (ℕ × Bool)}

theorem inv_of_run (hY : Yields v n k owner) (h : Completes n v file fill as s ds) :
    Inv n k owner v file fill s ds :=
  h.invariant (I := fun p => Inv n k owner v file fill p.1 p.2)
    (init_inv n k owner v file fill) fun p a p' hI _ hs => by
      obtain ⟨hstep, hrec⟩ := watch_eq_some.mp hs
      rw [hrec]
      exact inv_step hY hI hstep

theorem length_le_of_run (hY : Yields v n k owner) (h : Completes n v file fill as s ds) :
    as.length ≤ 7 * n + 6 := by
  have hlen := h.length_le (I := fun p => Inv n k owner v file fill p.1 p.2)
    (μ := fun p => p.1.work n) (init_inv n k owner v file fill) fun p a p' hI _ hs => by
      obtain ⟨hstep, hrec⟩ := watch_eq_some.mp hs
      obtain ⟨m, fl, -, hpt, -⟩ := id hI
      rw [hrec]
      exact ⟨inv_step hY hI hstep, work_step hpt hstep⟩
  have hwork : (init fill).work n = 7 * n + 6 := by
    simp only [State.work, init, Point.weight, List.length_nil]
    omega
  rw [← hwork]
  exact le_trans (Nat.le_add_right _ _) hlen

/-- Only a refusal of `io_submit` ends the function early. -/
theorem refused_of_run (hY : Yields v n k owner) (h : Completes n v file fill as s ds)
    (hp : s.point = .failed) : .submitFail ∈ as := by
  unfold Completes at h
  generalize e : (s, ds) = p at h
  induction h generalizing s ds with
  | nil =>
    cases e
    cases hp
  | @snoc as q p a h _ hs ih =>
    subst e
    obtain ⟨hstep, -⟩ := watch_eq_some.mp hs
    by_cases hq : q.1.point = .failed
    · exact List.mem_append_left _ (ih hq rfl)
    · by_cases ha : a = .submitFail
      · exact List.mem_append_right _ (List.mem_singleton.mpr ha.symm)
      · exact absurd hp (not_failed hY (inv_of_run hY h) hq ha hstep)

/-- In the end every task was completed, and its callback called. -/
theorem calls_of_done (hY : Yields v n k owner) (h : Completes n v file fill as s ds)
    (hp : s.point = .done) : k = n ∧ (ds.map Prod.fst).Perm (List.range n) ∧
      s.calls = ds.map (call v file owner (written v file fill ds)) := by
  obtain ⟨m, fl, ht, hpt, hr⟩ := inv_of_run hY h
  simp only [AtPoint, hp] at hpt
  obtain ⟨-, rfl⟩ := hpt
  obtain ⟨rfl, rfl, called, rest, rfl, hes, hcalls⟩ := hr.of_some (by rw [hp]; rfl)
  obtain rfl := List.map_eq_nil_iff.mp hes.symm
  rw [List.append_nil] at ht ⊢
  refine ⟨rfl, ht.perm, ?_⟩
  rw [hcalls, ← ht.bufs]

/-- Nothing is called back before `io_getevents` returns. -/
theorem calls_eq_nil (hY : Yields v n k owner) (h : Completes n v file fill as s ds)
    (hp : s.point.rest = none) : s.calls = [] := by
  obtain ⟨m, fl, -, -, hr⟩ := inv_of_run hY h
  exact (hr.of_none hp).2

/-- The variants that submit every task end. -/
theorem ends (hY : Yields v n n owner) (h : Completes n v file fill as s ds) :
    Ends n v file as s where
  length_le := length_le_of_run hY h
  progress hd hf := by
    rcases progress (inv_of_run hY h) hf hd with ha | ⟨-, -, hlt⟩
    · exact ha
    · exact absurd hlt (lt_irrefl n)
  refused hp := ⟨refused_of_run hY h hp, calls_eq_nil hY h (by rw [hp]; rfl)⟩

end Runs

/-! ## The four functions -/

section Variants

variable {n m : ℕ} {v : Variant} {file : List UInt8} {fill bufs : Addr → List UInt8} {s : State}
  {as : List Act} {ds : List (ℕ × Bool)}

theorem mem_of_injective (hinj : Function.Injective v.iocb) {i : ℕ} (hi : i < m) :
    mem v m (v.iocb i) = some (full v i) := by
  induction m with
  | zero => exact absurd hi (Nat.not_lt_zero i)
  | succ m ih =>
    rw [mem_succ, Function.update_apply]
    split
    · rename_i e
      rw [hinj e]
    · rename_i hne
      refine ih (lt_of_le_of_ne (Nat.lt_succ_iff.mp hi) ?_)
      rintro rfl
      exact hne rfl

/-- Every `iocb` is written over by the next one. -/
theorem submitError2_yields : Yields ReadByKernelAioSubmitError2 n n fun _ => n - 1 where
  le := le_refl n
  iocb i hi := by
    obtain ⟨m, rfl⟩ := Nat.exists_eq_succ_of_ne_zero (Nat.ne_of_gt (Nat.zero_lt_of_lt hi))
    rw [Nat.succ_eq_add_one, mem_succ, Nat.add_sub_cancel]
    exact Function.update_self ..
  once h := by cases h
  pos h := by cases h
  each _ := rfl

/-- The second word is no pointer. -/
theorem submitError1_yields (hn : 2 ≤ n) (stack : List (Option Addr)) :
    Yields (ReadByKernelAioSubmitError1 (none :: stack)) n 1 id where
  le := by omega
  iocb _ hi := mem_of_injective Function.injective_id hi
  once _ := by
    obtain ⟨n, rfl⟩ : ∃ m, n = m + 2 := ⟨n - 2, by omega⟩
    have h0 : mem (ReadByKernelAioSubmitError1 (none :: stack)) (n + 2) 0 =
        some (full (ReadByKernelAioSubmitError1 (none :: stack)) 0) :=
      mem_of_injective (v := ReadByKernelAioSubmitError1 (none :: stack))
        Function.injective_id (Nat.succ_pos _)
    change io_submit _ (some 0 :: none :: stack.take n) = _
    simp only [io_submit, h0]
    rfl
  pos _ _ := Nat.one_pos
  each h := by cases h

/-! ### The buffers -/

/-- A task that has a buffer of its own finds there what it read. -/
def report (file : List UInt8) (fill : Addr → List UInt8) (d : ℕ × Bool) : Call :=
  if d.2 then ⟨some (block file d.1).length, SEQ_BUF_SIZE, d.1 * SEQ_BUF_SIZE,
    overlay (fill d.1) (block file d.1)⟩
  else ⟨none, SEQ_BUF_SIZE, d.1 * SEQ_BUF_SIZE, fill d.1⟩

theorem written_of_not_mem (hinj : Function.Injective v.buf) {i : ℕ}
    (hi : i ∉ ds.map Prod.fst) : written v file bufs ds (v.buf i) = bufs (v.buf i) := by
  induction ds generalizing bufs with
  | nil => rfl
  | cons d ds ih =>
    rw [List.map_cons, List.mem_cons, not_or] at hi
    have hne : v.buf i ≠ v.buf d.1 := fun e => hi.1 (hinj e)
    change written v file (write v file bufs d) ds (v.buf i) = _
    rw [ih hi.2, write]
    split
    · exact Function.update_of_ne hne ..
    · rfl

theorem written_of_mem (hinj : Function.Injective v.buf) (hnd : (ds.map Prod.fst).Nodup)
    {d : ℕ × Bool} (hd : d ∈ ds) : written v file bufs ds (v.buf d.1) =
      if d.2 then overlay (bufs (v.buf d.1)) (block file d.1) else bufs (v.buf d.1) := by
  induction ds generalizing bufs with
  | nil => cases hd
  | cons e ds ih =>
    rw [List.map_cons, List.nodup_cons] at hnd
    change written v file (write v file bufs e) ds (v.buf d.1) = _
    rcases List.mem_cons.mp hd with rfl | hd
    · rw [written_of_not_mem hinj hnd.1, write]
      split
      · exact Function.update_self ..
      · rfl
    · have hne : v.buf d.1 ≠ v.buf e.1 := by
        intro h
        exact hnd.1 (hinj h ▸ List.mem_map_of_mem hd)
      rw [ih hnd.2 hd, write]
      split <;> split <;> simp [Function.update_of_ne hne]

/-! ### The results -/

/-- **Error 2** of the source: one read is submitted, and `io_getevents` waits for `n` events for
good. -/
theorem submitError1_waits (hn : 2 ≤ n) {stack : List (Option Addr)}
    (h : Completes n (ReadByKernelAioSubmitError1 (none :: stack)) file fill as s ds) :
    as.length ≤ 7 * n + 6 ∧ s.point ≠ .done ∧ s.calls = [] ∧
      (s.point = .failed → .submitFail ∈ as) ∧
      ((∀ a, step n (ReadByKernelAioSubmitError1 (none :: stack)) file s a = none) →
        s.point = .failed ∨ s.point = .getevents ∧ s.ring.length = 1) := by
  have hY := submitError1_yields hn stack
  have hd : s.point ≠ .done := by
    intro hp
    obtain ⟨he, -⟩ := calls_of_done hY h hp
    omega
  refine ⟨length_le_of_run hY h, hd, ?_, refused_of_run hY h, fun hstuck => ?_⟩
  · cases hrest : s.point.rest with
    | none => exact calls_eq_nil hY h hrest
    | some es =>
      obtain ⟨m, fl, -, -, hr⟩ := inv_of_run hY h
      obtain ⟨-, he, -⟩ := hr.of_some hrest
      omega
  · by_cases hf : s.point = .failed
    · exact .inl hf
    · rcases progress (inv_of_run hY h) hf hd with ⟨a, -, hs⟩ | ⟨hp, hlen, -⟩
      · rw [hstuck a] at hs
        cases hs
      · exact .inr ⟨hp, hlen⟩

/-- The one read is completed. -/
def oneRead : List Act := List.replicate 12 .next ++ [.complete 0 true]

theorem submitError1_waits_oneRead : ∃ s ds,
    Completes 5 (ReadByKernelAioSubmitError1 [none]) [1, 2, 3] (fun _ => []) oneRead s ds ∧
      s.calls = [] ∧ s.point = .getevents ∧ s.ring.length = 1 := by
  obtain ⟨⟨s, ds⟩, h, hp, hfl, hlen⟩ : ∃ p,
      Run (watch (step 5 (ReadByKernelAioSubmitError1 [none]) [1, 2, 3]) completion) free
        (init fun _ => [], []) oneRead p ∧
      p.1.point = .getevents ∧ p.1.inflight = [] ∧ p.1.ring.length < 5 :=
    Run.exists_of_exec _ _ (by decide)
  dsimp only at hp hfl hlen
  obtain ⟨-, -, hcalls, -, hend⟩ := submitError1_waits (by decide) h
  refine ⟨s, ds, h, hcalls, (hend fun a => ?_).resolve_left (by rw [hp]; nofun)⟩
  cases a with
  | next => simp [step, hp, Nat.not_le_of_lt hlen]
  | submitFail => simp [step, hp]
  | complete k ok => simp [step, hfl]

/-- **Error 3** of the source: every callback finds the last `iocb`, and the last block. -/
theorem submitError2_calls (h : Completes n ReadByKernelAioSubmitError2 file fill as s ds) :
    Ends n ReadByKernelAioSubmitError2 file as s ∧
    (s.point = .done → (ds.map Prod.fst).Perm (List.range n) ∧
      s.calls = ds.map fun d => ⟨(report file fill d).res, SEQ_BUF_SIZE, (n - 1) * SEQ_BUF_SIZE,
        if (n - 1, true) ∈ ds then overlay (fill (n - 1)) (block file (n - 1))
        else fill (n - 1)⟩) := by
  refine ⟨ends submitError2_yields h, fun hp => ?_⟩
  obtain ⟨-, hperm, hcalls⟩ := calls_of_done submitError2_yields h hp
  have hnd := hperm.nodup_iff.mpr List.nodup_range
  refine ⟨hperm, hcalls.trans (List.map_congr_left fun d hd => ?_)⟩
  obtain ⟨e, he, hlast⟩ : ∃ e ∈ ds, e.1 = n - 1 := by
    have hlt : d.1 < n := List.mem_range.mp (hperm.mem_iff.mp (List.mem_map_of_mem hd))
    have hmem : n - 1 ∈ ds.map Prod.fst := hperm.mem_iff.mpr (List.mem_range.mpr (by omega))
    exact List.mem_map.mp hmem
  have hbuf : written ReadByKernelAioSubmitError2 file fill ds e.1 =
      if e.2 then overlay (fill e.1) (block file e.1) else fill e.1 :=
    written_of_mem (v := ReadByKernelAioSubmitError2) Function.injective_id hnd he
  have hiff : (n - 1, true) ∈ ds ↔ e.2 = true := by
    constructor
    · intro hmem
      have := List.inj_on_of_nodup_map hnd he hmem hlast
      rw [this]
    · intro htrue
      rw [← hlast, ← htrue]
      exact he
  change Call.mk _ _ _ (written ReadByKernelAioSubmitError2 file fill ds (n - 1)) = _
  rw [← hlast, hbuf, hlast]
  simp only [hiff]
  congr 1
  rw [report, event]
  cases d.2 <;> rfl

/-- The reads are completed in order, and each before the next one is submitted. -/
def oneByOne : List Act := (List.replicate 3 [.next, .next, .next, .complete 0 true]).flatten ++
  List.replicate 6 .next

theorem submitError2_calls_oneByOne : ∃ s ds,
    Completes 3 ReadByKernelAioSubmitError2 [1, 2, 3] (fun _ => [7]) oneByOne s ds ∧
    s.calls = [⟨some 3, 1024, 2048, [7]⟩, ⟨some 0, 1024, 2048, [7]⟩,
      ⟨some 0, 1024, 2048, [7]⟩] := by
  obtain ⟨⟨s, ds⟩, h, hp, rfl⟩ : ∃ p,
      Run (watch (step 3 ReadByKernelAioSubmitError2 [1, 2, 3]) completion) free
        (init fun _ => [7], []) oneByOne p ∧
      p.1.point = .done ∧ p.2 = [(0, true), (1, true), (2, true)] :=
    Run.exists_of_exec _ _ (by decide)
  exact ⟨s, _, h, ((submitError2_calls h).2 hp).2⟩

end Variants

end Callbacks

end PracticeCode.KernelAio
