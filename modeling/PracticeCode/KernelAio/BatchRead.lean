import PracticeCode.Lib.Run
import Mathlib.Algebra.Ring.Nat
import Mathlib.Data.List.Nodup

/-!
# `BatchReadByLibAIO`: at most five blocks of a file in flight

A `for` loop prepares up to `MAX_EVENT` reads of one block and leaves through `break` before it
counts the read that reaches the end of the file; `io_submit` submits those it counted.  Then every
completion that `io_getevents` reports submits one block more, while `offset` is not behind the end.

The completions come in any order and any grouping.  `correct_iff`: the schedule is right,
and the loop ends, exactly for the files of more than one block.  A file of at most 1024 bytes
leaves the `for` loop with nothing counted, so that `io_getevents` waits for a completion of
nothing.
-/

namespace PracticeCode.KernelAio

open Lib

namespace BatchRead

abbrev MAX_EVENT : ℕ := 5

abbrev SEQ_BUF_SIZE : ℕ := 1024

/-- `u.c.offset` and `u.c.nbytes` of an `iocb`. -/
structure Iocb where
  offset : ℕ
  nbytes : ℕ
  deriving DecidableEq

inductive Point where
  /-- The head of the `for` loop. -/
  | prep
  | submit
  | getevents
  /-- The events that `io_getevents` reported and the loop has not come to. -/
  | events (es : List Iocb)
  | resubmit (e : Iocb) (es : List Iocb)
  /-- Behind the `while` loop. -/
  | done
  /-- `return ""` -/
  | failed
  deriving DecidableEq

structure State where
  f_size : ℕ
  offset : ℕ
  ready : ℕ
  task_no : ℕ
  io_cb_p : List Iocb
  inflight : List Iocb
  /-- Every `iocb` the kernel took, in order. -/
  submitted : List Iocb
  point : Point

def init (f_size : ℕ) : State := ⟨f_size, 0, 0, 0, [], [], [], .prep⟩

inductive Act where
  | prep
  | submit
  | submitFail
  /-- `io_getevents` returns these completions. -/
  | getevents (es : List Iocb)
  | next
  deriving DecidableEq

def step (s : State) : Act → Option State
  | .prep => match s.point with
    | .prep =>
      if s.task_no < MAX_EVENT then
        let s : State := { s with io_cb_p := s.io_cb_p ++ [⟨s.offset, SEQ_BUF_SIZE⟩] }
        if s.offset + SEQ_BUF_SIZE < s.f_size then
          some { s with offset := s.offset + SEQ_BUF_SIZE, task_no := s.task_no + 1 }
        else some { s with point := .submit }
      else some { s with point := .submit }
    | _ => none
  | .submit => match s.point with
    | .submit =>
      let iocbs := s.io_cb_p.take s.task_no
      some { s with
        inflight := s.inflight ++ iocbs, submitted := s.submitted ++ iocbs, point := .getevents }
    | .resubmit e es =>
      let iocb : Iocb := ⟨s.offset, SEQ_BUF_SIZE⟩
      some { s with
        inflight := s.inflight ++ [iocb], submitted := s.submitted ++ [iocb]
        offset := s.offset + e.nbytes, ready := s.ready + e.nbytes, point := .events es }
    | _ => none
  | .submitFail => match s.point with
    | .submit | .resubmit _ _ => some { s with point := .failed }
    | _ => none
  | .getevents es => match s.point with
    | .getevents =>
      if es ≠ [] ∧ es.length ≤ MAX_EVENT ∧ (es ++ s.inflight.diff es).Perm s.inflight then
        some { s with inflight := s.inflight.diff es, point := .events es }
      else none
    | _ => none
  | .next => match s.point with
    | .events (e :: es) =>
      if s.offset < s.f_size then some { s with point := .resubmit e es }
      else some { s with ready := s.ready + e.nbytes, point := .events es }
    | .events [] =>
      if s.f_size ≤ s.ready then some { s with point := .done }
      else some { s with point := .getevents }
    | _ => none

/-- `io_submit` takes what it is given. -/
def accepted (_ : State) (a : Act) : Prop := a ≠ .submitFail

instance (s : State) (a : Act) : Decidable (accepted s a) := by
  unfold accepted; infer_instance

/-! ## What the schedule has to be -/

/-- The number of the blocks of the file. -/
def blockCount (f_size : ℕ) : ℕ := (f_size + 1023) / SEQ_BUF_SIZE

def block (i : ℕ) : Iocb := ⟨SEQ_BUF_SIZE * i, SEQ_BUF_SIZE⟩

def blocks (f_size : ℕ) : List Iocb := (List.range (blockCount f_size)).map block

/-- The size of the buffer, with an exact quotient. -/
def align_size (f_size : ℕ) : ℕ := blockCount f_size * SEQ_BUF_SIZE

/-- Every block was submitted and none is in flight. -/
def State.AllCompleted (s : State) : Prop :=
  s.submitted.Perm (blocks s.f_size) ∧ s.inflight = []

structure Scheduled (f_size : ℕ) (s : State) : Prop where
  once : s.submitted.Nodup ∧ s.submitted ⊆ blocks f_size
  inBuffer : ∀ b ∈ s.submitted, b.offset + b.nbytes ≤ align_size f_size
  atMost : s.inflight.length ≤ MAX_EVENT
  busy : s.point = .getevents → s.inflight ≠ []
  leaves : s.point = .done → s.AllCompleted
  stays : s.point = .getevents → ¬ s.AllCompleted

/-- The schedule is right in every state, and every run can be continued until the loop is left,
which happens after a bounded number of steps. -/
def Correct (f_size : ℕ) : Prop :=
  (∀ as s, Run step accepted (init f_size) as s → Scheduled f_size s) ∧
    ∃ N, ∀ as s, Run step accepted (init f_size) as s → as.length ≤ N ∧
      (s.point ≠ .done → ∃ a, accepted s a ∧ (step s a).isSome)

/-! ## The invariant of the loops -/

section Invariant

variable {f m p : ℕ} {s s' : State} {a : Act} {es pending : List Iocb} {e : Iocb}

/-- In the `while` loop: `m` blocks are submitted and `p` are counted in `ready`; the others are in
flight or `pending`, reported but not handled.  While blocks are left to submit, as many are on the
way as the `for` loop started. -/
structure Reading (s : State) (pending : List Iocb) (m p : ℕ) : Prop where
  submitted : s.submitted = (List.range m).map block
  offset : s.offset = 1024 * m
  ready : s.ready = 1024 * p
  le : m ≤ blockCount s.f_size
  sum : p + (pending.length + s.inflight.length) = m
  nbytes : ∀ b ∈ pending ++ s.inflight, b.nbytes = 1024
  atMost : pending.length + s.inflight.length ≤ s.task_no
  full : m < blockCount s.f_size → pending.length + s.inflight.length = s.task_no

theorem Reading.goto (h : Reading s pending m p) (pt : Point) :
    Reading { s with point := pt } pending m p :=
  ⟨h.1, h.2, h.3, h.4, h.5, h.6, h.7, h.8⟩

/-- In the `for` loop, `task_no` blocks in front of the end of the file are counted. -/
structure Preparing (s : State) : Prop where
  offset : s.offset = 1024 * s.task_no
  lt : s.offset < s.f_size
  submitted : s.submitted = []
  inflight : s.inflight = []
  ready : s.ready = 0

def AtPoint (s : State) : Prop :=
  match s.point with
  | .prep => Preparing s ∧ s.io_cb_p = (List.range s.task_no).map block
  | .submit => Preparing s ∧ 0 < s.task_no ∧
      s.io_cb_p.take s.task_no = (List.range s.task_no).map block
  | .getevents => s.ready < s.f_size ∧ ∃ m p, Reading s [] m p
  | .events es => ∃ m p, Reading s es m p
  | .resubmit e es => s.offset < s.f_size ∧ ∃ m p, Reading s (e :: es) m p
  | .done => s.f_size ≤ s.ready ∧ ∃ m p, Reading s [] m p
  | .failed => False

/-- What all points have in common: the size of the file, and at most five tasks, at least one when
they are submitted. -/
structure Inv (f : ℕ) (s : State) : Prop where
  size : s.f_size = f
  tasks : s.task_no ≤ 5
  started : s.point ≠ .prep → 0 < s.task_no
  point : AtPoint s

theorem init_inv (hf : 1024 < f) : Inv f (init f) where
  size := rfl
  tasks := Nat.zero_le _
  started h := absurd rfl h
  point := ⟨⟨rfl, by simp only [init]; omega, rfl, rfl, rfl⟩, rfl⟩

theorem lt_blockCount_iff {f m : ℕ} : m < blockCount f ↔ 1024 * m < f := by
  simp only [blockCount, SEQ_BUF_SIZE]
  omega

/-! ### The inversion of `step` -/

inductive Outcome (s : State) : Act → State → Prop
  | prep : s.point = .prep → s.task_no < 5 → s.offset + 1024 < s.f_size →
      Outcome s .prep { s with
        io_cb_p := s.io_cb_p ++ [⟨s.offset, 1024⟩], offset := s.offset + 1024
        task_no := s.task_no + 1 }
  | prepLast : s.point = .prep → ¬ s.offset + 1024 < s.f_size →
      Outcome s .prep { s with io_cb_p := s.io_cb_p ++ [⟨s.offset, 1024⟩], point := .submit }
  | prepFull : s.point = .prep → ¬ s.task_no < 5 → Outcome s .prep { s with point := .submit }
  | submit : s.point = .submit →
      Outcome s .submit { s with
        inflight := s.inflight ++ s.io_cb_p.take s.task_no
        submitted := s.submitted ++ s.io_cb_p.take s.task_no, point := .getevents }
  | resubmit {e : Iocb} {es : List Iocb} : s.point = .resubmit e es →
      Outcome s .submit { s with
        inflight := s.inflight ++ [⟨s.offset, 1024⟩]
        submitted := s.submitted ++ [⟨s.offset, 1024⟩]
        offset := s.offset + e.nbytes, ready := s.ready + e.nbytes, point := .events es }
  | submitFail : Outcome s .submitFail { s with point := .failed }
  | getevents {es : List Iocb} : s.point = .getevents → es ≠ [] →
      (es ++ s.inflight.diff es).Perm s.inflight →
      Outcome s (.getevents es) { s with inflight := s.inflight.diff es, point := .events es }
  | more {e : Iocb} {es : List Iocb} : s.point = .events (e :: es) → s.offset < s.f_size →
      Outcome s .next { s with point := .resubmit e es }
  | skip {e : Iocb} {es : List Iocb} : s.point = .events (e :: es) → ¬ s.offset < s.f_size →
      Outcome s .next { s with ready := s.ready + e.nbytes, point := .events es }
  | done : s.point = .events [] → s.f_size ≤ s.ready → Outcome s .next { s with point := .done }
  | again : s.point = .events [] → s.ready < s.f_size →
      Outcome s .next { s with point := .getevents }

theorem outcome_of_step (h : step s a = some s') : Outcome s a s' := by
  cases a with
  | prep =>
    simp only [step, SEQ_BUF_SIZE, MAX_EVENT] at h
    split at h
    · rename_i hp
      split at h
      · rename_i htask
        split at h
        · rename_i hnext
          obtain rfl := Option.some.inj h
          exact .prep hp htask hnext
        · rename_i hlast
          obtain rfl := Option.some.inj h
          exact .prepLast hp hlast
      · rename_i htask
        obtain rfl := Option.some.inj h
        exact .prepFull hp htask
    · cases h
  | submit =>
    simp only [step, SEQ_BUF_SIZE] at h
    split at h
    · rename_i hp
      obtain rfl := Option.some.inj h
      exact .submit hp
    · rename_i hp
      obtain rfl := Option.some.inj h
      exact .resubmit hp
    · cases h
  | submitFail =>
    simp only [step] at h
    split at h
    · obtain rfl := Option.some.inj h
      exact .submitFail
    · obtain rfl := Option.some.inj h
      exact .submitFail
    · cases h
  | getevents es =>
    simp only [step] at h
    split at h
    · rename_i hp
      simp only [Option.ite_none_right_eq_some, Option.some.injEq] at h
      obtain ⟨⟨hne, -, hperm⟩, rfl⟩ := h
      exact .getevents hp hne hperm
    · cases h
  | next =>
    simp only [step] at h
    split at h
    · rename_i hp
      split at h
      · rename_i hlt
        obtain rfl := Option.some.inj h
        exact .more hp hlt
      · rename_i hge
        obtain rfl := Option.some.inj h
        exact .skip hp hge
    · rename_i hp
      split at h
      · rename_i hready
        obtain rfl := Option.some.inj h
        exact .done hp hready
      · rename_i hready
        obtain rfl := Option.some.inj h
        exact .again hp (Nat.lt_of_not_le hready)
    · cases h

/-! ### One lemma a step -/

theorem inv_prep (h : Inv f s) (hp : s.point = .prep) (htask : s.task_no < 5)
    (hnext : s.offset + 1024 < s.f_size) : Inv f { s with
      io_cb_p := s.io_cb_p ++ [⟨s.offset, 1024⟩], offset := s.offset + 1024
      task_no := s.task_no + 1 } := by
  have hpt := h.point
  simp only [AtPoint, hp] at hpt
  obtain ⟨⟨hoff, -, hsub, hin, hr⟩, hcb⟩ := hpt
  have hpush : s.io_cb_p ++ [⟨s.offset, 1024⟩] = (List.range (s.task_no + 1)).map block := by
    rw [List.range_succ, List.map_append, hcb, hoff]
    rfl
  have hoff' : s.offset + 1024 = 1024 * (s.task_no + 1) := by omega
  refine ⟨h.size, htask, fun hne => absurd hp hne, ?_⟩
  simp only [AtPoint, hp]
  exact ⟨⟨hoff', hnext, hsub, hin, hr⟩, hpush⟩

/-- The read that reaches the end of the file is prepared and not counted. -/
theorem inv_prepLast (hf : 1024 < f) (h : Inv f s) (hp : s.point = .prep)
    (hlast : ¬ s.offset + 1024 < s.f_size) : Inv f { s with
      io_cb_p := s.io_cb_p ++ [⟨s.offset, 1024⟩], point := .submit } := by
  have hpt := h.point
  have hsize := h.size
  simp only [AtPoint, hp] at hpt
  obtain ⟨hprep, hcb⟩ := hpt
  have hpos : 0 < s.task_no := by
    have hoff := hprep.offset
    omega
  refine ⟨hsize, h.tasks, fun _ => hpos, ⟨hprep.1, hprep.2, hprep.3, hprep.4, hprep.5⟩, hpos, ?_⟩
  simp only [hcb]
  rw [List.take_left']
  simp

theorem inv_prepFull (h : Inv f s) (hp : s.point = .prep) (htask : ¬ s.task_no < 5) :
    Inv f { s with point := .submit } := by
  have hpt := h.point
  simp only [AtPoint, hp] at hpt
  obtain ⟨hprep, hcb⟩ := hpt
  have hpos : 0 < s.task_no := by omega
  refine ⟨h.size, h.tasks, fun _ => hpos, ⟨hprep.1, hprep.2, hprep.3, hprep.4, hprep.5⟩, hpos, ?_⟩
  simp only [hcb]
  rw [List.take_of_length_le]
  simp

/-- The first submission. -/
theorem reading_of_preparing (h : Preparing s)
    (hcb : s.io_cb_p.take s.task_no = (List.range s.task_no).map block) :
    s.ready < s.f_size ∧ ∃ m p, Reading { s with
      inflight := s.inflight ++ s.io_cb_p.take s.task_no
      submitted := s.submitted ++ s.io_cb_p.take s.task_no, point := .getevents } [] m p := by
  have hlt := h.lt
  rw [h.offset] at hlt
  refine ⟨by have := h.ready; omega, s.task_no, 0, ?_⟩
  have hle : s.task_no < blockCount s.f_size := lt_blockCount_iff.mpr hlt
  simp only [hcb, h.submitted, h.inflight, List.nil_append]
  refine ⟨rfl, h.offset, h.ready, Nat.le_of_lt hle, by simp, ?_, by simp, fun _ => by simp⟩
  intro b hb
  obtain ⟨i, -, rfl⟩ := List.mem_map.mp hb
  rfl

/-- A completion that is handled while blocks are left to submit. -/
theorem reading_of_resubmit (h : Reading s (e :: es) m p) (hlt : s.offset < s.f_size) :
    Reading { s with
      inflight := s.inflight ++ [⟨s.offset, 1024⟩]
      submitted := s.submitted ++ [⟨s.offset, 1024⟩]
      offset := s.offset + e.nbytes, ready := s.ready + e.nbytes, point := .events es }
      es (m + 1) (p + 1) := by
  have he : e.nbytes = 1024 := h.nbytes e (by simp)
  have hm : m < blockCount s.f_size := lt_blockCount_iff.mpr (h.offset ▸ hlt)
  have hsum := h.sum
  have hfull := h.full hm
  simp only [List.length_cons] at hsum hfull
  refine ⟨?_, ?_, ?_, hm, ?_, fun b hb => ?_, ?_, fun _ => ?_⟩
  · simp only [List.range_succ, List.map_append, h.submitted, h.offset]
    rfl
  · simp only [h.offset, he]
    omega
  · simp only [h.ready, he]
    omega
  · simp only [List.length_append, List.length_singleton]
    omega
  · simp only [List.mem_append, List.mem_singleton] at hb
    rcases hb with hb | hb | rfl
    · exact h.nbytes b (by simp [hb])
    · exact h.nbytes b (by simp [hb])
    · rfl
  · simp only [List.length_append, List.length_singleton]
    omega
  · simp only [List.length_append, List.length_singleton]
    omega

/-- A completion that is handled when all blocks are submitted. -/
theorem reading_of_skip (h : Reading s (e :: es) m p) (hge : ¬ s.offset < s.f_size) :
    Reading { s with ready := s.ready + e.nbytes, point := .events es } es m (p + 1) := by
  have he : e.nbytes = 1024 := h.nbytes e (by simp)
  have hm : ¬ m < blockCount s.f_size := fun hm => hge (h.offset ▸ lt_blockCount_iff.mp hm)
  have hsum := h.sum
  have hmost := h.atMost
  simp only [List.length_cons] at hsum hmost
  refine ⟨h.submitted, h.offset, ?_, h.le, ?_, fun b hb => ?_, ?_, fun hm' => absurd hm' hm⟩
  · simp only [h.ready, he]
    omega
  · simp only
    omega
  · exact h.nbytes b (List.mem_cons_of_mem _ hb)
  · simp only
    omega

theorem reading_of_getevents (h : Reading s [] m p)
    (hperm : (es ++ s.inflight.diff es).Perm s.inflight) :
    Reading { s with inflight := s.inflight.diff es, point := .events es } es m p := by
  have hlen : es.length + (s.inflight.diff es).length = s.inflight.length := by
    rw [← List.length_append]
    exact hperm.length_eq
  have hsum := h.sum
  have hmost := h.atMost
  have hfull := h.full
  simp only [List.length_nil] at hsum hmost hfull
  refine ⟨h.submitted, h.offset, h.ready, h.le, ?_, fun b hb => ?_, ?_, fun hm => ?_⟩
  · simp only
    omega
  · exact h.nbytes b (by simpa using hperm.mem_iff.mp hb)
  · simp only
    omega
  · have := hfull hm
    simp only
    omega

theorem inv_step (hf : 1024 < f) (h : Inv f s) (ha : accepted s a) (hs : step s a = some s') :
    Inv f s' := by
  have hpt := h.point
  have hstart := h.started
  cases outcome_of_step hs with
  | prep hp htask hnext => exact inv_prep h hp htask hnext
  | prepLast hp hlast => exact inv_prepLast hf h hp hlast
  | prepFull hp htask => exact inv_prepFull h hp htask
  | submit hp =>
    simp only [AtPoint, hp] at hpt
    obtain ⟨hprep, hpos, hcb⟩ := hpt
    exact ⟨h.size, h.tasks, fun _ => hpos, reading_of_preparing hprep hcb⟩
  | resubmit hp =>
    simp only [AtPoint, hp] at hpt
    obtain ⟨hlt, m, p, hr⟩ := hpt
    exact ⟨h.size, h.tasks, fun _ => hstart (by rw [hp]; nofun), m + 1, p + 1,
      reading_of_resubmit hr hlt⟩
  | submitFail => exact absurd rfl ha
  | getevents hp hne hperm =>
    simp only [AtPoint, hp] at hpt
    obtain ⟨-, m, p, hr⟩ := hpt
    exact ⟨h.size, h.tasks, fun _ => hstart (by rw [hp]; nofun), m, p,
      reading_of_getevents hr hperm⟩
  | more hp hlt =>
    simp only [AtPoint, hp] at hpt
    obtain ⟨m, p, hr⟩ := hpt
    exact ⟨h.size, h.tasks, fun _ => hstart (by rw [hp]; nofun), hlt, m, p, hr.goto _⟩
  | skip hp hge =>
    simp only [AtPoint, hp] at hpt
    obtain ⟨m, p, hr⟩ := hpt
    exact ⟨h.size, h.tasks, fun _ => hstart (by rw [hp]; nofun), m, p + 1, reading_of_skip hr hge⟩
  | done hp hready | again hp hready =>
    simp only [AtPoint, hp] at hpt
    obtain ⟨m, p, hr⟩ := hpt
    exact ⟨h.size, h.tasks, fun _ => hstart (by rw [hp]; nofun), hready, m, p, hr.goto _⟩

/-! ## The schedule is right -/

/-- Nothing is submitted yet, or the `while` loop runs. -/
theorem Inv.preparing_or_reading (h : Inv f s) :
    Preparing s ∨ ∃ pending m p, Reading s pending m p := by
  have hpt := h.point
  unfold AtPoint at hpt
  split at hpt
  · exact .inl hpt.1
  · exact .inl hpt.1
  · exact .inr ⟨_, hpt.2⟩
  · exact .inr ⟨_, hpt⟩
  · exact .inr ⟨_, hpt.2⟩
  · exact .inr ⟨_, hpt.2⟩
  · exact hpt.elim

theorem Inv.submitted (h : Inv f s) :
    ∃ m ≤ blockCount f, s.submitted = (List.range m).map block := by
  have hsize := h.size
  rcases h.preparing_or_reading with hprep | ⟨pending, m, p, hr⟩
  · exact ⟨0, Nat.zero_le _, hprep.submitted⟩
  · exact ⟨m, hsize ▸ hr.le, hr.submitted⟩

theorem Inv.inflight_le (h : Inv f s) : s.inflight.length ≤ MAX_EVENT := by
  have htask := h.tasks
  show s.inflight.length ≤ 5
  rcases h.preparing_or_reading with hprep | ⟨pending, m, p, hr⟩
  · rw [hprep.inflight]
    exact Nat.zero_le _
  · have hmost := hr.atMost
    omega

/-- While bytes are missing, a read is in flight. -/
theorem Inv.busy (h : Inv f s) (hp : s.point = .getevents) : s.inflight ≠ [] := by
  intro hnil
  have hpt := h.point
  simp only [AtPoint, hp] at hpt
  obtain ⟨hlt, m, p, hr⟩ := hpt
  have hsum := hr.sum
  have hstart := h.started (by rw [hp]; nofun)
  rw [hr.ready, ← lt_blockCount_iff] at hlt
  simp only [hnil, List.length_nil] at hsum
  have hfull := hr.full (by omega)
  simp only [hnil, List.length_nil] at hfull
  omega

theorem Inv.leaves (h : Inv f s) (hp : s.point = .done) : s.AllCompleted := by
  have hpt := h.point
  simp only [AtPoint, hp] at hpt
  obtain ⟨hge, m, p, hr⟩ := hpt
  have hsum := hr.sum
  have hle := hr.le
  rw [hr.ready, ← Nat.not_lt, ← lt_blockCount_iff] at hge
  simp only [List.length_nil] at hsum
  have hm : m = blockCount s.f_size := by omega
  refine ⟨?_, List.eq_nil_of_length_eq_zero (by omega)⟩
  rw [hr.submitted, hm]
  rfl

theorem block_injective : Function.Injective block := by
  intro i j h
  simp only [block, SEQ_BUF_SIZE, Iocb.mk.injEq, and_true] at h
  omega

theorem Inv.scheduled (h : Inv f s) : Scheduled f s where
  once := by
    obtain ⟨m, hm, hsub⟩ := h.submitted
    rw [hsub]
    refine ⟨List.nodup_range.map block_injective, List.map_subset _ ?_⟩
    exact List.range_subset.mpr hm
  inBuffer b hb := by
    obtain ⟨m, hm, hsub⟩ := h.submitted
    rw [hsub] at hb
    obtain ⟨i, hi, rfl⟩ := List.mem_map.mp hb
    have := List.mem_range.mp hi
    simp only [block, align_size, SEQ_BUF_SIZE]
    omega
  atMost := h.inflight_le
  busy := h.busy
  leaves := h.leaves
  stays hp hall := h.busy hp hall.2

/-! ## The loop ends -/

/-- Four for each block that is not counted in `ready`. -/
def work (s : State) : ℕ := 4 * (blockCount s.f_size - s.ready / 1024)

/-- How many steps are left at most. -/
def remaining (s : State) : ℕ :=
  match s.point with
  | .prep => work s + 5 + (5 - s.task_no)
  | .submit => work s + 4
  | .getevents => work s + 3
  | .events [] => work s + 4
  | .events (_ :: _) => work s + 2
  | .resubmit _ _ => work s + 1
  | .done | .failed => 0

theorem remaining_lt_of_count (h : Reading s (e :: es) m p) (hs : s'.point = .events es)
    (hsize : s'.f_size = s.f_size) (hready : s'.ready = s.ready + e.nbytes) :
    remaining s' < work s + 1 := by
  have he : e.nbytes = 1024 := h.nbytes e (by simp)
  have hsum := h.sum
  have hle := h.le
  simp only [List.length_cons] at hsum
  have hwork : work s' + 4 = work s := by
    simp only [work, hsize, hready, h.ready, he]
    omega
  cases es with
  | nil =>
    simp only [remaining, hs]
    omega
  | cons e' es =>
    simp only [remaining, hs]
    omega

theorem remaining_lt (h : Inv f s) (ha : accepted s a) (hs : step s a = some s') :
    remaining s' < remaining s := by
  have hpt := h.point
  cases outcome_of_step hs with
  | prep hp | prepLast hp | prepFull hp | submit hp | more hp =>
    simp only [remaining, hp, work]
    omega
  | resubmit hp =>
    simp only [AtPoint, hp] at hpt
    obtain ⟨-, m, p, hr⟩ := hpt
    have hleft : remaining s = work s + 1 := by simp only [remaining, hp]
    rw [hleft]
    exact remaining_lt_of_count hr rfl rfl rfl
  | submitFail => exact absurd rfl ha
  | getevents hp hne =>
    obtain ⟨e, es, rfl⟩ := List.exists_cons_of_ne_nil hne
    simp only [remaining, hp, work]
    omega
  | skip hp =>
    simp only [AtPoint, hp] at hpt
    obtain ⟨m, p, hr⟩ := hpt
    have hleft : remaining s = work s + 2 := by simp only [remaining, hp]
    rw [hleft]
    exact Nat.lt_succ_of_lt (remaining_lt_of_count hr rfl rfl rfl)
  | done hp | again hp =>
    simp only [remaining, hp, work]
    omega

/-- In every state but the last there is a step. -/
theorem Inv.progress (h : Inv f s) (hp : s.point ≠ .done) :
    ∃ a, accepted s a ∧ (step s a).isSome := by
  have hpt := h.point
  cases hpoint : s.point with
  | prep =>
    refine ⟨.prep, nofun, ?_⟩
    simp only [step, hpoint]
    split
    · split <;> rfl
    · rfl
  | submit | resubmit e es => exact ⟨.submit, nofun, by simp only [step, hpoint]; rfl⟩
  | getevents =>
    obtain ⟨e, es, hin⟩ := List.exists_cons_of_ne_nil (h.busy hpoint)
    refine ⟨.getevents [e], nofun, ?_⟩
    simp [step, hpoint, hin, MAX_EVENT]
  | events es =>
    refine ⟨.next, nofun, ?_⟩
    cases es with
    | nil =>
      simp only [step, hpoint]
      split <;> rfl
    | cons e es =>
      simp only [step, hpoint]
      split <;> rfl
  | done => exact absurd hpoint hp
  | failed =>
    simp only [AtPoint, hpoint] at hpt

end Invariant

/-- **The schedule is right for every file of more than one block**, whatever the order and the
grouping of the completions. -/
theorem correct_of_lt {f : ℕ} (hf : 1024 < f) : Correct f := by
  have hinv : ∀ {as s}, Run step accepted (init f) as s → Inv f s := fun h =>
    h.invariant (init_inv hf) fun _ _ _ hi ha hs => inv_step hf hi ha hs
  refine ⟨fun as s h => (hinv h).scheduled, remaining (init f), fun as s h => ⟨?_, ?_⟩⟩
  · have hlen := h.length_le (init_inv hf) fun _ _ _ hi ha hs =>
      ⟨inv_step hf hi ha hs, remaining_lt hi ha hs⟩
    omega
  · exact (hinv h).progress

/-- A file of at most one block: the `for` loop counts no task. -/
theorem exists_run_idle {f : ℕ} (hf : f ≤ 1024) : ∃ s,
    Run step accepted (init f) [.prep, .submit] s ∧ s.point = .getevents ∧ s.inflight = [] := by
  have h1 : step (init f) .prep = some { init f with
      io_cb_p := [⟨0, SEQ_BUF_SIZE⟩], point := .submit } := by
    simp [step, init, MAX_EVENT, SEQ_BUF_SIZE, hf]
  exact ⟨_, (Run.nil.snoc nofun h1).snoc nofun rfl, rfl, rfl⟩

/-- **The schedule is right exactly for the files of more than one block.** -/
theorem correct_iff {f_size : ℕ} : Correct f_size ↔ 1024 < f_size := by
  refine ⟨fun h => ?_, correct_of_lt⟩
  by_contra hle
  obtain ⟨s, hr, hp, hin⟩ := exists_run_idle (Nat.le_of_not_lt hle)
  exact (h.1 _ _ hr).busy hp hin

/-- A file of 100 bytes: `io_getevents` waits, and nothing was submitted. -/
theorem not_correct_short : ¬ Correct 100 := by
  intro h
  obtain ⟨s, hr, hp⟩ : ∃ s, Run step accepted (init 100) [.prep, .submit] s ∧
      (s.point = .getevents ∧ s.inflight = []) := Run.exists_of_exec _ _ (by decide)
  exact (h.1 _ _ hr).busy hp.1 hp.2

/-! ## Runs in which `io_submit` may fail -/

section Free

variable {f : ℕ} {s s' : State} {a : Act} {as : List Act}

/-- The completions of an action. -/
def Act.reported : Act → List Iocb
  | .getevents es => es
  | _ => []

/-- What is reported was in flight, and what is submitted comes in flight. -/
theorem reported_of_step (hs : step s a = some s') :
    ∃ new, s'.submitted = s.submitted ++ new ∧
      (a.reported ++ s'.inflight).Perm (s.inflight ++ new) := by
  cases outcome_of_step hs with
  | submit hp => exact ⟨_, rfl, List.Perm.refl _⟩
  | resubmit hp => exact ⟨_, rfl, List.Perm.refl _⟩
  | getevents hp hne hperm =>
    refine ⟨[], (List.append_nil _).symm, ?_⟩
    rw [List.append_nil]
    exact hperm
  | _ => exact ⟨[], (List.append_nil _).symm, by rw [List.append_nil]; exact List.Perm.refl _⟩

/-- A run that did not end with `return ""` had no failure. -/
theorem accepted_of_run (h : Run step free (init f) as s) (hp : s.point ≠ .failed) :
    Run step accepted (init f) as s := by
  induction h with
  | nil => exact .nil
  | @snoc as s s' a _ _ hs ih =>
    have ha : accepted s a := by
      rintro rfl
      cases outcome_of_step hs with
      | submitFail => exact hp rfl
    refine (ih fun hf => ?_).snoc ha hs
    cases a <;> simp [step, hf] at hs

/-- Before the first completion, with nothing submitted. -/
structure Idle (f : ℕ) (s : State) : Prop where
  size : s.f_size = f
  offset : s.offset = 0
  tasks : s.task_no = 0
  inflight : s.inflight = []
  point : s.point = .prep ∨ s.point = .submit ∨ s.point = .getevents ∨ s.point = .failed

theorem idle_step (hf : f ≤ 1024) (h : Idle f s) (hs : step s a = some s') : Idle f s' := by
  have hpt := h.point
  cases outcome_of_step hs with
  | prep hp htask hnext =>
    have hsize := h.size
    omega
  | prepLast hp hlast => exact ⟨h.size, h.offset, h.tasks, h.inflight, .inr (.inl rfl)⟩
  | prepFull hp htask =>
    have htasks := h.tasks
    omega
  | submit hp =>
    refine ⟨h.size, h.offset, h.tasks, ?_, .inr (.inr (.inl rfl))⟩
    simp only [h.inflight, h.tasks, List.take_zero, List.append_nil]
  | submitFail => exact ⟨h.size, h.offset, h.tasks, h.inflight, .inr (.inr (.inr rfl))⟩
  | getevents hp hne hperm =>
    rw [h.inflight] at hperm
    exact absurd (List.append_eq_nil_iff.mp hperm.eq_nil).1 hne
  | resubmit hp | more hp | skip hp | done hp | again hp =>
    rw [hp] at hpt
    simp at hpt

/-- A file of at most one block is never returned. -/
theorem lt_of_done (h : Run step free (init f) as s) (hp : s.point = .done) : 1024 < f := by
  by_contra hle
  have hidle := h.invariant (I := Idle f) ⟨rfl, rfl, rfl, rfl, .inl rfl⟩
    fun _ _ _ hi _ hs => idle_step (Nat.le_of_not_lt hle) hi hs
  have hpt := hidle.point
  rw [hp] at hpt
  simp at hpt

/-- **Behind the loop every block was submitted, and none is in flight.** -/
theorem completed_of_done (h : Run step free (init f) as s) (hp : s.point = .done) :
    s.f_size = f ∧ s.AllCompleted := by
  have hf := lt_of_done h hp
  have hinv : Inv f s := (accepted_of_run h (by simp [hp])).invariant (init_inv hf)
    fun _ _ _ hi ha hs => inv_step hf hi ha hs
  exact ⟨hinv.size, hinv.leaves hp⟩

end Free

end BatchRead

end PracticeCode.KernelAio
