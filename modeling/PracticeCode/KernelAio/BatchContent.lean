import PracticeCode.KernelAio.BatchRead

/-!
# What `BatchReadByLibAIO` returns

`BatchRead` has the schedule; here a completion also has its result, `e.res`: the count of bytes
that the kernel stored behind `buf + offset`, or a negative error.  The loop prints it and counts
`e.obj->u.c.nbytes`, so that a block that was read in part or not at all counts like the others, and
the string has whatever was in the memory before.

`content_iff`: a run returns the content of the file, whatever the memory held, exactly if every
completion has all the bytes of its block.
-/

namespace PracticeCode.KernelAio.BatchContent

open Lib

abbrev Iocb := BatchRead.Iocb

/-- `io_event`. -/
structure Event where
  obj : Iocb
  res : ℤ
  deriving DecidableEq

/-- The bytes of the file that a request asks for. -/
def available (file : List UInt8) (b : Iocb) : ℕ := min b.nbytes (file.length - b.offset)

/-- A count of bytes that are there, or a negative error. -/
def Event.Possible (file : List UInt8) (e : Event) : Prop := e.res ≤ available file e.obj

def Event.Full (file : List UInt8) (e : Event) : Prop := e.res = available file e.obj

/-- The place `i` behind `buf` was stored to. -/
def Event.Covers (e : Event) (i : ℕ) : Prop :=
  e.obj.offset ≤ i ∧ i < e.obj.offset + e.res.toNat

instance (file : List UInt8) (e : Event) : Decidable (e.Possible file) := by
  unfold Event.Possible
  infer_instance

instance (file : List UInt8) (e : Event) : Decidable (e.Full file) := by
  unfold Event.Full
  infer_instance

instance (e : Event) (i : ℕ) : Decidable (e.Covers i) := by
  unfold Event.Covers
  infer_instance

/-- What the kernel does before it reports `e`. -/
def store (file : List UInt8) (buf : ℕ → UInt8) (e : Event) : ℕ → UInt8 :=
  fun i => if e.Covers i then file.getD i 0 else buf i

structure State where
  sched : BatchRead.State
  /-- The memory behind `buf`. -/
  buf : ℕ → UInt8

/-- `stat` tells the size of the file; `posix_memalign` does not clear the memory. -/
def init (file : List UInt8) (mem : ℕ → UInt8) : State := ⟨BatchRead.init file.length, mem⟩

inductive Act where
  | prep
  | submit
  | submitFail
  | getevents (es : List Event)
  | next
  deriving DecidableEq

def Act.events : Act → List Event
  | .getevents es => es
  | _ => []

/-- What the schedule sees of an action. -/
def Act.sched : Act → BatchRead.Act
  | .prep => .prep
  | .submit => .submit
  | .submitFail => .submitFail
  | .getevents es => .getevents (es.map Event.obj)
  | .next => .next

def step (file : List UInt8) (s : State) (a : Act) : Option State :=
  if ∀ e ∈ a.events, e.Possible file then
    (BatchRead.step s.sched a.sched).map fun t => ⟨t, a.events.foldl (store file) s.buf⟩
  else none

/-- `std::string s(buf, buf + f_size)` behind the loop, or `""`. -/
def returned (s : State) : Option (List UInt8) :=
  match s.sched.point with
  | .done => some ((List.range s.sched.f_size).map s.buf)
  | .failed => some []
  | _ => none

/-- Everything `io_getevents` reported in a run. -/
def completions (as : List Act) : List Event := as.flatMap Act.events

/-! ## The memory -/

section Memory

variable {file : List UInt8} {mem : ℕ → UInt8} {s s' : State} {a : Act} {as : List Act}

theorem step_eq_some : step file s a = some s' ↔ (∀ e ∈ a.events, e.Possible file) ∧
    BatchRead.step s.sched a.sched = some s'.sched ∧
      s'.buf = a.events.foldl (store file) s.buf := by
  unfold step
  rw [Option.ite_none_right_eq_some, Option.map_eq_some_iff]
  refine and_congr_right fun _ => ⟨?_, fun ⟨ht, hb⟩ => ⟨s'.sched, ht, ?_⟩⟩
  · rintro ⟨t, ht, rfl⟩
    exact ⟨ht, rfl⟩
  · rw [← hb]

/-- Whatever is stored at a place is the byte of the file. -/
theorem foldl_store (l : List Event) (buf : ℕ → UInt8) (i : ℕ) :
    l.foldl (store file) buf i = if ∃ e ∈ l, e.Covers i then file.getD i 0 else buf i := by
  induction l generalizing buf with
  | nil => simp
  | cons e l ih =>
    rw [List.foldl_cons, ih, store]
    by_cases hl : ∃ e ∈ l, e.Covers i
    · rw [if_pos hl, if_pos]
      obtain ⟨e', he', hc⟩ := hl
      exact ⟨e', List.mem_cons_of_mem _ he', hc⟩
    · rw [if_neg hl]
      by_cases he : e.Covers i
      · rw [if_pos he, if_pos ⟨e, List.mem_cons_self .., he⟩]
      · rw [if_neg he, if_neg]
        rintro ⟨e', he', hc⟩
        rcases List.mem_cons.mp he' with rfl | he'
        · exact he hc
        · exact hl ⟨e', he', hc⟩

theorem completions_append (as : List Act) (a : Act) :
    completions (as ++ [a]) = completions as ++ a.events := by
  simp [completions]

theorem buf_of_run {G : State → Act → Prop} (h : Run (step file) G (init file mem) as s) :
    s.buf = (completions as).foldl (store file) mem ∧ ∀ e ∈ completions as, e.Possible file := by
  induction h with
  | nil => exact ⟨rfl, by simp [completions]⟩
  | snoc _ _ hs ih =>
    obtain ⟨hpos, -, hbuf⟩ := step_eq_some.mp hs
    obtain ⟨hb, hp⟩ := ih
    rw [completions_append]
    refine ⟨?_, List.forall_mem_append.mpr ⟨hp, hpos⟩⟩
    rw [List.foldl_append, ← hb, hbuf]

/-- The schedule does not see the memory. -/
theorem exists_run_of_mem {G : State → Act → Prop} (mem' : ℕ → UInt8)
    (h : Run (step file) G (init file mem) as s) :
    ∃ s', Run (step file) free (init file mem') as s' ∧ s'.sched = s.sched := by
  have hf : ∃ t, Run (step file) free (init file mem') (as.filterMap some) t ∧
      t.sched = s.sched :=
    h.follow (fun (s t : State) => t.sched = s.sched) some
      (show (init file mem').sched = (init file mem).sched from rfl) fun s a s' t hR _ hs => by
      obtain ⟨hpos, hst, -⟩ := step_eq_some.mp hs
      refine ⟨⟨s'.sched, a.events.foldl (store file) t.buf⟩, ?_, rfl⟩
      exact step_eq_some.mpr ⟨hpos, by rw [hR]; exact hst, rfl⟩
  rwa [List.filterMap_some] at hf

/-- **The schedule of a run.** -/
theorem sched_of_run {G : State → Act → Prop} (h : Run (step file) G (init file mem) as s) :
    Run BatchRead.step free (BatchRead.init file.length) (as.map Act.sched) s.sched := by
  have hr : Run BatchRead.step free (BatchRead.init file.length)
      (as.filterMap (some ∘ Act.sched)) s.sched :=
    h.refine (I := fun _ => True) State.sched (some ∘ Act.sched) trivial
      (fun _ _ _ _ _ _ => trivial) fun _ _ _ _ _ hs => (step_eq_some.mp hs).2.1
  rwa [List.filterMap_eq_map] at hr

theorem reported_sched (a : Act) : a.sched.reported = a.events.map Event.obj := by
  cases a <;> rfl

/-- What was reported and what is in flight is what was submitted. -/
theorem reported_of_run {G : State → Act → Prop} (h : Run (step file) G (init file mem) as s) :
    ((completions as).map Event.obj ++ s.sched.inflight).Perm s.sched.submitted := by
  induction h with
  | nil => exact List.Perm.refl _
  | @snoc as s s' a _ _ hs ih =>
    obtain ⟨new, hsub, hperm⟩ := BatchRead.reported_of_step (step_eq_some.mp hs).2.1
    rw [reported_sched] at hperm
    rw [completions_append, List.map_append, hsub, List.append_assoc]
    refine (hperm.append_left _).trans ?_
    rw [← List.append_assoc]
    exact ih.append_right _

/-! ## The string -/

/-- **Behind the loop each block was reported once.** -/
theorem blocks_of_done {G : State → Act → Prop} (h : Run (step file) G (init file mem) as s)
    (hp : s.sched.point = .done) : s.sched.f_size = file.length ∧
      ((completions as).map Event.obj).Perm (BatchRead.blocks file.length) := by
  obtain ⟨hsize, hall, hin⟩ := BatchRead.completed_of_done (sched_of_run h) hp
  refine ⟨hsize, ?_⟩
  have hrep := reported_of_run h
  rw [hin, List.append_nil] at hrep
  rw [hsize] at hall
  exact hrep.trans hall

theorem available_block (file : List UInt8) (b : ℕ) :
    available file (BatchRead.block b) = min 1024 (file.length - 1024 * b) := rfl

/-- A block that has all its bytes covers them. -/
theorem Event.Full.covers {e : Event} {i : ℕ} (h : e.Full file)
    (he : e.obj = BatchRead.block (i / 1024)) (hi : i < file.length) : e.Covers i := by
  have hres : e.res.toNat = min 1024 (file.length - 1024 * (i / 1024)) := by
    rw [h, Int.toNat_natCast, he, available_block]
  have hoff : e.obj.offset = 1024 * (i / 1024) := by rw [he]; rfl
  unfold Event.Covers
  omega

/-- Only the completion of a block covers what is in it. -/
theorem Event.Covers.block_eq {e : Event} {i b : ℕ} (h : e.Covers i) (hpos : e.Possible file)
    (he : e.obj = BatchRead.block b) : b = i / 1024 := by
  have hres : e.res ≤ (min 1024 (file.length - 1024 * b) : ℕ) := by
    rw [← available_block, ← he]
    exact hpos
  have hoff : e.obj.offset = 1024 * b := by rw [he]; rfl
  obtain ⟨h1, h2⟩ := h
  omega

/-- Every byte of the file was stored exactly if every completion has all of its block. -/
theorem covered_iff {l : List Event}
    (hl : (l.map Event.obj).Perm (BatchRead.blocks file.length)) (hpos : ∀ e ∈ l, e.Possible file) :
    (∀ i < file.length, ∃ e ∈ l, e.Covers i) ↔ ∀ e ∈ l, e.Full file := by
  have hnd : (l.map Event.obj).Nodup :=
    hl.nodup_iff.mpr (List.nodup_range.map BatchRead.block_injective)
  have hblock : ∀ e ∈ l, ∃ b, e.obj = BatchRead.block b ∧ 1024 * b < file.length := by
    intro e he
    obtain ⟨b, hb, heq⟩ := List.mem_map.mp (hl.mem_iff.mp (List.mem_map_of_mem he))
    exact ⟨b, heq.symm, BatchRead.lt_blockCount_iff.mp (List.mem_range.mp hb)⟩
  constructor
  · intro hcov e he
    obtain ⟨b, hb, hlt⟩ := hblock e he
    by_contra hfull
    have hshort : e.res < (min 1024 (file.length - 1024 * b) : ℕ) := by
      rw [← available_block, ← hb]
      exact Int.lt_iff_le_and_ne.mpr ⟨hpos e he, hfull⟩
    -- the first byte that is missing
    obtain ⟨e', he', hc⟩ := hcov (1024 * b + e.res.toNat) (by omega)
    obtain ⟨b', hb', -⟩ := hblock e' he'
    have hbb : b' = b := by
      have := hc.block_eq (hpos e' he') hb'
      omega
    obtain rfl : e' = e := List.inj_on_of_nodup_map hnd he' he (by rw [hb', hb, hbb])
    have hoff : e'.obj.offset = 1024 * b := by rw [hb]; rfl
    have hlt := hc.2
    omega
  · intro hfull i hi
    have hm : BatchRead.block (i / 1024) ∈ l.map Event.obj := by
      refine hl.mem_iff.mpr (List.mem_map_of_mem (List.mem_range.mpr ?_))
      rw [BatchRead.lt_blockCount_iff]
      omega
    obtain ⟨e, he, hb⟩ := List.mem_map.mp hm
    exact ⟨e, he, (hfull e he).covers hb hi⟩

/-- The string is the file, whatever was in the memory, exactly if every byte was stored. -/
theorem string_iff {l : List Event} : (∀ mem : ℕ → UInt8,
    (List.range file.length).map (l.foldl (store file) mem) = file) ↔
      ∀ i < file.length, ∃ e ∈ l, e.Covers i := by
  constructor
  · intro hstr i hi
    by_contra hno
    have hbyte := congrArg (fun str => str[i]?) (hstr fun _ => if file.getD i 0 = 0 then 1 else 0)
    simp only [List.getElem?_map, List.getElem?_range hi, Option.map_some, foldl_store,
      if_neg hno, List.getD_eq_getElem?_getD, List.getElem?_eq_getElem hi, Option.getD_some,
      Option.some.injEq] at hbyte
    split at hbyte
    · rename_i h0
      rw [h0] at hbyte
      cases hbyte
    · rename_i h0
      exact h0 hbyte.symm
  · intro hcov mem
    refine List.ext_getElem (by simp) fun i h1 h2 => ?_
    rw [List.getElem_map, List.getElem_range, foldl_store, if_pos (hcov i h2),
      List.getD_eq_getElem?_getD, List.getElem?_eq_getElem h2, Option.getD_some]

/-- **When the string is the content of the file**, whatever the memory held before: exactly if
every completion has all the bytes of its block. -/
theorem content_iff {str : List UInt8} (h : Run (step file) free (init file mem) as s)
    (hs : returned s = some str) (hne : str ≠ []) :
    (∀ mem' s', Run (step file) free (init file mem') as s' → returned s' = some file) ↔
      ∀ e ∈ completions as, e.Full file := by
  have hp : s.sched.point = .done := by
    unfold returned at hs
    split at hs
    · assumption
    · exact absurd (Option.some.inj hs).symm hne
    · cases hs
  obtain ⟨hsize, hblocks⟩ := blocks_of_done h hp
  rw [← covered_iff hblocks (buf_of_run h).2, ← string_iff]
  have hret : ∀ {mem' s'}, Run (step file) free (init file mem') as s' → returned s' =
      some ((List.range file.length).map ((completions as).foldl (store file) mem')) := by
    intro mem' s' hr
    obtain ⟨t, ht, hsched⟩ := exists_run_of_mem mem' h
    obtain rfl := ht.unique hr
    simp only [returned, hsched, hp, hsize, (buf_of_run hr).1]
  constructor
  · intro hall mem'
    obtain ⟨s', hr, -⟩ := exists_run_of_mem mem' h
    exact Option.some.inj ((hret hr).symm.trans (hall mem' s' hr))
  · intro hstr mem' s' hr
    rw [hret hr, hstr mem']

end Memory

/-- A file of one block and a byte. -/
def page : List UInt8 := List.replicate 1025 97

/-- Its two blocks are reported one after the other, the first with `res`. -/
def readRun (res : ℤ) : List Act := [.prep, .prep, .submit, .getevents [⟨⟨0, 1024⟩, res⟩], .next,
  .submit, .next, .getevents [⟨⟨1024, 1024⟩, 1⟩], .next, .next]

set_option maxRecDepth 8000 in
theorem content_page :
    (∃ s, Run (step page) free (init page fun _ => 0) (readRun 1024) s ∧ s.sched.point = .done) ∧
      ∀ mem s, Run (step page) free (init page mem) (readRun 1024) s → returned s = some page := by
  obtain ⟨s, hr, hp, hsize⟩ : ∃ s, Run (step page) free (init page fun _ => 0) (readRun 1024) s ∧
      s.sched.point = .done ∧ s.sched.f_size = 1025 := Run.exists_of_exec _ _ (by decide)
  have hs : returned s = some ((List.range 1025).map s.buf) := by
    simp only [returned, hp, hsize]
  exact ⟨⟨s, hr, hp⟩, (content_iff hr hs (by simp)).mpr (by decide)⟩

/-- A string with a byte that was not stored. -/
theorem ne_page_of_buf {s : State} (hp : s.sched.point = .done ∧ s.sched.f_size = 1025)
    (hbuf : s.buf 1000 = 0) : ∃ str, returned s = some str ∧ str ≠ [] ∧ str ≠ page := by
  refine ⟨(List.range 1025).map s.buf, by simp only [returned, hp], by simp, fun he => ?_⟩
  have hbyte := congrArg (fun str => str[1000]?) he
  simp only [List.getElem?_map, List.getElem?_range (by omega : 1000 < 1025), Option.map_some,
    hbuf, page, List.getElem?_replicate_of_lt (by omega : 1000 < 1025)] at hbyte
  cases hbyte

set_option maxRecDepth 8000 in
/-- **The first block fails, or is cut short**, and the string is returned. -/
theorem not_content :
    (∃ s str, Run (step page) free (init page fun _ => 0) (readRun (-5)) s ∧
      returned s = some str ∧ str ≠ [] ∧ str ≠ page) ∧
    ∃ s str, Run (step page) free (init page fun _ => 0) (readRun 512) s ∧
      returned s = some str ∧ str ≠ [] ∧ str ≠ page := by
  have hbuf : ∀ {as}, (∃ s, Run (step page) free (init page fun _ => 0) as s ∧
      (s.sched.point = .done ∧ s.sched.f_size = 1025) ∧ s.buf 1000 = 0) →
      ∃ s str, Run (step page) free (init page fun _ => 0) as s ∧
        returned s = some str ∧ str ≠ [] ∧ str ≠ page := by
    rintro as ⟨s, hr, hp, hb⟩
    obtain ⟨str, hs⟩ := ne_page_of_buf hp hb
    exact ⟨s, str, hr, hs⟩
  exact ⟨hbuf (Run.exists_of_exec _ _ (by decide)),
    hbuf (Run.exists_of_exec _ _ (by decide))⟩

end PracticeCode.KernelAio.BatchContent
