import Mathlib.Algebra.Ring.Nat
import Mathlib.Data.List.TakeWhile

/-!
# `sync_io`: the same file through `read` and through `fgets`

`ReadBySyscallOpen` appends what each `read` counted.  `ReadByFOpen` appends, after each `fgets`,
the C string in the buffer, which ends at the first zero byte and not where `fgets` stopped.

`readers_agree_iff`: both readers return the file's content, however `read` splits it, exactly when
the file has no zero byte.
-/

namespace PracticeCode.SyncIO

/-- `BUF_SIZE`, in both readers. -/
abbrev bufSize : ℕ := 1024

/-! ## `kernel_read.h` -/

/-- The results of the calls of `read` on a file with the bytes `rest` left: positive counts of at
most a buffer, and 0 at the end of the file. -/
inductive Reads : List UInt8 → List ℤ → Prop
  | eof : Reads [] [0]
  | count {rest : List UInt8} {n : ℕ} {sizes : List ℤ} : 0 < n → n ≤ bufSize → n ≤ rest.length →
      Reads (rest.drop n) sizes → Reads rest (n :: sizes)

/-- The loop of `ReadBySyscallOpen`; `none` when it is not over after these calls. -/
def readLoop (rest s : List UInt8) : List ℤ → Option (List UInt8)
  | [] => none
  | size :: sizes =>
    if size ≤ 0 then some s
    else readLoop (rest.drop size.toNat) (s ++ rest.take size.toNat) sizes

def ReadBySyscallOpen (content : List UInt8) (sizes : List ℤ) : Option (List UInt8) :=
  readLoop content [] sizes

/-! ## `glibc_read.h` -/

/-- At most `n` bytes, through the first newline. -/
def takeLine : ℕ → List UInt8 → List UInt8
  | 0, _ | _, [] => []
  | n + 1, b :: bs => if b = 10 then [b] else b :: takeLine n bs

/-- `fgets(buf, size, fp)`: the line and a terminator overwrite the front of `buf`; `none` is
`NULL`, and the other part what is left of the file. -/
def fgets (buf : List UInt8) (size : ℕ) : List UInt8 → Option (List UInt8 × List UInt8)
  | [] => none
  | rest =>
    let line := takeLine (size - 1) rest
    some (line ++ 0 :: buf.drop (line.length + 1), rest.drop line.length)

def strlen (buf : List UInt8) : ℕ := (buf.takeWhile (· != 0)).length

theorem takeLine_isPrefix (n : ℕ) (rest : List UInt8) : takeLine n rest <+: rest := by
  induction n, rest using takeLine.induct with
  | case1 rest => simp [takeLine]
  | case2 n => simp [takeLine]
  | case3 n bs => simp [takeLine]
  | case4 n b bs hb ih =>
    rw [takeLine, if_neg hb]
    exact List.cons_prefix_cons.mpr ⟨rfl, ih⟩

theorem takeLine_ne_nil {n : ℕ} {rest : List UInt8} (hn : 0 < n) (hr : rest ≠ []) :
    takeLine n rest ≠ [] := by
  obtain ⟨n, rfl⟩ := Nat.exists_eq_succ_of_ne_zero (Nat.ne_of_gt hn)
  obtain ⟨b, bs, rfl⟩ := List.exists_cons_of_ne_nil hr
  unfold takeLine
  split <;> simp

/-- `fgets` takes a line off the file. -/
theorem fgets_eq_some {buf rest : List UInt8} {size : ℕ} {r : List UInt8 × List UInt8}
    (h : fgets buf size rest = some r) : ∃ line tail, rest = line ++ r.2 ∧
      r.1 = line ++ 0 :: tail ∧ (1 < size → line ≠ []) := by
  cases rest with
  | nil => cases h
  | cons b bs =>
    obtain rfl := Option.some.inj h
    refine ⟨_, _, ?_, rfl, fun hs => takeLine_ne_nil (by omega) (by simp)⟩
    exact (List.prefix_iff_eq_append.mp (takeLine_isPrefix _ _)).symm

/-- The loop of `ReadByFOpen`. -/
def fgetsLoop (buf rest s : List UInt8) : List UInt8 :=
  match _ : fgets buf bufSize rest with
  | none => s
  | some r => fgetsLoop r.1 r.2 (s ++ r.1.take (strlen r.1))
termination_by rest.length
decreasing_by
  rename_i h
  obtain ⟨line, tail, hrest, -, hne⟩ := fgets_eq_some h
  have := List.length_pos_iff.mpr (hne (by decide))
  rw [hrest, List.length_append]
  omega

/-- `buf` is the array before anything is read into it. -/
def ReadByFOpen (buf content : List UInt8) : List UInt8 := fgetsLoop buf content []

/-! ## What the readers return -/

/-- However it is split, `read` gives the whole file. -/
theorem readLoop_eq {rest s : List UInt8} {sizes : List ℤ} (h : Reads rest sizes) :
    readLoop rest s sizes = some (s ++ rest) := by
  induction h generalizing s with
  | eof => simp [readLoop]
  | @count rest n sizes h0 hn hlen _ ih =>
    have hpos : ¬ (n : ℤ) ≤ 0 := by omega
    rw [readLoop, if_neg hpos, Int.toNat_natCast, ih, List.append_assoc, List.take_append_drop]

/-- The C string in front of the terminator that `fgets` wrote. -/
theorem take_strlen (line tail : List UInt8) :
    (line ++ 0 :: tail).take (strlen (line ++ 0 :: tail)) = line.takeWhile (· != 0) := by
  have h : (line ++ 0 :: tail).takeWhile (· != 0) = line.takeWhile (· != 0) := by
    induction line with
    | nil => simp
    | cons b bs ih =>
      rw [List.cons_append, List.takeWhile_cons, List.takeWhile_cons, ih]
  have hpre := List.takeWhile_prefix (l := line ++ 0 :: tail) (· != 0)
  rw [strlen, ← List.prefix_iff_eq_take.mp hpre, h]

theorem length_takeWhile_add_count_le (line : List UInt8) :
    (line.takeWhile (· != 0)).length + line.count 0 ≤ line.length := by
  induction line with
  | nil => simp
  | cons b bs ih =>
    have hle := List.count_le_length (a := 0) (l := bs)
    by_cases hb : b = 0
    · simp only [hb, List.takeWhile_cons, List.count_cons, List.length_cons]
      simp
      omega
    · simp only [List.takeWhile_cons, List.count_cons, List.length_cons]
      simp [hb]
      omega

theorem takeWhile_of_zero_not_mem {line : List UInt8} (h : 0 ∉ line) :
    line.takeWhile (· != 0) = line := by
  rw [List.takeWhile_eq_self_iff]
  intro b hb
  apply bne_iff_ne.mpr
  rintro rfl
  exact h hb

/-- The round of the loop that reads `line`. -/
theorem fgetsLoop_cases (buf rest s : List UInt8) :
    (rest = [] ∧ fgetsLoop buf rest s = s) ∨
      ∃ line rest' buf', rest = line ++ rest' ∧ line ≠ [] ∧
        fgetsLoop buf rest s = fgetsLoop buf' rest' (s ++ line.takeWhile (· != 0)) := by
  rw [fgetsLoop]
  split
  · rename_i h
    cases rest with
    | nil => exact .inl ⟨rfl, rfl⟩
    | cons b bs => cases h
  · rename_i r h
    obtain ⟨line, tail, hrest, hbuf, hne⟩ := fgets_eq_some h
    refine .inr ⟨line, r.2, r.1, hrest, hne (by decide), ?_⟩
    rw [hbuf, take_strlen]

/-- Without zero bytes, `fgets` gives the whole file. -/
theorem fgetsLoop_of_zero_not_mem {n : ℕ} : ∀ {buf rest s : List UInt8}, rest.length = n →
    0 ∉ rest → fgetsLoop buf rest s = s ++ rest := by
  induction n using Nat.strong_induction_on with
  | h n ih =>
    intro buf rest s hn h0
    rcases fgetsLoop_cases buf rest s with ⟨rfl, hs⟩ | ⟨line, rest', buf', rfl, hne, hs⟩
    · rw [hs, List.append_nil]
    · have hpos := List.length_pos_iff.mpr hne
      rw [List.length_append] at hn
      rw [List.mem_append, not_or] at h0
      rw [hs, ih rest'.length (by omega) rfl h0.2, takeWhile_of_zero_not_mem h0.1,
        List.append_assoc]

/-- Every zero byte is missing from the result. -/
theorem length_fgetsLoop_le {n : ℕ} : ∀ (buf rest s : List UInt8), rest.length = n →
    (fgetsLoop buf rest s).length + rest.count 0 ≤ s.length + rest.length := by
  induction n using Nat.strong_induction_on with
  | h n ih =>
    intro buf rest s hn
    rcases fgetsLoop_cases buf rest s with ⟨rfl, hs⟩ | ⟨line, rest', buf', rfl, hne, hs⟩
    · simp [hs]
    · have hpos := List.length_pos_iff.mpr hne
      rw [List.length_append] at hn
      have h1 := ih rest'.length (by omega) buf' rest' (s ++ line.takeWhile (· != 0)) rfl
      have h2 := length_takeWhile_add_count_le line
      rw [List.length_append] at h1
      rw [hs, List.count_append, List.length_append]
      omega

theorem readByFOpen_eq_iff (buf content : List UInt8) :
    ReadByFOpen buf content = content ↔ 0 ∉ content := by
  constructor
  · intro h
    have hlen := length_fgetsLoop_le buf content [] rfl
    rw [← ReadByFOpen, h, List.length_nil] at hlen
    exact List.count_eq_zero.mp (by omega)
  · exact fun h => fgetsLoop_of_zero_not_mem rfl h

/-- Both readers return the content of the file. -/
def Agree (buf content : List UInt8) (sizes : List ℤ) : Prop :=
  ReadBySyscallOpen content sizes = some content ∧ ReadByFOpen buf content = content

/-- **The readers agree on the files without a zero byte.** -/
theorem readers_agree_iff {buf content : List UInt8} {sizes : List ℤ} (h : Reads content sizes) :
    Agree buf content sizes ↔ 0 ∉ content := by
  rw [Agree, readByFOpen_eq_iff]
  exact and_iff_right (readLoop_eq h)

theorem readers_agree_iff_lines : Reads [97, 10, 98] [1, 2, 0] ∧
    Agree (List.replicate bufSize 7) [97, 10, 98] [1, 2, 0] := by
  have h : Reads [97, 10, 98] [1, 2, 0] :=
    .count (n := 1) (by decide) (by decide) (by decide)
      (.count (n := 2) (by decide) (by decide) (by decide) .eof)
  exact ⟨h, (readers_agree_iff h).mpr (by decide)⟩

/-- One zero byte: `read` returns it, and `fgets` puts it where `strlen` takes it for the end. -/
theorem not_agree : ¬ ∀ buf content sizes, Reads content sizes → Agree buf content sizes := by
  intro h
  have hr : Reads [0] [1, 0] := .count (n := 1) (by decide) (by decide) (by decide) .eof
  have hf : ∀ buf, ReadByFOpen buf [0] = [] := by
    intro buf
    simp [ReadByFOpen, fgetsLoop, fgets, takeLine, strlen]
  have ha := (h (List.replicate bufSize 0) [0] [1, 0] hr).2
  rw [hf] at ha
  cases ha

end PracticeCode.SyncIO
