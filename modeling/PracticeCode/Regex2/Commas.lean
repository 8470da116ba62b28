import PracticeCode.Regex2.Defs

/-!
# The commas of `test4`

`r_comma1` consumes the character in front of a comma, `r_comma2` the one behind it.  In a run of
commas the first pass matches every second one; the spaces that it puts serve the second pass as
characters outside `IsN`, for every comma of the run but the last, if that was not matched.

`commas_iff`: the commas are spaced exactly if no run ends with such a comma, in front of a
character of `IsN` or of the end.
-/

namespace PracticeCode.Regex2

open Lib

section Commas

variable {s : WString} {i : ℕ}

/-! ## The two passes -/

theorem pads_comma1 : Pads r_comma1 [.group 1, .lit space, .lit comma, .lit space] space 1 :=
  pads_behind

theorem pads_comma2 : Pads r_comma2 [.lit space, .lit comma, .lit space, .group 1] space 0 :=
  pads_ahead

/-- The first pass matches the comma `i`. -/
def comma1 (s : WString) (i : ℕ) : Bool := taken (hit r_comma1 1 s) 1 i

theorem hit_comma1 : hit r_comma1 1 s i = true ↔
    s[i]? = some comma ∧ outside IsN (prev? s i) = true := by
  have h : hit r_comma1 1 s i = (outside IsN (prev? s i) && s[i]?.any (· = comma)) := hit_behind i
  rw [h, Bool.and_eq_true, any_eq, and_comm]

theorem hit_comma2 : hit r_comma2 0 s i = true ↔
    s[i]? = some comma ∧ outside IsN s[i + 1]? = true := by
  have h : hit r_comma2 0 s i = (s[i]?.any (· = comma) && outside IsN s[i + 1]?) := hit_ahead i
  rw [h, Bool.and_eq_true, any_eq]

theorem outside_comma : outside IsN (some comma) = true := outside_some.mpr not_mem_IsN.1

theorem outside_space : outside IsN (some space) = true := outside_some.mpr not_mem_IsN.2

theorem comma1_iff : comma1 s i = true ↔ s[i]? = some comma ∧ outside IsN (prev? s i) = true ∧
    ∀ j, i = j + 1 → comma1 s j = false := by
  rw [comma1, taken_iff, hit_comma1, and_assoc]
  refine and_congr_right fun _ => and_congr_right fun _ => ⟨fun h j hj => ?_, fun h j hj hle => ?_⟩
  · exact h j (by omega) (by omega)
  · exact h j (by omega)

theorem comma1_succ (h : s[i]? = some comma) (h' : s[i + 1]? = some comma) :
    comma1 s (i + 1) = !comma1 s i := by
  rw [Bool.eq_iff_iff, comma1_iff, Bool.not_eq_true']
  constructor
  · rintro ⟨-, -, hfree⟩
    exact hfree i rfl
  · intro hi
    refine ⟨h', by rw [prev?, h, outside_comma], fun j hj => ?_⟩
    obtain rfl : i = j := by omega
    exact hi

theorem padding_comma1 : padding r_comma1 1 s i = (comma1 s i).toNat := rfl

/-- The first pass leaves no two commas side by side. -/
theorem after_ne_comma (h : s[i]? = some comma) :
    after space (padding r_comma1 1 s) s i ≠ some comma := by
  unfold after
  rw [padding_comma1, padding_comma1]
  intro he
  split at he
  · cases he
  · rename_i hi
    split at he
    · obtain ⟨c, -, hc⟩ := Option.map_eq_some_iff.mp he
      cases hc
    · rename_i hnext
      rw [comma1_succ h he] at hnext
      cases hc : comma1 s i <;> simp [hc] at hi hnext

/-- How many spaces the two passes put on each side of position `i`. -/
def commaPads (s : WString) (i : ℕ) : ℕ :=
  (comma1 s i).toNat + (s[i]?.any (· = comma) &&
    outside IsN (after space (padding r_comma1 1 s) s i)).toNat

theorem test4_eq (s : WString) : test4 s = surround space (commaPads s) 0 s := by
  rw [test4, regex_replace_eq_surround pads_comma1]
  refine regex_replace_surround pads_comma2 (fun _ c y => decide (c = comma) && outside IsN y)
    (fun t i c hc => ?_) (fun x y => rfl) (fun i j hlt hle hj => ?_) (fun i c hc => ?_)
  · rw [Bool.eq_iff_iff, hit_comma2, hc]
    simp
  · -- the second of two matches would start at the character behind a comma
    obtain rfl : i = j + 1 := by
      have : r_comma2.length = 2 := rfl
      omega
    obtain ⟨k, hk, hnext⟩ := exists_after (by decide) (hit_comma2.mp hj).1
    by_contra hi
    have hc := (hit_comma2.mp (eq_true_of_ne_false hi)).1
    exact after_ne_comma hk (hnext ▸ hc)
  · rw [commaPads, padding_comma1, hc]
    rfl

/-- **Only spaces are put in.** -/
theorem filter_test4 (s : WString) : (test4 s).filter (· ≠ space) = s.filter (· ≠ space) := by
  rw [test4_eq]
  exact filter_surround 0 s

/-! ## Which commas get their spaces -/

/-- What stands behind an unmatched comma is of the same class as in the string. -/
theorem outside_after (hi : comma1 s i = false) :
    outside IsN (after space (padding r_comma1 1 s) s i) = outside IsN s[i + 1]? := by
  rw [after, padding_comma1, padding_comma1, hi]
  cases hc : comma1 s (i + 1) with
  | false => rfl
  | true =>
    rw [(comma1_iff.mp hc).1, outside_comma]
    exact outside_space

theorem commaPads_pos : 0 < commaPads s i ↔
    s[i]? = some comma ∧ (comma1 s i = true ∨ outside IsN s[i + 1]? = true) := by
  rw [commaPads]
  cases hi : comma1 s i with
  | true =>
    refine iff_of_true ?_ ⟨(comma1_iff.mp hi).1, .inl rfl⟩
    rw [Bool.toNat_true]
    omega
  | false =>
    rw [Bool.toNat_false, Nat.zero_add, toNat_pos, Bool.and_eq_true, any_eq,
      outside_after hi, or_iff_right Bool.false_ne_true]

/-- **A comma has its spaces** if the first pass matches it, or a character outside `IsN` is behind
it. -/
theorem spaced_comma (h : s[i]? = some comma) :
    before space (commaPads s) s i = some space ∧ after space (commaPads s) s i = some space ↔
      comma1 s i = true ∨ outside IsN s[i + 1]? = true := by
  constructor
  · rintro ⟨-, hafter⟩
    by_contra hno
    have h0 : ¬ 0 < commaPads s i := fun hpos => hno (commaPads_pos.mp hpos).2
    rw [after, if_neg h0] at hafter
    apply hno
    right
    split at hafter
    · rename_i hpos
      rw [(commaPads_pos.mp hpos).1]
      exact outside_comma
    · rw [hafter]
      exact outside_space
  · intro hor
    have hpos : 0 < commaPads s i := commaPads_pos.mpr ⟨h, hor⟩
    simp [before, after, hpos]

theorem commasSpaced_iff_comma1 : CommasSpaced s ↔ ∀ i, s[i]? = some comma →
    outside IsN (prev? s i) = true → outside IsN s[i + 1]? = false → comma1 s i = true := by
  rw [CommasSpaced, Spaced, test4_eq, forall₂_neighbours (by decide)]
  refine forall_congr' fun i => forall_congr' fun hi => ?_
  rw [Prod.mk.injEq, spaced_comma hi]
  constructor
  · intro h hprev hnext
    rcases h (.inl hprev) with h | h
    · exact h
    · rw [hnext] at h
      cases h
  · rintro h (hprev | hnext)
    · cases hnext : outside IsN s[i + 1]? with
      | true => exact .inr rfl
      | false => exact .inl (h hprev hnext)
    · exact .inr hnext

/-! ## Runs of commas -/

/-- A run of two or more commas, in front of the end or of a character of `IsN`, has an odd length
if a character outside `IsN` stands in front of it, and an even one if not. -/
def CommaRuns (s : WString) : Prop :=
  ∀ i m, 2 ≤ m → (∀ j < m, s[i + j]? = some comma) → prev? s i ≠ some comma →
    outside IsN s[i + m]? = false → (m % 2 = 1 ↔ outside IsN (prev? s i) = true)

/-- In a run every second comma is matched, from the first on or from the second on. -/
theorem comma1_run {m : ℕ} (hrun : ∀ j < m, s[i + j]? = some comma)
    (hstart : prev? s i ≠ some comma) {j : ℕ} (hj : j < m) :
    comma1 s (i + j) = true ↔ (j % 2 = 0 ↔ outside IsN (prev? s i) = true) := by
  induction j with
  | zero =>
    rw [comma1_iff]
    have hfree : ∀ k, i + 0 = k + 1 → comma1 s k = false := by
      intro k hk
      by_contra hc
      apply hstart
      rw [show i = k + 1 by omega]
      exact (comma1_iff.mp (eq_true_of_ne_false hc)).1
    have h0 := hrun 0 hj
    simp only [Nat.add_zero] at h0 hfree ⊢
    simp only [h0, true_and]
    constructor
    · rintro ⟨hout, -⟩
      exact iff_of_true trivial hout
    · intro hout
      exact ⟨hout.mp trivial, hfree⟩
  | succ j ih =>
    rw [← Nat.add_assoc, comma1_succ (hrun j (by omega)) (hrun (j + 1) hj), Bool.not_eq_true',
      ← Bool.not_eq_true, ih (by omega)]
    by_cases hout : outside IsN (prev? s i) = true
    · rw [iff_true_right hout, iff_true_right hout]
      omega
    · rw [iff_false_right hout, iff_false_right hout]
      omega

/-- The run that a comma is in. -/
theorem exists_run (h : s[i]? = some comma) : ∃ i₀ m, i = i₀ + m ∧
    (∀ j < m + 1, s[i₀ + j]? = some comma) ∧ prev? s i₀ ≠ some comma := by
  induction i with
  | zero =>
    refine ⟨0, 0, rfl, fun j hj => ?_, by simp [prev?]⟩
    obtain rfl : j = 0 := by omega
    exact h
  | succ i ih =>
    by_cases hprev : s[i]? = some comma
    · obtain ⟨i₀, m, rfl, hrun, hstart⟩ := ih hprev
      refine ⟨i₀, m + 1, rfl, fun j hj => ?_, hstart⟩
      by_cases hjm : j = m + 1
      · rw [hjm]
        exact h
      · exact hrun j (by omega)
    · refine ⟨i + 1, 0, rfl, fun j hj => ?_, hprev⟩
      obtain rfl : j = 0 := by omega
      exact h

/-- **When every comma gets its spaces.** -/
theorem commas_iff : CommasSpaced s ↔ CommaRuns s := by
  rw [commasSpaced_iff_comma1]
  constructor
  · intro h i m hm hrun hstart hend
    -- the last comma of the run
    obtain ⟨n, rfl⟩ : ∃ n, m = n + 2 := ⟨m - 2, by omega⟩
    have hlast : comma1 s (i + (n + 1)) = true := by
      apply h
      · exact hrun (n + 1) (by omega)
      · show outside IsN s[i + n]? = true
        rw [hrun n (by omega)]
        exact outside_comma
      · exact hend
    rw [comma1_run hrun hstart (by omega)] at hlast
    rw [← hlast]
    omega
  · intro h i hi hprev hnext
    obtain ⟨i₀, m, rfl, hrun, hstart⟩ := exists_run hi
    rw [comma1_run hrun hstart (by omega)]
    cases m with
    | zero => exact iff_of_true rfl hprev
    | succ m =>
      rw [← h i₀ (m + 2) (by omega) hrun hstart hnext]
      omega

end Commas

end PracticeCode.Regex2
