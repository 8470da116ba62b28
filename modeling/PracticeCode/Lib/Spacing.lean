import PracticeCode.Lib.Cursor
import Mathlib.Data.List.Forall2

/-!
# Separators around the characters of a string

`surround sp f 0 s` is `s` with `f i` separators on each side of its character number `i`.

* `neighbours q s`: what stands before and behind each `q` in `s`, in their order;
* `forall₂_neighbours`: what surrounding does to the neighbours, position by position;
* `surroundWhere`: one walk that looks at a character and its two neighbours, and
  `surroundWhere_surround`: two of them one after the other.
-/

namespace PracticeCode.Lib

variable {α : Type*}

def surround (sp : α) (f : ℕ → ℕ) : ℕ → List α → List α
  | _, [] => []
  | i, c :: cs =>
    List.replicate (f i) sp ++ c :: (List.replicate (f i) sp ++ surround sp f (i + 1) cs)

section Surround

variable {sp : α} {f g : ℕ → ℕ}

theorem surround_append (i : ℕ) (a b : List α) :
    surround sp f i (a ++ b) = surround sp f i a ++ surround sp f (i + a.length) b := by
  induction a generalizing i with
  | nil => rfl
  | cons c a ih =>
    have hlen : i + (c :: a).length = i + 1 + a.length := by
      rw [List.length_cons]
      omega
    rw [hlen]
    simp only [List.cons_append, surround, ih, List.append_assoc]

theorem surround_congr {t : List α} {i j : ℕ} (h : ∀ m < t.length, f (i + m) = g (j + m)) :
    surround sp f i t = surround sp g j t := by
  induction t generalizing i j with
  | nil => rfl
  | cons c t ih =>
    have h0 : f i = g j := h 0 (by simp)
    have ht : surround sp f (i + 1) t = surround sp g (j + 1) t := by
      apply ih
      intro m hm
      have := h (m + 1) (by simpa using hm)
      rwa [show i + 1 + m = i + (m + 1) by omega, show j + 1 + m = j + (m + 1) by omega]
    rw [surround, surround, h0, ht]

theorem surround_zero (i : ℕ) (t : List α) : surround sp (fun _ => 0) i t = t := by
  induction t generalizing i with
  | nil => rfl
  | cons c t ih => simp [surround, ih]

/-- Without the separators the string is what it was. -/
theorem filter_surround [DecidableEq α] (i : ℕ) (t : List α) :
    (surround sp f i t).filter (· ≠ sp) = t.filter (· ≠ sp) := by
  induction t generalizing i with
  | nil => rfl
  | cons c t ih =>
    simp only [surround, List.filter_append, List.filter_cons, List.filter_replicate, ih]
    simp

end Surround

/-! ## Neighbours -/

/-- The character in front of position `i`. -/
def prev? (s : List α) : ℕ → Option α
  | 0 => none
  | i + 1 => s[i]?

section Context

variable (sp : α) (f : ℕ → ℕ) (s : List α)

/-- What stands in front of position `i` and of the separators that belong to it. -/
def lead : ℕ → Option α
  | 0 => none
  | i + 1 => if 0 < f i then some sp else s[i]?

/-- What stands right before the character number `i`. -/
def before (i : ℕ) : Option α := if 0 < f i then some sp else lead sp f s i

/-- What stands right behind it. -/
def after (i : ℕ) : Option α :=
  if 0 < f i then some sp
  else if 0 < f (i + 1) then s[i + 1]?.map fun _ => sp
  else s[i + 1]?

end Context

section Neighbours

variable {sp q : α} {f : ℕ → ℕ} {s t : List α}

theorem lead_zero (i : ℕ) : lead sp (fun _ => 0) s i = prev? s i := by
  cases i <;> rfl

theorem head?_surround (i : ℕ) :
    (surround sp f i t).head? = if 0 < f i then t.head?.map (fun _ => sp) else t.head? := by
  cases t with
  | nil => simp [surround]
  | cons c t =>
    cases hf : f i with
    | zero => simp [surround, hf]
    | succ n => simp [surround, hf, List.replicate_succ]

theorem before_eq_iff {i : ℕ} : before sp f s i = some sp ↔
    0 < f i ∨ ∃ j, i = j + 1 ∧ (0 < f j ∨ s[j]? = some sp) := by
  unfold before
  split
  · simp [*]
  · rename_i h0
    cases i with
    | zero => simp [lead, h0]
    | succ j => by_cases hj : 0 < f j <;> simp [lead, hj, h0]

theorem after_eq_iff {i : ℕ} (hf : 0 < f (i + 1) → s[i + 1]? ≠ none) : after sp f s i = some sp ↔
    0 < f i ∨ 0 < f (i + 1) ∨ s[i + 1]? = some sp := by
  unfold after
  split
  · simp [*]
  · rename_i h0
    split
    · rename_i h1
      obtain ⟨c, hc⟩ := Option.ne_none_iff_exists'.mp (hf h1)
      simp [h1, hc]
    · rename_i h1
      simp [h0, h1]

/-- A test that takes separators for what they surround does not see them, where there is none. -/
theorem any_before {P : α → Bool} (hf : ∀ i, 0 < f i → s[i]?.any P = P sp) {i : ℕ} (h0 : f i = 0) :
    (before sp f s i).any P = (prev? s i).any P := by
  rw [before, h0, if_neg (Nat.lt_irrefl 0)]
  cases i with
  | zero => rfl
  | succ j =>
    rw [lead, prev?]
    split
    · rename_i hj
      exact (hf j hj).symm
    · rfl

theorem any_after {P : α → Bool} (hf : ∀ i, 0 < f i → s[i]?.any P = P sp) {i : ℕ} (h0 : f i = 0) :
    (after sp f s i).any P = s[i + 1]?.any P := by
  rw [after, h0, if_neg (Nat.lt_irrefl 0)]
  split
  · rename_i h1
    have := hf (i + 1) h1
    cases hc : s[i + 1]? with
    | none => rfl
    | some c =>
      rw [hc] at this
      exact this.symm
  · rfl

/-- What stands behind the character that `t` follows. -/
theorem head?_behind {i : ℕ} {c : α} (h : s.drop i = c :: t) :
    (List.replicate (f i) sp ++ surround sp f (i + 1) t).head? = after sp f s i := by
  have ht := getElem?_succ_of_drop h
  unfold after
  cases hf : f i with
  | zero => simp [head?_surround, ht]
  | succ n => simp [List.replicate_succ]

variable [DecidableEq α]

/-- The characters before and behind each `q`, where `prev` stands in front. -/
def neighboursFrom (q : α) : Option α → List α → List (Option α × Option α)
  | _, [] => []
  | prev, c :: cs =>
    if c = q then (prev, cs.head?) :: neighboursFrom q (some c) cs
    else neighboursFrom q (some c) cs

def neighbours (q : α) (s : List α) : List (Option α × Option α) := neighboursFrom q none s

/-- The positions of `q`, where the first one is `i`. -/
def occurrencesFrom (q : α) : ℕ → List α → List ℕ
  | _, [] => []
  | i, c :: cs => if c = q then i :: occurrencesFrom q (i + 1) cs else occurrencesFrom q (i + 1) cs

theorem mem_occurrencesFrom {i j : ℕ} :
    j ∈ occurrencesFrom q i t ↔ i ≤ j ∧ t[j - i]? = some q := by
  induction t generalizing i with
  | nil => simp [occurrencesFrom]
  | cons c t ih =>
    have hstep : i + 1 ≤ j ∧ t[j - (i + 1)]? = some q ↔
        i ≤ j ∧ i ≠ j ∧ (c :: t)[j - i]? = some q := by
      constructor
      · rintro ⟨hle, hq⟩
        refine ⟨by omega, by omega, ?_⟩
        rw [show j - i = j - (i + 1) + 1 by omega, List.getElem?_cons_succ]
        exact hq
      · rintro ⟨hle, hne, hq⟩
        refine ⟨by omega, ?_⟩
        rwa [show j - i = j - (i + 1) + 1 by omega, List.getElem?_cons_succ] at hq
    unfold occurrencesFrom
    split
    · rename_i hc
      rw [List.mem_cons, ih, hstep]
      constructor
      · rintro (rfl | ⟨hle, -, hq⟩)
        · simp [hc]
        · exact ⟨hle, hq⟩
      · rintro ⟨hle, hq⟩
        by_cases hij : j = i
        · exact .inl hij
        · exact .inr ⟨hle, fun e => hij e.symm, hq⟩
    · rename_i hc
      rw [ih, hstep]
      constructor
      · rintro ⟨hle, -, hq⟩
        exact ⟨hle, hq⟩
      · rintro ⟨hle, hq⟩
        refine ⟨hle, ?_, hq⟩
        rintro rfl
        simp [hc] at hq

theorem neighboursFrom_replicate (hq : sp ≠ q) (prev : Option α) (k : ℕ) :
    neighboursFrom q prev (List.replicate k sp ++ t) =
      neighboursFrom q (if 0 < k then some sp else prev) t := by
  induction k generalizing prev with
  | zero => simp
  | succ k ih =>
    rw [List.replicate_succ, List.cons_append, neighboursFrom, if_neg hq, ih]
    simp

theorem neighboursFrom_surround (hq : sp ≠ q) {i : ℕ} (h : s.drop i = t) :
    neighboursFrom q (lead sp f s i) (surround sp f i t) =
      (occurrencesFrom q i t).map fun j => (before sp f s j, after sp f s j) := by
  induction t generalizing i with
  | nil => rfl
  | cons c t ih =>
    have hc := getElem?_of_drop h
    have ht := drop_succ_of_drop h
    -- behind `c` and its separators
    have hrest : neighboursFrom q (some c) (List.replicate (f i) sp ++ surround sp f (i + 1) t) =
        neighboursFrom q (lead sp f s (i + 1)) (surround sp f (i + 1) t) := by
      rw [neighboursFrom_replicate hq, lead, hc]
    rw [surround, neighboursFrom_replicate hq, ← before, neighboursFrom, head?_behind h, hrest,
      ih ht, occurrencesFrom]
    split
    · rw [List.map_cons]
    · rfl

theorem neighbours_eq (hq : sp ≠ q) :
    neighbours q s = (occurrencesFrom q 0 s).map fun j => (prev? s j, s[j + 1]?) := by
  have h := neighboursFrom_surround (f := fun _ => 0) hq (s := s) (i := 0) rfl
  simpa [surround_zero, before, after, lead_zero, neighbours, prev?] using h

theorem neighbours_surround (hq : sp ≠ q) : neighbours q (surround sp f 0 s) =
    (occurrencesFrom q 0 s).map fun j => (before sp f s j, after sp f s j) :=
  neighboursFrom_surround (f := f) hq (s := s) (i := 0) rfl

/-- **The neighbours in the surrounded string**, each beside those that it had before. -/
theorem forall₂_neighbours (hq : sp ≠ q) {R : Option α × Option α → Option α × Option α → Prop} :
    List.Forall₂ R (neighbours q s) (neighbours q (surround sp f 0 s)) ↔
      ∀ i, s[i]? = some q → R (prev? s i, s[i + 1]?) (before sp f s i, after sp f s i) := by
  rw [neighbours_eq hq, neighbours_surround hq, List.forall₂_map_left_iff,
    List.forall₂_map_right_iff, List.forall₂_same]
  simp only [mem_occurrencesFrom, Nat.zero_le, true_and, Nat.sub_zero]

/-- What follows a `q` in the surrounded string follows one of the string. -/
theorem exists_after (hq : sp ≠ q) {j : ℕ} (h : (surround sp f 0 s)[j]? = some q) :
    ∃ i, s[i]? = some q ∧ (surround sp f 0 s)[j + 1]? = after sp f s i := by
  have hmem : (prev? (surround sp f 0 s) j, (surround sp f 0 s)[j + 1]?) ∈
      neighbours q (surround sp f 0 s) := by
    rw [neighbours_eq hq]
    exact List.mem_map_of_mem (mem_occurrencesFrom.mpr ⟨Nat.zero_le j, h⟩)
  rw [neighbours_surround hq] at hmem
  obtain ⟨i, hi, he⟩ := List.mem_map.mp hmem
  exact ⟨i, (mem_occurrencesFrom.mp hi).2, (congrArg Prod.snd he).symm⟩

end Neighbours

/-! ## Walks -/

theorem toNat_pos {b : Bool} : 0 < b.toNat ↔ b = true := by
  cases b <;> simp

/-- A walk that puts a separator on each side of the characters that pass a test, which looks at
the character and its two neighbours. -/
def surroundWhere (sp : α) (test : Option α → α → Option α → Bool) : Option α → List α → List α
  | _, [] => []
  | prev, c :: cs =>
    if test prev c cs.head? then sp :: c :: sp :: surroundWhere sp test (some c) cs
    else c :: surroundWhere sp test (some c) cs

section Walk

variable {sp : α} {test : Option α → α → Option α → Bool} {f g : ℕ → ℕ} {s t : List α}

theorem surround_eq_surroundWhere
    (h : ∀ i c, s[i]? = some c → f i = (test (prev? s i) c s[i + 1]?).toNat) {i : ℕ}
    (hi : s.drop i = t) : surround sp f i t = surroundWhere sp test (prev? s i) t := by
  induction t generalizing i with
  | nil => rfl
  | cons c t ih =>
    have hc := getElem?_of_drop hi
    have ht := drop_succ_of_drop hi
    have hnext := getElem?_succ_of_drop hi
    have hprev : prev? s (i + 1) = some c := hc
    rw [surround, surroundWhere, ih ht, h i c hc, hnext, hprev]
    split
    · rename_i hp
      simp [hp]
    · rename_i hp
      simp [hp]

theorem surroundWhere_replicate (hsp : ∀ p n, test p sp n = false) (prev : Option α) (k : ℕ) :
    surroundWhere sp test prev (List.replicate k sp ++ t) =
      List.replicate k sp ++ surroundWhere sp test (if 0 < k then some sp else prev) t := by
  induction k generalizing prev with
  | zero => simp
  | succ k ih =>
    rw [List.replicate_succ, List.cons_append, surroundWhere, hsp, ih]
    simp

/-- **A walk over a surrounded string** surrounds more: its test sees the separators. -/
theorem surroundWhere_surround (hsp : ∀ p n, test p sp n = false)
    (h : ∀ i c, s[i]? = some c →
      g i = f i + (test (before sp f s i) c (after sp f s i)).toNat) {i : ℕ} (hi : s.drop i = t) :
    surroundWhere sp test (lead sp f s i) (surround sp f i t) = surround sp g i t := by
  induction t generalizing i with
  | nil => rfl
  | cons c t ih =>
    have hc := getElem?_of_drop hi
    have ht := drop_succ_of_drop hi
    have hrest : surroundWhere sp test (some c)
        (List.replicate (f i) sp ++ surround sp f (i + 1) t) =
          List.replicate (f i) sp ++ surround sp g (i + 1) t := by
      rw [surroundWhere_replicate hsp, ← ih ht, lead, hc]
    have hshift : ∀ l, List.replicate (f i) sp ++ sp :: l = List.replicate (f i + 1) sp ++ l := by
      intro l
      rw [List.replicate_succ', List.append_assoc, List.singleton_append]
    rw [surround, surroundWhere_replicate hsp, ← before, surroundWhere, head?_behind hi, hrest,
      surround, h i c hc]
    split
    · rename_i hp
      rw [hp, Bool.toNat_true, hshift]
      simp only [List.replicate_succ, List.cons_append]
    · rename_i hp
      simp [hp]

end Walk

end PracticeCode.Lib
