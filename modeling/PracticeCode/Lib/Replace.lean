import PracticeCode.Lib.Spacing

/-!
# Replacing the matches of a pattern

A pattern is a sequence of bracket expressions, so that all its matches have one length.
`regex_replace` writes the leftmost match anew, goes on behind its end, and so on to the end of the
string: what a match has consumed is not there for the next one.

* `taken`: which of many candidates are served by going from the left and passing over those that
  are too close to the last one (`taken_iff`);
* `regex_replace_eq_surround`: a format that writes what was matched and puts a separator on each
  side of one character of it surrounds the characters that are taken;
* `regex_replace_surround`: where the matches are never close, this is a walk that looks at the
  neighbours alone, also over a string that was surrounded before.
-/

namespace PracticeCode.Lib

variable {α : Type*}

/-! ## Taking from the left -/

section Taken

variable {cand : ℕ → Bool} {w i j : ℕ}

/-- For how many positions, from `i` on, nothing is taken. -/
def wait (cand : ℕ → Bool) (w : ℕ) : ℕ → ℕ
  | 0 => 0
  | i + 1 => if cand i && wait cand w i == 0 then w else wait cand w i - 1

/-- The candidate `i` is served: none of the `w` positions before it was. -/
def taken (cand : ℕ → Bool) (w i : ℕ) : Bool := cand i && wait cand w i == 0

theorem taken_eq_true : taken cand w i = true ↔ cand i = true ∧ wait cand w i = 0 := by
  simp [taken]

theorem taken_eq_false_of_wait (h : 0 < wait cand w i) : taken cand w i = false := by
  simp [taken, Nat.ne_of_gt h]

theorem taken_eq_false_of_cand (h : cand i = false) : taken cand w i = false := by
  simp [taken, h]

theorem wait_succ : wait cand w (i + 1) = if taken cand w i then w else wait cand w i - 1 := rfl

/-- What is left of the waiting behind a position that was taken. -/
theorem wait_of_taken (h : taken cand w i = true) {m : ℕ} (hm : m ≤ w) :
    wait cand w (i + 1 + m) = w - m := by
  induction m with
  | zero => rw [Nat.add_zero, wait_succ, if_pos h, Nat.sub_zero]
  | succ m ih =>
    have hpos : 0 < wait cand w (i + 1 + m) := by
      rw [ih (by omega)]
      omega
    rw [← Nat.add_assoc, wait_succ, taken_eq_false_of_wait hpos, ih (by omega)]
    simp only [Bool.false_eq_true, if_false]
    omega

/-- Who waits, waits for a position that was taken. -/
theorem exists_taken_of_wait (h : 0 < wait cand w i) :
    ∃ j < i, taken cand w j = true ∧ i + wait cand w i = j + 1 + w := by
  induction i with
  | zero => simp [wait] at h
  | succ i ih =>
    rw [wait_succ] at h ⊢
    split at h
    · rename_i ht
      exact ⟨i, by omega, ht, by rw [if_pos ht]⟩
    · rename_i ht
      obtain ⟨j, hj, hjt, he⟩ := ih (by omega)
      exact ⟨j, by omega, hjt, by rw [if_neg ht]; omega⟩

/-- **Who is served**: a candidate none of whose last `w` positions was. -/
theorem taken_iff : taken cand w i = true ↔
    cand i = true ∧ ∀ j < i, i ≤ j + w → taken cand w j = false := by
  rw [taken_eq_true]
  refine and_congr_right fun _ => ⟨fun h0 j hj hw => ?_, fun h => ?_⟩
  · by_contra ht
    have hwait := wait_of_taken (eq_true_of_ne_false ht) (m := i - (j + 1)) (by omega)
    rw [show j + 1 + (i - (j + 1)) = i by omega] at hwait
    omega
  · by_contra h0
    obtain ⟨j, hj, ht, he⟩ := exists_taken_of_wait (Nat.pos_of_ne_zero h0)
    rw [h j hj (by omega)] at ht
    cases ht

/-- Candidates that are never close are all served. -/
theorem taken_of_apart (h : ∀ i j, j < i → i ≤ j + w → cand j = true → cand i = false) :
    taken cand w i = cand i := by
  rw [Bool.eq_iff_iff, taken_iff]
  refine and_iff_left_of_imp fun hi j hj hw => taken_eq_false_of_cand ?_
  by_contra hc
  rw [h i j hj hw (eq_true_of_ne_false hc)] at hi
  cases hi

end Taken

/-! ## Patterns -/

/-- `[chars]` or `[^chars]`. -/
inductive Bracket (α : Type*) where
  | oneOf (chars : List α)
  | noneOf (chars : List α)

def Bracket.accepts [DecidableEq α] : Bracket α → α → Bool
  | .oneOf chars, c => decide (c ∈ chars)
  | .noneOf chars, c => decide (c ∉ chars)

structure Atom (α : Type*) where
  bracket : Bracket α
  /-- It stands in parentheses. -/
  group : Bool

structure Pattern (α : Type*) where
  atoms : List (Atom α)
  ne_nil : atoms ≠ []

def Pattern.length (p : Pattern α) : ℕ := p.atoms.length

theorem Pattern.length_pos (p : Pattern α) : 0 < p.length := List.length_pos_iff.mpr p.ne_nil

/-- A part of a format: a character, or `$n`. -/
inductive Piece (α : Type*) where
  | lit (c : α)
  | group (n : ℕ)

def expand (fmt : List (Piece α)) (groups : List α) : List α :=
  fmt.flatMap fun piece => match piece with
    | .lit c => [c]
    | .group n => groups[n - 1]?.toList

section Replace

variable [DecidableEq α]

/-- The groups of a match at the start of the string. -/
def captures : List (Atom α) → List α → Option (List α)
  | [], _ => some []
  | _ :: _, [] => none
  | a :: as, c :: cs =>
    if a.bracket.accepts c then
      (captures as cs).map fun groups => if a.group then c :: groups else groups
    else none

/-- The first `skip` characters belong to a match that was written. -/
def replaceFrom (p : Pattern α) (fmt : List (Piece α)) : ℕ → List α → List α
  | _, [] => []
  | skip + 1, _ :: cs => replaceFrom p fmt skip cs
  | 0, c :: cs => match captures p.atoms (c :: cs) with
    | some groups => expand fmt groups ++ replaceFrom p fmt (p.length - 1) cs
    | none => c :: replaceFrom p fmt 0 cs

def regex_replace (s : List α) (p : Pattern α) (fmt : List (Piece α)) : List α :=
  replaceFrom p fmt 0 s

variable {p : Pattern α} {fmt : List (Piece α)} {s t groups : List α} {as : List (Atom α)}
  {a : Atom α} {sp : α} {l : ℕ}

theorem replaceFrom_drop (skip : ℕ) (s : List α) :
    replaceFrom p fmt skip s = regex_replace (s.drop skip) p fmt := by
  induction s generalizing skip with
  | nil => cases skip <;> rfl
  | cons c s ih =>
    cases skip with
    | zero => rfl
    | succ skip => exact ih skip

theorem captures_nil : captures p.atoms [] = none := by
  obtain ⟨a, as, h⟩ := List.exists_cons_of_ne_nil p.ne_nil
  rw [h, captures]

theorem length_of_captures (h : captures as t = some groups) : as.length ≤ t.length := by
  induction as, t using captures.induct generalizing groups with
  | case1 t => simp
  | case2 a as => cases h
  | case3 a as c cs ha ih =>
    rw [captures, if_pos ha, Option.map_eq_some_iff] at h
    obtain ⟨groups', h', -⟩ := h
    exact Nat.succ_le_succ (ih h')
  | case4 a as c cs ha =>
    rw [captures, if_neg ha] at h
    cases h

theorem isSome_captures_cons : (captures (a :: as) t).isSome =
    (t.head?.any a.bracket.accepts && (captures as t.tail).isSome) := by
  cases t with
  | nil => rfl
  | cons c cs =>
    rw [captures]
    split
    · rename_i ha
      simp [ha]
    · rename_i ha
      simp [ha]

theorem regex_replace_of_match (h : captures p.atoms s = some groups) :
    regex_replace s p fmt = expand fmt groups ++ regex_replace (s.drop p.length) p fmt := by
  cases s with
  | nil =>
    rw [captures_nil] at h
    cases h
  | cons c s =>
    obtain ⟨n, hn⟩ := Nat.exists_eq_add_of_le' p.length_pos
    rw [regex_replace, replaceFrom, h]
    simp only [replaceFrom_drop, hn, Nat.add_sub_cancel, List.drop_succ_cons]

theorem regex_replace_of_noMatch {c : α} (h : captures p.atoms (c :: s) = none) :
    regex_replace (c :: s) p fmt = c :: regex_replace s p fmt := by
  rw [regex_replace, replaceFrom, h]
  rfl

/-! ## Formats that put separators -/

/-- What is written is what was matched, with a separator on each side of the character `l`. -/
structure Pads (p : Pattern α) (fmt : List (Piece α)) (sp : α) (l : ℕ) : Prop where
  lt : l < p.length
  expand : ∀ {t groups}, captures p.atoms t = some groups →
    Lib.expand fmt groups = surround sp (fun i => if i = l then 1 else 0) 0 (t.take p.length)

/-- A match of the pattern has its character `l` at position `i`. -/
def hit (p : Pattern α) (l : ℕ) (s : List α) (i : ℕ) : Bool :=
  decide (l ≤ i) && (captures p.atoms (s.drop (i - l))).isSome

theorem hit_add (i : ℕ) : hit p l s (i + l) = (captures p.atoms (s.drop i)).isSome := by
  simp [hit]

/-- The number of separators on each side of position `i`. -/
def padding (p : Pattern α) (l : ℕ) (s : List α) (i : ℕ) : ℕ :=
  (taken (hit p l s) (p.length - 1) i).toNat

theorem taken_hit_of_lt {i : ℕ} (h : i < l) : taken (hit p l s) (p.length - 1) i = false := by
  apply taken_eq_false_of_cand
  simp [hit, Nat.not_le.mpr h]

/-- Nothing is taken up to the end of a match and `l` characters further. -/
theorem not_taken_behind {i i' : ℕ} (h : taken (hit p l s) (p.length - 1) i = true) (hlt : i < i')
    (hle : i' < i + p.length) : taken (hit p l s) (p.length - 1) i' = false := by
  apply taken_eq_false_of_wait
  have := wait_of_taken h (m := i' - (i + 1)) (by omega)
  rw [show i + 1 + (i' - (i + 1)) = i' by omega] at this
  omega

theorem wait_behind {i : ℕ} (h : taken (hit p l s) (p.length - 1) i = true) :
    wait (hit p l s) (p.length - 1) (i + p.length) = 0 := by
  have hpos := p.length_pos
  have := wait_of_taken h (m := p.length - 1) (Nat.le_refl _)
  rwa [show i + 1 + (p.length - 1) = i + p.length by omega, Nat.sub_self] at this

/-- What the format writes for the match at `j`. -/
theorem surround_match (h : Pads p fmt sp l) {j : ℕ}
    (hc : captures p.atoms (s.drop j) = some groups)
    (hfree : ∀ i, j ≤ i → i < j + l → taken (hit p l s) (p.length - 1) i = false)
    (ht : taken (hit p l s) (p.length - 1) (j + l) = true) :
    surround sp (padding p l s) j ((s.drop j).take p.length) = expand fmt groups := by
  rw [h.expand hc]
  apply surround_congr
  intro m hm
  rw [List.length_take] at hm
  rw [Nat.zero_add, padding]
  split
  · rename_i he
    rw [he, ht]
    rfl
  · rename_i hne
    rcases Nat.lt_or_gt_of_ne hne with hlt | hgt
    · rw [hfree (j + m) (by omega) (by omega)]
      rfl
    · rw [not_taken_behind ht (by omega) (by omega)]
      rfl

/-- The search stands at `j`, and nothing is taken that would need a character in front of it. -/
theorem regex_replace_drop (h : Pads p fmt sp l) {j : ℕ}
    (hfree : ∀ i, j ≤ i → i < j + l → taken (hit p l s) (p.length - 1) i = false)
    (hwait : wait (hit p l s) (p.length - 1) (j + l) = 0) :
    regex_replace (s.drop j) p fmt = surround sp (padding p l s) j (s.drop j) := by
  have hl := h.lt
  have hpos := p.length_pos
  induction hn : s.length - j using Nat.strongRecOn generalizing j with
  | _ n ih =>
  subst hn
  cases hc : captures p.atoms (s.drop j) with
  | some groups =>
    have hlen : p.length ≤ (s.drop j).length := length_of_captures hc
    rw [List.length_drop] at hlen
    have ht : taken (hit p l s) (p.length - 1) (j + l) = true := by
      rw [taken_eq_true, hit_add, hc]
      exact ⟨rfl, hwait⟩
    have hrest : regex_replace (s.drop (j + p.length)) p fmt =
        surround sp (padding p l s) (j + p.length) (s.drop (j + p.length)) := by
      refine ih (s.length - (j + p.length)) (by omega) (fun i hi hlt => ?_) ?_ rfl
      · exact not_taken_behind ht (by omega) (by omega)
      · rw [Nat.add_right_comm]
        exact wait_behind ht
    have hsplit : s.drop j = (s.drop j).take p.length ++ s.drop (j + p.length) := by
      rw [← List.drop_drop, List.take_append_drop]
    have htake : ((s.drop j).take p.length).length = p.length := by
      rw [List.length_take, List.length_drop]
      omega
    rw [regex_replace_of_match hc, List.drop_drop, hrest, ← surround_match h hc hfree ht]
    conv_rhs => rw [hsplit, surround_append, htake]
  | none =>
    have hnot : taken (hit p l s) (p.length - 1) (j + l) = false := by
      apply taken_eq_false_of_cand
      rw [hit_add, hc]
      rfl
    cases hs : s.drop j with
    | nil => rfl
    | cons c cs =>
      have hlt : j < s.length := by
        by_contra hge
        rw [List.drop_eq_nil_of_le (by omega)] at hs
        cases hs
      have hcs := drop_succ_of_drop hs
      have hj : taken (hit p l s) (p.length - 1) j = false := by
        rcases Nat.eq_zero_or_pos l with rfl | hl0
        · exact hnot
        · exact hfree j (Nat.le_refl _) (by omega)
      have hrest : regex_replace cs p fmt = surround sp (padding p l s) (j + 1) cs := by
        rw [← hcs]
        refine ih (s.length - (j + 1)) (by omega) (fun i hi hlt => ?_) ?_ rfl
        · by_cases he : i = j + l
          · rw [he, hnot]
          · exact hfree i (by omega) (by omega)
        · rw [Nat.add_right_comm, wait_succ, hnot, hwait]
          rfl
      rw [hs] at hc
      rw [regex_replace_of_noMatch hc, hrest, surround, padding, hj]
      rfl

/-- **A replacement that surrounds** the characters that are taken. -/
theorem regex_replace_eq_surround (h : Pads p fmt sp l) :
    regex_replace s p fmt = surround sp (padding p l s) 0 s := by
  refine regex_replace_drop h (j := 0) (fun i _ hi => taken_hit_of_lt (by omega)) ?_
  by_contra hw
  obtain ⟨j, hj, ht, -⟩ := exists_taken_of_wait (Nat.pos_of_ne_zero hw)
  rw [taken_hit_of_lt (by omega)] at ht
  cases ht

/-- Matches that are never close: the replacement is a walk that looks at the neighbours. -/
theorem regex_replace_eq_walk (h : Pads p fmt sp l) (test : Option α → α → Option α → Bool)
    (htest : ∀ i c, s[i]? = some c → hit p l s i = test (prev? s i) c s[i + 1]?)
    (hapart : ∀ i j, j < i → i ≤ j + (p.length - 1) → hit p l s j = true → hit p l s i = false) :
    regex_replace s p fmt = surroundWhere sp test none s := by
  rw [regex_replace_eq_surround h]
  refine surround_eq_surroundWhere (fun i c hc => ?_) rfl
  rw [padding, taken_of_apart hapart, htest i c hc]

/-- **A replacement in a surrounded string** surrounds more. -/
theorem regex_replace_surround (h : Pads p fmt sp l) (test : Option α → α → Option α → Bool)
    (htest : ∀ t i c, t[i]? = some c → hit p l t i = test (prev? t i) c t[i + 1]?)
    (hsp : ∀ x y, test x sp y = false) {f g : ℕ → ℕ}
    (hapart : ∀ i j, j < i → i ≤ j + (p.length - 1) → hit p l (surround sp f 0 s) j = true →
      hit p l (surround sp f 0 s) i = false)
    (hg : ∀ i c, s[i]? = some c →
      g i = f i + (test (before sp f s i) c (after sp f s i)).toNat) :
    regex_replace (surround sp f 0 s) p fmt = surround sp g 0 s := by
  rw [regex_replace_eq_walk h test (htest _) hapart]
  exact surroundWhere_surround (i := 0) hsp hg rfl

/-! ## A character between, behind or in front of a bracket expression -/

omit [DecidableEq α]

/-- `(L)[q](R)` -/
def Pattern.between (L : Bracket α) (q : α) (R : Bracket α) : Pattern α where
  atoms := [⟨L, true⟩, ⟨.oneOf [q], false⟩, ⟨R, true⟩]
  ne_nil := by simp

/-- `(L)[q]` -/
def Pattern.behind (L : Bracket α) (q : α) : Pattern α where
  atoms := [⟨L, true⟩, ⟨.oneOf [q], false⟩]
  ne_nil := by simp

/-- `[q](R)` -/
def Pattern.ahead (q : α) (R : Bracket α) : Pattern α where
  atoms := [⟨.oneOf [q], false⟩, ⟨R, true⟩]
  ne_nil := by simp

@[simp] theorem atoms_between (L R : Bracket α) (q : α) :
    (Pattern.between L q R).atoms = [⟨L, true⟩, ⟨.oneOf [q], false⟩, ⟨R, true⟩] := rfl

@[simp] theorem atoms_behind (L : Bracket α) (q : α) :
    (Pattern.behind L q).atoms = [⟨L, true⟩, ⟨.oneOf [q], false⟩] := rfl

@[simp] theorem atoms_ahead (R : Bracket α) (q : α) :
    (Pattern.ahead q R).atoms = [⟨.oneOf [q], false⟩, ⟨R, true⟩] := rfl

section Shapes

variable [DecidableEq α]

variable {L R : Bracket α} {q : α}

theorem any_eq {o : Option α} : o.any (fun c => decide (c = q)) = true ↔ o = some q := by
  cases o <;> simp

theorem accepts_oneOf : (Bracket.oneOf [q]).accepts = fun c => decide (c = q) := by
  funext c
  simp [Bracket.accepts]

theorem pads_behind :
    Pads (.behind L q) [.group 1, .lit sp, .lit q, .lit sp] sp 1 where
  lt := by simp [Pattern.length]
  expand {t groups} h := by
    match t with
    | [] => cases h
    | [x] => simp [captures] at h
    | x :: y :: t =>
      obtain ⟨-, rfl, rfl⟩ : L.accepts x = true ∧ y = q ∧ [x] = groups := by
        simpa [captures, accepts_oneOf] using h
      rfl

theorem pads_ahead :
    Pads (.ahead q R) [.lit sp, .lit q, .lit sp, .group 1] sp 0 where
  lt := by simp [Pattern.length]
  expand {t groups} h := by
    match t with
    | [] => cases h
    | [x] => simp [captures] at h
    | x :: y :: t =>
      obtain ⟨rfl, -, rfl⟩ : x = q ∧ R.accepts y = true ∧ [y] = groups := by
        simpa [captures, accepts_oneOf] using h
      rfl

theorem pads_between :
    Pads (.between L q R) [.group 1, .lit sp, .lit q, .lit sp, .group 2] sp 1 where
  lt := by simp [Pattern.length]
  expand {t groups} h := by
    match t with
    | [] => cases h
    | [x] | [x, y] => simp [captures] at h
    | x :: y :: z :: t =>
      obtain ⟨-, rfl, -, rfl⟩ :
          L.accepts x = true ∧ y = q ∧ R.accepts z = true ∧ [x, z] = groups := by
        simpa [captures, accepts_oneOf, and_assoc] using h
      rfl

theorem hit_behind (i : ℕ) : hit (.behind L q) 1 s i =
    ((prev? s i).any L.accepts && s[i]?.any (· = q)) := by
  cases i with
  | zero => rfl
  | succ i =>
    rw [hit_add, atoms_behind, isSome_captures_cons, isSome_captures_cons]
    simp [captures, prev?, accepts_oneOf]

theorem hit_ahead (i : ℕ) : hit (.ahead q R) 0 s i =
    (s[i]?.any (· = q) && s[i + 1]?.any R.accepts) := by
  rw [← Nat.add_zero i, hit_add, atoms_ahead, isSome_captures_cons, isSome_captures_cons]
  simp [captures, accepts_oneOf]

theorem hit_between (i : ℕ) : hit (.between L q R) 1 s i =
    ((prev? s i).any L.accepts && s[i]?.any (· = q) && s[i + 1]?.any R.accepts) := by
  cases i with
  | zero => rfl
  | succ i =>
    rw [hit_add, atoms_between, isSome_captures_cons, isSome_captures_cons, isSome_captures_cons]
    simp [captures, prev?, accepts_oneOf, Bool.and_assoc]

/-- Where no character can end one match and begin the next, the matches are never close. -/
theorem hit_between_apart (hq : L.accepts q = false ∨ R.accepts q = false)
    (hex : ∀ c, R.accepts c = true → L.accepts c = false) {i j : ℕ} (hlt : j < i) (hle : i ≤ j + 2)
    (hj : hit (.between L q R) 1 s j = true) : hit (.between L q R) 1 s i = false := by
  by_contra hi
  have hi := eq_true_of_ne_false hi
  rw [hit_between, Bool.and_eq_true, Bool.and_eq_true, any_eq] at hi hj
  obtain ⟨⟨hLi, hqi⟩, -⟩ := hi
  obtain ⟨⟨-, hqj⟩, hRj⟩ := hj
  rcases (by omega : i = j + 1 ∨ i = j + 2) with rfl | rfl
  · rw [prev?, hqj, Option.any_some] at hLi
    rw [hqi, Option.any_some] at hRj
    rcases hq with h | h
    · rw [h] at hLi
      cases hLi
    · rw [h] at hRj
      cases hRj
  · rw [prev?] at hLi
    obtain ⟨c, hc⟩ : ∃ c, s[j + 1]? = some c := by
      cases hc : s[j + 1]? with
      | none => simp [hc] at hRj
      | some c => exact ⟨c, rfl⟩
    rw [hc, Option.any_some] at hLi hRj
    rw [hex c hRj] at hLi
    cases hLi

/-- **A replacement between two classes**, over a string where some `q` are surrounded: it surrounds
those that match in the string, if the classes take the separator for a `q`. -/
theorem regex_replace_between (hq : L.accepts q = false ∨ R.accepts q = false)
    (hex : ∀ c, R.accepts c = true → L.accepts c = false) (hL : L.accepts q = L.accepts sp)
    (hR : R.accepts q = R.accepts sp) (hsp : sp ≠ q) {f : ℕ → ℕ}
    (hf : ∀ i, 0 < f i → s[i]? = some q)
    (hdone : ∀ i, 0 < f i → hit (.between L q R) 1 s i = false) :
    regex_replace (surround sp f 0 s) (.between L q R)
        [.group 1, .lit sp, .lit q, .lit sp, .group 2] =
      surround sp (fun i => f i + (hit (.between L q R) 1 s i).toNat) 0 s := by
  refine regex_replace_surround pads_between
    (fun x c y => x.any L.accepts && decide (c = q) && y.any R.accepts)
    (fun t i c hc => by rw [hit_between, hc, Option.any_some]) (fun x y => by simp [hsp])
    (fun i j hlt hle => hit_between_apart hq hex hlt hle) (fun i c hc => ?_)
  congr 2
  rcases Nat.eq_zero_or_pos (f i) with h0 | hpos
  · have hLf : ∀ i, 0 < f i → s[i]?.any L.accepts = L.accepts sp := fun i hi => by
      rw [hf i hi, Option.any_some, hL]
    have hRf : ∀ i, 0 < f i → s[i]?.any R.accepts = R.accepts sp := fun i hi => by
      rw [hf i hi, Option.any_some, hR]
    rw [any_before hLf h0, any_after hRf h0, hit_between, hc, Option.any_some]
  · -- what is surrounded does not match again
    rw [hdone i hpos, before, after, if_pos hpos, if_pos hpos, Option.any_some, Option.any_some,
      ← hL, ← hR]
    rcases hq with h | h <;> simp [h]

end Shapes

end Replace

end PracticeCode.Lib
