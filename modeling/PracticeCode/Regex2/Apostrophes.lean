import PracticeCode.Regex2.Commas
import PracticeCode.Lib.Cursor

/-!
# The apostrophes of `test3`

The patterns consume the characters on both sides of an apostrophe.  `r_apostrophe2` and
`r_apostrophe3` want a letter on one side and none on the other, so that their matches never meet.
`r_apostrophe1` wants no letter on either side, and an apostrophe that is one or two characters
behind one that was matched is passed over.  What is left of it are the spaces that are there
anyway, and those of the apostrophes next to it.

`apostrophes_iff`: the apostrophes are spaced exactly if no chain of them ends in such a place.
-/

namespace PracticeCode.Regex2

open Lib

def letter (c : Option WChar) : Bool := c.any fun x => decide (x ∈ IsAlpha)

/-- An apostrophe between two characters that are no letters. -/
def Inner (s : WString) (i : ℕ) : Prop :=
  s[i]? = some apostrophe ∧ outside IsAlpha (prev? s i) = true ∧ outside IsAlpha s[i + 1]? = true

section Apostrophes

variable {s : WString} {i k : ℕ}

/-! ## Letters -/

theorem outside_apostrophe : outside IsAlpha (some apostrophe) = true :=
  outside_some.mpr not_mem_IsAlpha.1

theorem outside_space' : outside IsAlpha (some space) = true :=
  outside_some.mpr not_mem_IsAlpha.2.1

theorem letter_eq {c : Option WChar} (h : c.isSome) : letter c = !outside IsAlpha c := by
  obtain ⟨x, rfl⟩ := Option.isSome_iff_exists.mp h
  simp [letter, outside]

theorem isSome_of_outside {cs : WString} {c : Option WChar} (h : outside cs c = true) :
    c.isSome := by
  cases c with
  | none => cases h
  | some x => rfl

theorem isSome_of_letter {c : Option WChar} (h : letter c = true) : c.isSome := by
  cases c with
  | none => cases h
  | some x => rfl

theorem not_letter {c : Option WChar} (h : outside IsAlpha c = true) : ¬ letter c = true := by
  intro hl
  rw [letter_eq (isSome_of_letter hl), h] at hl
  cases hl

/-! ## The three passes -/

theorem between_iff {x y : Bool} {c : Option WChar} {q : WChar} :
    (x && c.any (fun c => decide (c = q)) && y) = true ↔ c = some q ∧ x = true ∧ y = true := by
  rw [Bool.and_eq_true, Bool.and_eq_true, any_eq, and_assoc, and_left_comm]

theorem hit_apostrophe1 : hit r_apostrophe1 1 s i = true ↔ Inner s i := by
  have h : hit r_apostrophe1 1 s i = (outside IsAlpha (prev? s i) &&
    s[i]?.any (fun c => decide (c = apostrophe)) && outside IsAlpha s[i + 1]?) := hit_between i
  rw [h, between_iff, Inner]

theorem hit_apostrophe2 : hit r_apostrophe2 1 s i = true ↔
    s[i]? = some apostrophe ∧ outside IsAlpha (prev? s i) = true ∧ letter s[i + 1]? = true := by
  have h : hit r_apostrophe2 1 s i = (outside IsAlpha (prev? s i) &&
    s[i]?.any (fun c => decide (c = apostrophe)) && letter s[i + 1]?) := hit_between i
  rw [h, between_iff]

theorem hit_apostrophe3 : hit r_apostrophe3 1 s i = true ↔
    s[i]? = some apostrophe ∧ letter (prev? s i) = true ∧ outside IsAlpha s[i + 1]? = true := by
  have h : hit r_apostrophe3 1 s i = (letter (prev? s i) &&
    s[i]?.any (fun c => decide (c = apostrophe)) && outside IsAlpha s[i + 1]?) := hit_between i
  rw [h, between_iff]

/-- The first pass matches the apostrophe `i`. -/
def apostrophe1 (s : WString) (i : ℕ) : Bool := taken (hit r_apostrophe1 1 s) 2 i

theorem apostrophe1_iff : apostrophe1 s i = true ↔
    Inner s i ∧ ∀ j < i, i ≤ j + 2 → apostrophe1 s j = false := by
  rw [apostrophe1, taken_iff, hit_apostrophe1]
  rfl

/-- How many spaces the first two passes put on each side of position `i`. -/
def apostrophePads2 (s : WString) (i : ℕ) : ℕ :=
  (apostrophe1 s i).toNat + (hit r_apostrophe2 1 s i).toNat

/-- How many all three put. -/
def apostrophePads (s : WString) (i : ℕ) : ℕ :=
  apostrophePads2 s i + (hit r_apostrophe3 1 s i).toNat

theorem inner_of_pos (h : 0 < (apostrophe1 s i).toNat) : Inner s i :=
  (apostrophe1_iff.mp (toNat_pos.mp h)).1

theorem apostrophePads2_pos : 0 < apostrophePads2 s i ↔
    apostrophe1 s i = true ∨ hit r_apostrophe2 1 s i = true := by
  rw [apostrophePads2, Nat.add_pos_iff_pos_or_pos, toNat_pos, toNat_pos]

/-- The first two passes serve apostrophes behind other characters than letters. -/
theorem outside_of_pos (h : 0 < apostrophePads2 s i) :
    s[i]? = some apostrophe ∧ outside IsAlpha (prev? s i) = true := by
  rcases apostrophePads2_pos.mp h with h | h
  · have := (apostrophe1_iff.mp h).1
    exact ⟨this.1, this.2.1⟩
  · have := hit_apostrophe2.mp h
    exact ⟨this.1, this.2.1⟩

theorem not_accepts_letters :
    (Bracket.oneOf IsAlpha).accepts apostrophe = false ∧
      (Bracket.oneOf IsAlpha).accepts space = false :=
  ⟨decide_eq_false not_mem_IsAlpha.1, decide_eq_false not_mem_IsAlpha.2.1⟩

theorem accepts_others :
    (Bracket.noneOf IsAlpha).accepts apostrophe = true ∧
      (Bracket.noneOf IsAlpha).accepts space = true :=
  ⟨decide_eq_true not_mem_IsAlpha.1, decide_eq_true not_mem_IsAlpha.2.1⟩

theorem pass1 (s : WString) : regex_replace s r_apostrophe1 apostropheFormat =
    surround space (fun i => (apostrophe1 s i).toNat) 0 s :=
  regex_replace_eq_surround pads_between

theorem pass2 (s : WString) :
    regex_replace (surround space (fun i => (apostrophe1 s i).toNat) 0 s) r_apostrophe2
      apostropheFormat = surround space (apostrophePads2 s) 0 s := by
  obtain ⟨hq, hsp⟩ := not_accepts_letters
  obtain ⟨hq', hsp'⟩ := accepts_others
  refine regex_replace_between (.inr hq) (fun c => ?_) (hq'.trans hsp'.symm) (hq.trans hsp.symm)
    (by decide) (fun i hi => (inner_of_pos hi).1) (fun i hi => ?_)
  · simp [Bracket.accepts]
  · by_contra hc
    have hletter := (hit_apostrophe2.mp (eq_true_of_ne_false hc)).2.2
    exact not_letter (inner_of_pos hi).2.2 hletter

theorem pass3 (s : WString) :
    regex_replace (surround space (apostrophePads2 s) 0 s) r_apostrophe3 apostropheFormat =
      surround space (apostrophePads s) 0 s := by
  obtain ⟨hq, hsp⟩ := not_accepts_letters
  obtain ⟨hq', hsp'⟩ := accepts_others
  refine regex_replace_between (.inl hq) (fun c => ?_) (hq.trans hsp.symm) (hq'.trans hsp'.symm)
    (by decide) (fun i hi => (outside_of_pos hi).1) (fun i hi => ?_)
  · simp [Bracket.accepts]
  · by_contra hc
    have hletter := (hit_apostrophe3.mp (eq_true_of_ne_false hc)).2.1
    exact not_letter (outside_of_pos hi).2 hletter

theorem test3_eq (s : WString) : test3 s = surround space (apostrophePads s) 0 s := by
  rw [test3, pass1, pass2, pass3]

/-- **Only spaces are put in.** -/
theorem filter_test3 (s : WString) : (test3 s).filter (· ≠ space) = s.filter (· ≠ space) := by
  rw [test3_eq]
  exact filter_surround 0 s

/-! ## Which apostrophes get their spaces -/

theorem apostrophePads_pos : 0 < apostrophePads s i ↔ s[i]? = some apostrophe ∧
    (apostrophe1 s i = true ∨ (outside IsAlpha (prev? s i) = true ∧ letter s[i + 1]? = true) ∨
      (letter (prev? s i) = true ∧ outside IsAlpha s[i + 1]? = true)) := by
  rw [apostrophePads, Nat.add_pos_iff_pos_or_pos, apostrophePads2_pos, toNat_pos, hit_apostrophe2,
    hit_apostrophe3]
  have h1 : apostrophe1 s i = true → s[i]? = some apostrophe := fun h => (apostrophe1_iff.mp h).1.1
  tauto

/-- An apostrophe that needs spaces and gets none itself was passed over by the first pass. -/
theorem inner_of_zero (hi : s[i]? = some apostrophe) (hprev : (prev? s i).isSome)
    (hnext : s[i + 1]?.isSome)
    (hout : outside IsAlpha (prev? s i) = true ∨ outside IsAlpha s[i + 1]? = true)
    (h0 : ¬ 0 < apostrophePads s i) : Inner s i ∧ apostrophe1 s i = false := by
  rw [apostrophePads_pos] at h0
  have h1 : apostrophe1 s i = false := by
    by_contra h
    exact h0 ⟨hi, .inl (eq_true_of_ne_false h)⟩
  have hp : outside IsAlpha (prev? s i) = true := by
    by_contra hp
    have hl : letter (prev? s i) = true := by
      rw [letter_eq hprev, eq_false_of_ne_true hp]
      rfl
    exact h0 ⟨hi, .inr (.inr ⟨hl, hout.resolve_left hp⟩)⟩
  have hn : outside IsAlpha s[i + 1]? = true := by
    by_contra hn
    have hl : letter s[i + 1]? = true := by
      rw [letter_eq hnext, eq_false_of_ne_true hn]
      rfl
    exact h0 ⟨hi, .inr (.inl ⟨hp, hl⟩)⟩
  exact ⟨⟨hi, hp, hn⟩, h1⟩

/-- There are spaces on both sides, of the string or of the neighbours. -/
def Rescued (s : WString) (i : ℕ) : Prop :=
  (∃ j, i = j + 1 ∧ (0 < apostrophePads s j ∨ s[j]? = some space)) ∧
    (0 < apostrophePads s (i + 1) ∨ s[i + 1]? = some space)

theorem spaced_apostrophe : before space (apostrophePads s) s i = some space ∧
    after space (apostrophePads s) s i = some space ↔ 0 < apostrophePads s i ∨ Rescued s i := by
  have hf : 0 < apostrophePads s (i + 1) → s[i + 1]? ≠ none := fun h => by
    rw [(apostrophePads_pos.mp h).1]
    simp
  rw [before_eq_iff, after_eq_iff hf, Rescued]
  exact or_and_left.symm

theorem apostrophesSpaced_iff_rescued : ApostrophesSpaced s ↔
    ∀ i, Inner s i → apostrophe1 s i = false → Rescued s i := by
  rw [ApostrophesSpaced, Spaced, test3_eq, forall₂_neighbours (by decide)]
  simp only [Prod.mk.injEq, spaced_apostrophe]
  constructor
  · intro h i hi hnot
    have hneed := h i hi.1 ⟨isSome_of_outside hi.2.1, isSome_of_outside hi.2.2, .inl hi.2.1⟩
    refine hneed.resolve_left fun hpos => ?_
    -- the other passes want a letter
    rcases (apostrophePads_pos.mp hpos).2 with h1 | ⟨-, hl⟩ | ⟨hl, -⟩
    · rw [hnot] at h1
      cases h1
    · exact absurd hl (not_letter hi.2.2)
    · exact absurd hl (not_letter hi.2.1)
  · rintro h i hi ⟨hprev, hnext, hout⟩
    by_cases hpos : 0 < apostrophePads s i
    · exact .inl hpos
    · obtain ⟨hin, hnot⟩ := inner_of_zero hi hprev hnext hout hpos
      exact .inr (h i hin hnot)

/-! ## What a match leaves behind -/

/-- Behind the apostrophe `k` stands `'x`, or `y'z` with a `y` that is no apostrophe, where `x`, `y`
and `z` are no letters, and the apostrophe between them has no space on one side.  It has one if
that is what stands there; or if an apostrophe follows that gets its spaces: one before a letter
behind `'`, one that is not the last character behind ` '`. -/
def Stuck (s : WString) (k : ℕ) : Prop :=
  (s[k + 1]? = some apostrophe ∧ outside IsAlpha s[k + 2]? = true ∧
    ¬ (s[k + 2]? = some space ∨ s[k + 2]? = some apostrophe ∧ letter s[k + 3]? = true)) ∨
  (s[k + 1]? ≠ some apostrophe ∧ outside IsAlpha s[k + 1]? = true ∧ s[k + 2]? = some apostrophe ∧
    outside IsAlpha s[k + 3]? = true ∧
    ¬ (s[k + 1]? = some space ∧
      (s[k + 3]? = some space ∨ s[k + 3]? = some apostrophe ∧ s[k + 4]?.isSome)))

theorem not_apostrophe1 (h : apostrophe1 s k = true) (hlt : k < i) (hle : i ≤ k + 2) :
    apostrophe1 s i = false := by
  by_contra hi
  have := (apostrophe1_iff.mp (eq_true_of_ne_false hi)).2 k hlt hle
  rw [h] at this
  cases this

/-- An apostrophe behind one that is not a letter's neighbour in front. -/
theorem pads_behind_apostrophe (hprev : s[i]? = some apostrophe) :
    0 < apostrophePads s (i + 1) ↔ s[i + 1]? = some apostrophe ∧
      (apostrophe1 s (i + 1) = true ∨ letter s[i + 2]? = true) := by
  have hout : outside IsAlpha (prev? s (i + 1)) = true := by
    rw [prev?, hprev]
    exact outside_apostrophe
  have hl : ¬ letter (prev? s (i + 1)) = true := not_letter hout
  rw [apostrophePads_pos]
  simp [hout, hl]

/-- The apostrophe right behind one that was matched. -/
theorem rescued_one (h : apostrophe1 s k = true) (h1 : s[k + 1]? = some apostrophe) :
    Rescued s (k + 1) ↔
      s[k + 2]? = some space ∨ s[k + 2]? = some apostrophe ∧ letter s[k + 3]? = true := by
  have hleft : ∃ j, k + 1 = j + 1 ∧ (0 < apostrophePads s j ∨ s[j]? = some space) :=
    ⟨k, rfl, .inl (apostrophePads_pos.mpr ⟨(apostrophe1_iff.mp h).1.1, .inl h⟩)⟩
  rw [Rescued, and_iff_right hleft, pads_behind_apostrophe h1,
    not_apostrophe1 h (by omega) (by omega), or_iff_right Bool.false_ne_true, or_comm]

/-- The one behind a character that was consumed. -/
theorem rescued_two (h : apostrophe1 s k = true) (h1 : s[k + 1]? ≠ some apostrophe)
    (h2 : s[k + 2]? = some apostrophe) : Rescued s (k + 2) ↔ s[k + 1]? = some space ∧
      (s[k + 3]? = some space ∨ s[k + 3]? = some apostrophe ∧ s[k + 4]?.isSome) := by
  have hleft : (∃ j, k + 2 = j + 1 ∧ (0 < apostrophePads s j ∨ s[j]? = some space)) ↔
      s[k + 1]? = some space := by
    constructor
    · rintro ⟨j, hj, hor⟩
      obtain rfl : j = k + 1 := by omega
      exact hor.resolve_left fun hpos => h1 (apostrophePads_pos.mp hpos).1
    · intro hsp
      exact ⟨k + 1, rfl, .inr hsp⟩
  have hright : 0 < apostrophePads s (k + 3) ↔ s[k + 3]? = some apostrophe ∧ s[k + 4]?.isSome := by
    rw [pads_behind_apostrophe h2]
    refine and_congr_right fun h3 => ⟨?_, fun h4 => ?_⟩
    · rintro (h3' | hl)
      · exact isSome_of_outside (apostrophe1_iff.mp h3').1.2.2
      · exact isSome_of_letter hl
    · cases hout : outside IsAlpha s[k + 4]? with
      | true =>
        -- the match of `k` does not reach that far
        refine .inl (apostrophe1_iff.mpr ⟨⟨h3, ?_, hout⟩, fun j hj hle => ?_⟩)
        · show outside IsAlpha s[k + 2]? = true
          rw [h2]
          exact outside_apostrophe
        · exact not_apostrophe1 h (by omega) (by omega)
      | false =>
        right
        rw [letter_eq h4, hout]
        rfl
  rw [Rescued, hleft, hright, or_comm]

/-- What was passed over for the sake of `k`, where nothing is stuck. -/
theorem behind_of_not_stuck (hstuck : ¬ Stuck s k) (hi : Inner s i) (hlt : k < i)
    (hle : i ≤ k + 2) :
    (i = k + 1 ∧
      (s[k + 2]? = some space ∨ s[k + 2]? = some apostrophe ∧ letter s[k + 3]? = true)) ∨
    (i = k + 2 ∧ s[k + 1]? = some space ∧
      (s[k + 3]? = some space ∨ s[k + 3]? = some apostrophe ∧ s[k + 4]?.isSome)) := by
  rw [Stuck, not_or] at hstuck
  rcases (by omega : i = k + 1 ∨ i = k + 2) with rfl | rfl
  · refine .inl ⟨rfl, ?_⟩
    by_contra hno
    exact hstuck.1 ⟨hi.1, hi.2.2, hno⟩
  · have h1 : s[k + 1]? ≠ some apostrophe := by
      -- else that one would be stuck
      intro h1
      refine hstuck.1 ⟨h1, by rw [hi.1]; exact outside_apostrophe, ?_⟩
      rintro (hsp | ⟨-, hl⟩)
      · rw [hi.1] at hsp
        cases hsp
      · exact not_letter hi.2.2 hl
    refine .inr ⟨rfl, ?_⟩
    by_contra hno
    exact hstuck.2 ⟨h1, hi.2.1, hi.1, hi.2.2, hno⟩

/-- The match that consumed a neighbour of what was passed over. -/
theorem exists_apostrophe1 (hi : Inner s i) (h : apostrophe1 s i = false) :
    ∃ k < i, i ≤ k + 2 ∧ apostrophe1 s k = true := by
  by_contra hno
  have : apostrophe1 s i = true := apostrophe1_iff.mpr ⟨hi, fun k hk hle => by
    by_contra hk'
    exact hno ⟨k, hk, hle, eq_true_of_ne_false hk'⟩⟩
  rw [h] at this
  cases this

/-- **What is passed over gets its spaces** exactly if it is not stuck behind a match. -/
theorem apostrophesSpaced_iff_stuck : ApostrophesSpaced s ↔
    ∀ k, apostrophe1 s k = true → ¬ Stuck s k := by
  rw [apostrophesSpaced_iff_rescued]
  constructor
  · rintro h k hk (⟨h1, h2, hno⟩ | ⟨h1, hy, h2, hz, hno⟩)
    · apply hno
      rw [← rescued_one hk h1]
      refine h (k + 1) ⟨h1, ?_, h2⟩ (not_apostrophe1 hk (by omega) (by omega))
      rw [prev?, (apostrophe1_iff.mp hk).1.1]
      exact outside_apostrophe
    · apply hno
      rw [← rescued_two hk h1 h2]
      exact h (k + 2) ⟨h2, hy, hz⟩ (not_apostrophe1 hk (by omega) (by omega))
  · intro h i hi hnot
    obtain ⟨k, hlt, hle, hk⟩ := exists_apostrophe1 hi hnot
    rcases behind_of_not_stuck (h k hk) hi hlt hle with ⟨rfl, h2⟩ | ⟨rfl, h1, h3⟩
    · exact (rescued_one hk hi.1).mpr h2
    · have hne : s[k + 1]? ≠ some apostrophe := by
        rw [h1]
        decide
      exact (rescued_two hk hne hi.1).mpr ⟨h1, h3⟩

/-! ## Chains -/

/-- What can stand behind an apostrophe that was matched, up to the next one: `' '`, ` ''` and
` ' '`. -/
def pieces : List WString :=
  [[apostrophe, space, apostrophe], [space, apostrophe, apostrophe],
    [space, apostrophe, space, apostrophe]]

/-- A chain starts at an apostrophe between two other characters than letters, where neither of the
two characters in front of it is one too, and goes on over pieces, to the end of each. -/
inductive Chain (s : WString) : ℕ → Prop
  | start {i : ℕ} : Inner s i → (∀ j < i, i ≤ j + 2 → ¬ Inner s j) → Chain s i
  | step {i : ℕ} (piece : WString) : Chain s i → piece ∈ pieces → piece <+: s.drop (i + 1) →
      Chain s (i + piece.length)

/-- No chain ends at an apostrophe that leaves another one without its spaces. -/
def ApostropheChains (s : WString) : Prop := ∀ k, Chain s k → ¬ Stuck s k

theorem getElem?_of_prefix {piece : WString} (h : piece <+: s.drop (k + 1)) {m : ℕ}
    (hm : m < piece.length) : s[k + 1 + m]? = piece[m]? := by
  obtain ⟨t, ht⟩ := h
  rw [← List.getElem?_drop, ← ht, List.getElem?_append_left hm]

theorem piece_cases {piece : WString} (hp : piece ∈ pieces) (h : piece <+: s.drop (k + 1)) :
    (piece.length = 3 ∧ s[k + 1]? = some apostrophe ∧ s[k + 2]? = some space ∧
      s[k + 3]? = some apostrophe) ∨
    (piece.length = 3 ∧ s[k + 1]? = some space ∧ s[k + 2]? = some apostrophe ∧
      s[k + 3]? = some apostrophe) ∨
    (piece.length = 4 ∧ s[k + 1]? = some space ∧ s[k + 2]? = some apostrophe ∧
      s[k + 3]? = some space ∧ s[k + 4]? = some apostrophe) := by
  have hat : ∀ {m}, m < piece.length → s[k + 1 + m]? = piece[m]? := getElem?_of_prefix h
  simp only [pieces, List.mem_cons, List.not_mem_nil, or_false] at hp
  rcases hp with rfl | rfl | rfl
  · exact .inl ⟨rfl, hat (m := 0) (by decide), hat (m := 1) (by decide), hat (m := 2) (by decide)⟩
  · exact .inr (.inl ⟨rfl, hat (m := 0) (by decide), hat (m := 1) (by decide),
      hat (m := 2) (by decide)⟩)
  · exact .inr (.inr ⟨rfl, hat (m := 0) (by decide), hat (m := 1) (by decide),
      hat (m := 2) (by decide), hat (m := 3) (by decide)⟩)

theorem chain_head (h : Chain s k) :
    s[k]? = some apostrophe ∧ outside IsAlpha (prev? s k) = true := by
  cases h with
  | start hin => exact ⟨hin.1, hin.2.1⟩
  | step piece _ hp hpre =>
    rcases piece_cases hp hpre with ⟨hlen, -, h2, h3⟩ | ⟨hlen, -, h2, h3⟩ | ⟨hlen, -, -, h3, h4⟩
    · rw [hlen]
      exact ⟨h3, (congrArg (outside IsAlpha) h2).trans outside_space'⟩
    · rw [hlen]
      exact ⟨h3, (congrArg (outside IsAlpha) h2).trans outside_apostrophe⟩
    · rw [hlen]
      exact ⟨h4, (congrArg (outside IsAlpha) h3).trans outside_space'⟩

/-- **The apostrophes of a chain are matched.** -/
theorem apostrophe1_of_chain (h : Chain s k) (hout : outside IsAlpha s[k + 1]? = true) :
    apostrophe1 s k = true := by
  induction h with
  | @start i hin hfree =>
    refine apostrophe1_iff.mpr ⟨hin, fun j hj hle => ?_⟩
    by_contra hc
    exact hfree j hj hle (apostrophe1_iff.mp (eq_true_of_ne_false hc)).1
  | @step i piece hc hp hpre ih =>
    obtain ⟨hq, hprev⟩ := chain_head (hc.step piece hp hpre)
    refine apostrophe1_iff.mpr ⟨⟨hq, hprev, hout⟩, fun j hj hle => ?_⟩
    rcases piece_cases hp hpre with ⟨hlen, h1, -⟩ | ⟨hlen, h1, -⟩ | ⟨hlen, h1, -, h3, -⟩
    · have hi := ih (by rw [h1]; exact outside_apostrophe)
      exact not_apostrophe1 hi (by omega) (by omega)
    · have hi := ih (by rw [h1]; exact outside_space')
      exact not_apostrophe1 hi (by omega) (by omega)
    · have hi := ih (by rw [h1]; exact outside_space')
      rcases (by omega : j = i + 2 ∨ j = i + 3) with rfl | rfl
      · exact not_apostrophe1 hi (by omega) (by omega)
      · -- a space
        by_contra hc
        have := (apostrophe1_iff.mp (eq_true_of_ne_false hc)).1.1
        rw [h3] at this
        cases this

/-- Where nothing is stuck, what is matched is in a chain. -/
theorem chain_of_apostrophe1 (hfree : ApostropheChains s) (h : apostrophe1 s i = true) :
    Chain s i := by
  induction i using Nat.strongRecOn with
  | _ i ih =>
  obtain ⟨hi, hno⟩ := apostrophe1_iff.mp h
  by_cases hstart : ∀ j < i, i ≤ j + 2 → ¬ Inner s j
  · exact .start hi hstart
  · -- the apostrophe `j` was passed over, for the sake of `k`
    obtain ⟨j, hj, hle, hjin⟩ : ∃ j < i, i ≤ j + 2 ∧ Inner s j := by
      by_contra hc
      exact hstart fun j hj hle hjin => hc ⟨j, hj, hle, hjin⟩
    obtain ⟨k, hk, hkle, hkm⟩ := exists_apostrophe1 hjin (hno j hj hle)
    have hki : k + 2 < i := by
      by_contra hc
      rw [not_apostrophe1 hkm (by omega) (by omega)] at h
      cases h
    have hchain := ih k (by omega) hkm
    rcases behind_of_not_stuck (hfree k hchain) hjin hk hkle with ⟨rfl, h2⟩ | ⟨rfl, h1, h3⟩
    · obtain rfl : i = k + 3 := by omega
      have hd1 : s.drop (k + 1) = apostrophe :: s.drop (k + 2) := drop_of_getElem? hjin.1
      have hd3 : s.drop (k + 3) = apostrophe :: s.drop (k + 4) := drop_of_getElem? hi.1
      rcases h2 with h2 | ⟨-, hl⟩
      · have hd2 : s.drop (k + 2) = space :: s.drop (k + 3) := drop_of_getElem? h2
        exact hchain.step [apostrophe, space, apostrophe] (by decide)
          ⟨s.drop (k + 4), by rw [hd1, hd2, hd3]; rfl⟩
      · rw [hi.1] at hl
        exact absurd hl (not_letter outside_apostrophe)
    · have hd1 : s.drop (k + 1) = space :: s.drop (k + 2) := drop_of_getElem? h1
      have hd2 : s.drop (k + 2) = apostrophe :: s.drop (k + 3) := drop_of_getElem? hjin.1
      rcases (by omega : i = k + 3 ∨ i = k + 4) with rfl | rfl
      · have hd3 : s.drop (k + 3) = apostrophe :: s.drop (k + 4) := drop_of_getElem? hi.1
        exact hchain.step [space, apostrophe, apostrophe] (by decide)
          ⟨s.drop (k + 4), by rw [hd1, hd2, hd3]; rfl⟩
      · have hd4 : s.drop (k + 4) = apostrophe :: s.drop (k + 5) := drop_of_getElem? hi.1
        rcases h3 with h3 | ⟨h3, -⟩
        · have hd3 : s.drop (k + 3) = space :: s.drop (k + 4) := drop_of_getElem? h3
          exact hchain.step [space, apostrophe, space, apostrophe] (by decide)
            ⟨s.drop (k + 5), by rw [hd1, hd2, hd3, hd4]; rfl⟩
        · -- an apostrophe at `k + 3` would be matched, and `i` passed over
          have hin : Inner s (k + 3) :=
            ⟨h3, (congrArg (outside IsAlpha) hjin.1).trans outside_apostrophe,
              (congrArg (outside IsAlpha) hi.1).trans outside_apostrophe⟩
          have h3m : apostrophe1 s (k + 3) = true := apostrophe1_iff.mpr ⟨hin, fun m hm hle' =>
            not_apostrophe1 hkm (by omega) (by omega)⟩
          rw [hno (k + 3) (by omega) (by omega)] at h3m
          cases h3m

/-- **When every apostrophe gets its spaces.** -/
theorem apostrophes_iff : ApostrophesSpaced s ↔ ApostropheChains s := by
  rw [apostrophesSpaced_iff_stuck]
  constructor
  · intro h k hchain hstuck
    refine h k (apostrophe1_of_chain hchain ?_) hstuck
    rcases hstuck with ⟨h1, -⟩ | ⟨-, hy, -⟩
    · rw [h1]
      exact outside_apostrophe
    · exact hy
  · intro h k hk
    exact h k (chain_of_apostrophe1 h hk)

end Apostrophes

/-- **When the passes put all the spaces**: for commas it is the length of the runs that counts, for
apostrophes what stands between them. -/
theorem spaced_iff (s : WString) : (CommasSpaced s ↔ CommaRuns s) ∧
    (ApostrophesSpaced s ↔ ApostropheChains s) := ⟨commas_iff, apostrophes_iff⟩

set_option maxRecDepth 10000 in
theorem test4_unserved : test4 (wide "a,,1") = wide "a  ,  ,1" := by
  rw [test4, r_comma1, r_comma2, IsN]
  repeat rw [wide_ofList]
  decide

theorem test3_unserved : test3 (wide "1'2'3") = wide "1 ' 2'3" := by
  rw [test3, r_apostrophe1, r_apostrophe2, r_apostrophe3, IsAlpha]
  repeat rw [wide_ofList]
  decide

/-- **The second of two commas, and of two apostrophes**, that want the same character. -/
theorem not_spaced : ¬ CommasSpaced (wide "a,,1") ∧ ¬ ApostrophesSpaced (wide "1'2'3") := by
  constructor
  · intro h
    have hs : neighbours comma (wide "a,,1") =
        [(some 'a'.val, some comma), (some comma, some '1'.val)] := by decide
    have ht : neighbours comma (wide "a  ,  ,1") =
        [(some space, some space), (some space, some '1'.val)] := by decide
    rw [CommasSpaced, Spaced, test4_unserved, hs, ht] at h
    obtain ⟨-, h2, -⟩ : _ ∧ _ ∧ _ := by simpa only [List.forall₂_cons] using h
    exact absurd (h2 (.inl outside_comma)) (by decide)
  · intro h
    have hs : neighbours apostrophe (wide "1'2'3") =
        [(some '1'.val, some '2'.val), (some '2'.val, some '3'.val)] := by decide
    have ht : neighbours apostrophe (wide "1 ' 2'3") =
        [(some space, some space), (some '2'.val, some '3'.val)] := by decide
    rw [ApostrophesSpaced, Spaced, test3_unserved, hs, ht] at h
    obtain ⟨-, h2, -⟩ : _ ∧ _ ∧ _ := by simpa only [List.forall₂_cons] using h
    exact absurd (h2 ⟨rfl, rfl, .inl (outside_some.mpr not_mem_IsAlpha.2.2)⟩) (by decide)

end PracticeCode.Regex2
