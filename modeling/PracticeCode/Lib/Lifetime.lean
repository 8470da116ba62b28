import Mathlib.Data.List.Basic
import Mathlib.Data.Set.Insert

/-!
# The lifetimes of the resources in a log

A system makes calls on resources that it opens and releases.  `target` is what a call is on: `none`
when it is on nothing, `some none` when the name it was given stands for nothing any more.  `ends`
is the resource that a call releases.

* `Orderly log`: no call is on nothing, and none on a resource after its release;
* `Tied log live fresh`: moreover the released ones are neither live nor to come.  It is kept by a
  call on a live resource (`Tied.call`), by opening a fresh one (`Tied.mono`), and by a release
  (`Tied.release`).
-/

namespace PracticeCode.Lib

variable {κ γ : Type*} (target : κ → Option (Option γ)) (ends : κ → Option γ)

structure Orderly (log : List κ) : Prop where
  alive : ∀ x ∈ log, target x ≠ some none
  last : ∀ l₁ x l₂ c, log = l₁ ++ x :: l₂ → ends x = some c → ∀ y ∈ l₂, target y ≠ some (some c)

structure Tied (log : List κ) (live fresh : Set γ) : Prop where
  orderly : Orderly target ends log
  gone : ∀ x ∈ log, ∀ c, ends x = some c → c ∉ live ∧ c ∉ fresh

variable {target ends} {log : List κ} {live fresh live' fresh' : Set γ} {x : κ} {c : γ}

theorem tied_nil : Tied target ends [] live fresh where
  orderly := ⟨by simp, fun l₁ x l₂ c h => by simp at h⟩
  gone := by simp

/-- A call on a live resource, or on none. -/
theorem Tied.snoc (h : Tied target ends log live fresh)
    (hx : ∀ o, target x = some o → ∃ c ∈ live, o = some c) :
    Orderly target ends (log ++ [x]) where
  alive y hy := by
    rcases List.mem_append.mp hy with hy | hy
    · exact h.orderly.alive y hy
    · obtain rfl := List.mem_singleton.mp hy
      intro ht
      obtain ⟨c, -, hc⟩ := hx none ht
      cases hc
  last l₁ y l₂ c hl hc z hz := by
    rcases List.eq_nil_or_concat' l₂ with rfl | ⟨l₃, w, rfl⟩
    · cases hz
    · rw [← List.cons_append, ← List.append_assoc] at hl
      obtain ⟨hlog, hlast⟩ := List.append_inj' hl rfl
      obtain rfl : x = w := List.head_eq_of_cons_eq hlast
      rcases List.mem_append.mp hz with hz | hz
      · exact h.orderly.last l₁ y l₃ c hlog hc z hz
      · obtain rfl := List.mem_singleton.mp hz
        intro ht
        obtain ⟨d, hd, he⟩ := hx _ ht
        obtain rfl := Option.some.inj he
        exact (h.gone y (by simp [hlog]) c hc).1 hd

/-- What becomes live was live or fresh. -/
theorem Tied.mono (h : Tied target ends log live fresh) (hl : live' ⊆ live ∪ fresh)
    (hf : fresh' ⊆ live ∪ fresh) : Tied target ends log live' fresh' where
  orderly := h.orderly
  gone x hx c hc := by
    obtain ⟨hlive, hfresh⟩ := h.gone x hx c hc
    exact ⟨fun hm => (hl hm).elim hlive hfresh, fun hm => (hf hm).elim hlive hfresh⟩

theorem Tied.call (h : Tied target ends log live fresh)
    (hx : ∀ o, target x = some o → ∃ c ∈ live, o = some c) (he : ends x = none) :
    Tied target ends (log ++ [x]) live fresh where
  orderly := h.snoc hx
  gone y hy c hc := by
    rcases List.mem_append.mp hy with hy | hy
    · exact h.gone y hy c hc
    · obtain rfl := List.mem_singleton.mp hy
      rw [he] at hc
      cases hc

theorem Tied.release (h : Tied target ends log live fresh) (hx : target x = some (some c))
    (he : ends x = some c) (hc : c ∈ live) (hf : c ∉ fresh) :
    Tied target ends (log ++ [x]) (live \ {c}) fresh where
  orderly := h.snoc fun o ho => by
    rw [hx] at ho
    exact ⟨c, hc, (Option.some.inj ho).symm⟩
  gone y hy d hd := by
    rcases List.mem_append.mp hy with hy | hy
    · obtain ⟨hlive, hfresh⟩ := h.gone y hy d hd
      exact ⟨fun hm => hlive hm.1, hfresh⟩
    · obtain rfl := List.mem_singleton.mp hy
      rw [he] at hd
      obtain rfl := Option.some.inj hd
      exact ⟨fun hm => hm.2 rfl, hf⟩

end PracticeCode.Lib
