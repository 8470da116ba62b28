import PracticeCode.Lib.Run

/-!
# A component and its user

A user makes internal steps and follows what the steps of a component emit: `accept` says how the
user goes on, and a step that emits what the user does not accept is not possible (`together`).

`Run.together_simulate`: a component may be replaced by one that can emit the same, and the user
notices nothing.
-/

namespace PracticeCode.Lib

variable {σ τ α β γ δ ω : Type*}

/-- The user and the component; `inl` is a step of the user, `inr` one of the component. -/
def together (internal : γ → δ → Option γ) (accept : γ → ω → Option γ) (step : σ → α → Option σ)
    (emit : σ → α → List ω) (x : γ × σ) : δ ⊕ α → Option (γ × σ)
  | .inl d => (internal x.1 d).map fun c => (c, x.2)
  | .inr a => (step x.2 a).bind fun s => ((emit x.2 a).foldlM accept x.1).map fun c => (c, s)

/-- The guard of the component. -/
def within (G : σ → α → Prop) (x : γ × σ) : δ ⊕ α → Prop
  | .inl _ => True
  | .inr a => G x.2 a

section Together

variable {internal : γ → δ → Option γ} {accept : γ → ω → Option γ} {step : σ → α → Option σ}
  {emit : σ → α → List ω} {x x' : γ × σ}

theorem together_inl {d : δ} : together internal accept step emit x (.inl d) = some x' ↔
    internal x.1 d = some x'.1 ∧ x'.2 = x.2 := by
  obtain ⟨c', s'⟩ := x'
  simp only [together, Option.map_eq_some_iff, Prod.mk.injEq]
  constructor
  · rintro ⟨c, hc, rfl, rfl⟩
    exact ⟨hc, rfl⟩
  · rintro ⟨hc, rfl⟩
    exact ⟨c', hc, rfl, rfl⟩

theorem together_inr {a : α} : together internal accept step emit x (.inr a) = some x' ↔
    step x.2 a = some x'.2 ∧ (emit x.2 a).foldlM accept x.1 = some x'.1 := by
  obtain ⟨c', s'⟩ := x'
  simp only [together, Option.bind_eq_some_iff, Option.map_eq_some_iff, Prod.mk.injEq]
  constructor
  · rintro ⟨s, hs, c, hc, rfl, rfl⟩
    exact ⟨hs, hc⟩
  · rintro ⟨hs, hc⟩
    exact ⟨s', hs, c', hc, rfl, rfl⟩

/-- The user follows a run of the component. -/
theorem Run.together {s : σ} {as : List α} {p : σ × List ω} {c c' : γ}
    (h : Run (watch step emit) free (s, []) as p) (hc : p.2.foldlM accept c = some c') :
    Run (together internal accept step emit) free (c, s) (as.map .inr) (c', p.1) := by
  induction h generalizing c' with
  | nil =>
    obtain rfl : c = c' := Option.some.inj hc
    exact .nil
  | @snoc as p p' a _ _ hs ih =>
    obtain ⟨hst, hrec⟩ := watch_eq_some.mp hs
    rw [hrec, List.foldlM_append] at hc
    obtain ⟨c₁, h₁, h₂⟩ := Option.bind_eq_some_iff.mp hc
    rw [List.map_append]
    exact (ih h₁).snoc trivial (together_inr.mpr ⟨hst, h₂⟩)

/-- What the component does in a run is a run of its own. -/
theorem Run.component {G : σ → α → Prop} {x₀ : γ × σ} {as : List (δ ⊕ α)}
    (h : Run (Lib.together internal accept step emit) (within G) x₀ as x) :
    ∃ bs, Run step G x₀.2 bs x.2 := by
  obtain ⟨bs, s, hr, rfl⟩ := h.simulate (fun y s => s = y.2) rfl fun y a y' s hR hg hs => by
    obtain rfl := hR
    cases a with
    | inl d => exact .inl (together_inl.mp hs).2.symm
    | inr a => exact .inr ⟨a, _, hg, (together_inr.mp hs).1, rfl⟩
  exact ⟨bs, hr⟩

variable {step' : τ → β → Option τ} {emit' : τ → β → List ω} {G : σ → α → Prop} {c₀ : γ} {s₀ : σ}
  {t₀ : τ} {as : List (δ ⊕ α)}

/-- **Replacing the component**: when every step of the first is matched by steps of the second that
emit the same, the user of the first does nothing that the user of the second cannot do. -/
theorem Run.together_simulate (R : σ → τ → Prop) (h0 : R s₀ t₀)
    (hstep : ∀ s a s' t, R s t → G s a → step s a = some s' →
      ∃ bs p, Run (watch step' emit') free (t, []) bs p ∧ p.2 = emit s a ∧ R s' p.1)
    (h : Run (Lib.together internal accept step emit) (within G) (c₀, s₀) as x) :
    ∃ bs t, Run (Lib.together internal accept step' emit') free (c₀, t₀) bs (x.1, t) ∧ R x.2 t := by
  induction h with
  | nil => exact ⟨[], t₀, .nil, h0⟩
  | @snoc as x x' a _ hg hs ih =>
    obtain ⟨bs, t, hr, hR⟩ := ih
    cases a with
    | inl d =>
      obtain ⟨hd, hx⟩ := together_inl.mp hs
      have ht : Lib.together internal accept step' emit' (x.1, t) (.inl d) = some (x'.1, t) :=
        together_inl.mpr ⟨hd, rfl⟩
      refine ⟨bs ++ [.inl d], t, hr.snoc trivial ht, ?_⟩
      rw [hx]
      exact hR
    | inr a =>
      obtain ⟨hst, hacc⟩ := together_inr.mp hs
      obtain ⟨bs', p, hp, he, hR'⟩ := hstep _ a _ t hR hg hst
      rw [← he] at hacc
      exact ⟨_, p.1, hr.append (hp.together hacc), hR'⟩

end Together

end PracticeCode.Lib
