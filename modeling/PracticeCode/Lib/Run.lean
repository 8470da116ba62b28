import Mathlib.Data.List.Basic

/-!
# Guarded runs of a step function

A system is a partial step function `step : σ → α → Option σ` on states and labelled actions; the
list of actions of a run is the interleaving the scheduler chose.  `Run step G s₀ as s` is a run
whose every step also meets the guard `G`, a condition on the state before the step.

* `Run.invariant`: what the start has and every guarded step keeps holds at the end;
* `Run.mono`: a run that meets a guard meets every weaker one;
* `Run.countP_le`, `Run.length_le`: what a potential, or a measure, allows in a run;
* `Run.replicate`: an action that can always be repeated;
* `Run.simulate`: forward simulation with stuttering;
* `Run.follow`: forward simulation that keeps the actions;
* `Run.guarded_iff`: the runs that keep a property are those that meet the guard its steps need;
* `Run.record_iff`, `Run.emits_iff`: the same for what is recorded along a run;
* `Run.refine`, `Run.lift`: runs along a refinement mapping, in both directions;
* `Run.length_le_of_refine`: a measure of the image bounds the runs;
* `Settles`: the run that a policy makes, until it has no action;
* `exec` runs a list of actions; `Run.of_exec` turns its result into a run.
-/

namespace PracticeCode.Lib

variable {σ α : Type*}

/-- `as` takes `s₀` to the last index, and each of its steps meets the guard `G`. -/
inductive Run (step : σ → α → Option σ) (G : σ → α → Prop) (s₀ : σ) : List α → σ → Prop
  | nil : Run step G s₀ [] s₀
  | snoc {as : List α} {s s' : σ} {a : α} : Run step G s₀ as s → G s a → step s a = some s' →
      Run step G s₀ (as ++ [a]) s'

/-- The guard that asks nothing. -/
def free : σ → α → Prop := fun _ _ => True

instance (s : σ) (a : α) : Decidable (free s a) := isTrue trivial

section Run

variable {step : σ → α → Option σ} {G H : σ → α → Prop} {s₀ s s' : σ} {as : List α}

/-- **The invariant rule.** -/
theorem Run.invariant {I : σ → Prop} (h0 : I s₀)
    (hstep : ∀ s a s', I s → G s a → step s a = some s' → I s') (h : Run step G s₀ as s) : I s := by
  induction h with
  | nil => exact h0
  | snoc _ hg hs ih => exact hstep _ _ _ ih hg hs

theorem Run.mono (hGH : ∀ s a, G s a → H s a) (h : Run step G s₀ as s) : Run step H s₀ as s := by
  induction h with
  | nil => exact .nil
  | snoc _ hg hs ih => exact .snoc ih (hGH _ _ hg) hs

/-- A guard that looks at the actions only can be checked on their list. -/
theorem Run.of_forall_mem (hH : ∀ a ∈ as, ∀ s, H s a) (h : Run step G s₀ as s) :
    Run step H s₀ as s := by
  induction h with
  | nil => exact .nil
  | @snoc as _ _ a _ _ hs ih =>
    exact .snoc (ih fun b hb => hH b (List.mem_append_left _ hb))
      (hH a (List.mem_append_right _ (List.mem_singleton.mpr rfl)) _) hs

theorem Run.cons {a : α} {s₁ : σ} (hg : G s₀ a) (hs : step s₀ a = some s₁)
    (h : Run step G s₁ as s) : Run step G s₀ (a :: as) s := by
  induction h with
  | nil => exact (Run.nil.snoc hg hs : Run step G s₀ ([] ++ [a]) _)
  | @snoc bs t t' b _ hg' hs' ih => exact Run.snoc ih hg' hs'

theorem Run.append {bs : List α} (h : Run step G s₀ as s) (h' : Run step G s bs s') :
    Run step G s₀ (as ++ bs) s' := by
  induction h' with
  | nil => simpa using h
  | snoc _ hg hs ih =>
    rw [← List.append_assoc]
    exact .snoc ih hg hs

/-- **The bound of a potential.**  When a guarded step that has `c` takes a potential down, and only
one that has `g` takes it up, the steps with `c` are as many as the start and the `g` allow. -/
theorem Run.countP_le {I : σ → Prop} {μ : σ → ℕ} {c g : α → Bool} (h0 : I s₀)
    (hstep : ∀ s a s', I s → G s a → step s a = some s' →
      I s' ∧ (c a).toNat + μ s' ≤ (g a).toNat + μ s)
    (h : Run step G s₀ as s) : as.countP c + μ s ≤ as.countP g + μ s₀ := by
  suffices hI : I s ∧ as.countP c + μ s ≤ as.countP g + μ s₀ from hI.2
  induction h with
  | nil => exact ⟨h0, by simp⟩
  | @snoc as s s' a _ hg hs ih =>
    obtain ⟨h1, h2⟩ := hstep _ _ _ ih.1 hg hs
    refine ⟨h1, ?_⟩
    have hone : ∀ p : α → Bool, [a].countP p = (p a).toNat := fun p => by
      cases hp : p a <;> simp [hp]
    have := ih.2
    rw [List.countP_append, List.countP_append, hone, hone]
    omega

/-- **The bound of a measure.**  A run is not longer than what a measure of its start allows that
every guarded step takes down. -/
theorem Run.length_le {I : σ → Prop} {μ : σ → ℕ} (h0 : I s₀)
    (hstep : ∀ s a s', I s → G s a → step s a = some s' → I s' ∧ μ s' < μ s)
    (h : Run step G s₀ as s) : as.length + μ s ≤ μ s₀ := by
  have hc : as.countP (fun _ => true) + μ s ≤ as.countP (fun _ => false) + μ s₀ :=
    h.countP_le h0 fun s a s' hi hg hs => by
      obtain ⟨hi', hlt⟩ := hstep s a s' hi hg hs
      refine ⟨hi', ?_⟩
      simp only [Bool.toNat_true, Bool.toNat_false]
      omega
  simpa using hc

/-- An action that can be repeated from every state with `P` is repeated any number of times. -/
theorem Run.replicate {P : σ → Prop} {a : α} (h0 : P s₀)
    (hstep : ∀ s, P s → G s a ∧ ∃ s', step s a = some s' ∧ P s') (n : ℕ) :
    ∃ s, Run step G s₀ (List.replicate n a) s ∧ P s := by
  induction n with
  | zero => exact ⟨s₀, .nil, h0⟩
  | succ n ih =>
    obtain ⟨s, hr, hp⟩ := ih
    obtain ⟨hg, s', hs, hp'⟩ := hstep s hp
    rw [List.replicate_succ']
    exact ⟨s', hr.snoc hg hs, hp'⟩

theorem Run.eq_of_nil (h : Run step G s₀ [] s) : s = s₀ := by
  generalize e : ([] : List α) = bs at h
  cases h with
  | nil => rfl
  | snoc => simp at e

/-- The first step of a run. -/
theorem Run.of_cons {a : α} (h : Run step G s₀ (a :: as) s) :
    ∃ t, G s₀ a ∧ step s₀ a = some t ∧ Run step G t as s := by
  generalize e : a :: as = bs at h
  induction h generalizing as with
  | nil => cases e
  | @snoc bs _ _ b hr hg hs ih =>
    cases bs with
    | nil =>
      obtain ⟨rfl, rfl⟩ := List.cons.inj e
      obtain rfl := hr.eq_of_nil
      exact ⟨_, hg, hs, .nil⟩
    | cons c bs =>
      obtain ⟨rfl, rfl⟩ := List.cons.inj e
      obtain ⟨t, hga, hst, hr⟩ := ih rfl
      exact ⟨t, hga, hst, hr.snoc hg hs⟩

/-- The last step of a run. -/
theorem Run.of_snoc {a : α} (h : Run step G s₀ (as ++ [a]) s) :
    ∃ t, Run step G s₀ as t ∧ G t a ∧ step t a = some s := by
  generalize e : as ++ [a] = bs at h
  cases h with
  | nil => simp at e
  | snoc h hg hs =>
    obtain ⟨rfl, ha⟩ := List.append_inj' e rfl
    obtain rfl := List.head_eq_of_cons_eq ha
    exact ⟨_, h, hg, hs⟩

/-- The actions alone say where a run ends. -/
theorem Run.unique (h : Run step G s₀ as s) : ∀ {s'}, Run step H s₀ as s' → s' = s := by
  induction h with
  | nil =>
    intro s' h'
    exact h'.eq_of_nil
  | snoc _ _ hs ih =>
    intro s' h'
    obtain ⟨t, ht, -, hs'⟩ := h'.of_snoc
    rw [ih ht, hs] at hs'
    exact (Option.some.inj hs').symm

/-- **Forward simulation.**  When every guarded step is matched by no step or by one guarded step of
another system, every run is matched by a run. -/
theorem Run.simulate {τ β : Type*} {step' : τ → β → Option τ} {G' : τ → β → Prop} {t₀ : τ}
    (R : σ → τ → Prop) (h0 : R s₀ t₀)
    (hstep : ∀ s a s' t, R s t → G s a → step s a = some s' →
      R s' t ∨ ∃ b t', G' t b ∧ step' t b = some t' ∧ R s' t')
    (h : Run step G s₀ as s) : ∃ bs t, Run step' G' t₀ bs t ∧ R s t := by
  induction h with
  | nil => exact ⟨[], t₀, .nil, h0⟩
  | snoc _ hg hs ih =>
    obtain ⟨bs, t, ht, hR⟩ := ih
    rcases hstep _ _ _ t hR hg hs with hR' | ⟨b, t', hg', hs', hR'⟩
    · exact ⟨bs, t, ht, hR'⟩
    · exact ⟨bs ++ [b], t', ht.snoc hg' hs', hR'⟩

/-- **Forward simulation by runs.** -/
theorem Run.simulate_runs {τ β : Type*} {step' : τ → β → Option τ} {G' : τ → β → Prop} {t₀ : τ}
    (R : σ → τ → Prop) (h0 : R s₀ t₀)
    (hstep : ∀ s a s' t, R s t → G s a → step s a = some s' →
      ∃ bs t', Run step' G' t bs t' ∧ R s' t')
    (h : Run step G s₀ as s) : ∃ bs t, Run step' G' t₀ bs t ∧ R s t := by
  induction h with
  | nil => exact ⟨[], t₀, .nil, h0⟩
  | snoc _ hg hs ih =>
    obtain ⟨bs, t, ht, hR⟩ := ih
    obtain ⟨cs, t', ht', hR'⟩ := hstep _ _ _ t hR hg hs
    exact ⟨bs ++ cs, t', ht.append ht', hR'⟩

/-- **The runs that keep a property.**  When a step keeps `P` exactly if it meets the guard `G`, a
run meets `G` exactly if `P` holds in every state it passes. -/
theorem Run.guarded_iff {P : σ → Prop} (h0 : P s₀)
    (hstep : ∀ as s a s', Run step H s₀ as s → P s → H s a → step s a = some s' → (P s' ↔ G s a))
    (h : Run step H s₀ as s) :
    Run step (fun s a => H s a ∧ G s a) s₀ as s ↔
      ∀ bs t, bs <+: as → Run step H s₀ bs t → P t := by
  induction h with
  | nil =>
    constructor
    · intro _ bs t hb ht
      obtain rfl := List.prefix_nil.mp hb
      rwa [ht.eq_of_nil]
    · intro _
      exact .nil
  | @snoc as s s' a h hh hs ih =>
    constructor
    · intro hr bs t hb ht
      obtain ⟨u, hu, hg, hsu⟩ := hr.of_snoc
      obtain rfl := h.unique hu
      have hP := ih.mp hu
      rcases List.prefix_concat_iff.mp hb with rfl | hb
      · obtain ⟨v, hv, -, hsv⟩ := ht.of_snoc
        obtain rfl := h.unique hv
        exact (hstep as _ a t h (hP as _ List.prefix_rfl h) hh hsv).mpr hg.2
      · exact hP bs t hb ht
    · intro hP
      have hr := ih.mpr fun bs t hb ht => hP bs t (hb.trans (List.prefix_append _ _)) ht
      have hPs := hP as s (List.prefix_append _ _) h
      have hPs' := hP (as ++ [a]) s' List.prefix_rfl (h.snoc hh hs)
      exact hr.snoc ⟨hh, (hstep as s a s' h hPs hh hs).mp hPs'⟩ hs

end Run

/-! ## Refinement mappings -/

section Refine

variable {τ β : Type*} {step : σ → α → Option σ} {step' : τ → β → Option τ} {G : σ → α → Prop}
  {s₀ s : σ} {as : List α}

/-- The action, when there is one, takes `t` to `t'`; else nothing changes. -/
def Follows (step' : τ → β → Option τ) (t : τ) : Option β → τ → Prop
  | some b, t' => step' t b = some t'
  | none, t' => t' = t

/-- **Labelled simulation.**  When every guarded step is followed by the step that `erase` makes of
its action, or by none, every run is followed by a run. -/
theorem Run.follow (R : σ → τ → Prop) (erase : α → Option β) {t₀ : τ} (h0 : R s₀ t₀)
    (hstep : ∀ s a s' t, R s t → G s a → step s a = some s' →
      ∃ t', Follows step' t (erase a) t' ∧ R s' t')
    (h : Run step G s₀ as s) : ∃ t, Run step' free t₀ (as.filterMap erase) t ∧ R s t := by
  induction h with
  | nil => exact ⟨t₀, .nil, h0⟩
  | @snoc as s s' a _ hg hs ih =>
    obtain ⟨t, ht, hR⟩ := ih
    obtain ⟨t', hf, hR'⟩ := hstep s a s' t hR hg hs
    refine ⟨t', ?_, hR'⟩
    rw [List.filterMap_append, List.filterMap_cons, List.filterMap_nil]
    cases he : erase a with
    | none =>
      rw [he] at hf
      obtain rfl : t' = t := hf
      simpa using ht
    | some b =>
      rw [he] at hf
      exact ht.snoc trivial hf

/-- **A refinement mapping.**  When `abs` takes every step to the step that `erase` makes of its
action, or to no step, it takes every run to a run. -/
theorem Run.refine (abs : σ → τ) (erase : α → Option β) {I : σ → Prop} (h0 : I s₀)
    (hI : ∀ s a s', I s → G s a → step s a = some s' → I s')
    (hstep : ∀ s a s', I s → G s a → step s a = some s' →
      Follows step' (abs s) (erase a) (abs s'))
    (h : Run step G s₀ as s) : Run step' free (abs s₀) (as.filterMap erase) (abs s) := by
  obtain ⟨t, ht, -, rfl⟩ := h.follow (fun s t => I s ∧ t = abs s) erase ⟨h0, rfl⟩
    fun s a s' t hR hg hs => by
      obtain ⟨hi, rfl⟩ := hR
      exact ⟨abs s', hstep s a s' hi hg hs, hI s a s' hi hg hs, rfl⟩
  exact ht

/-- **Lifting along a refinement mapping.**  When every step of the image comes from a run, every
run of the image does. -/
theorem Run.lift (abs : σ → τ) (erase : α → Option β) {I : σ → Prop} (h0 : I s₀)
    (hI : ∀ s a s', I s → G s a → step s a = some s' → I s')
    (hlift : ∀ s b t, I s → step' (abs s) b = some t →
      ∃ as s', Run step G s as s' ∧ as.filterMap erase = [b] ∧ abs s' = t)
    {bs : List β} {t : τ} (h : Run step' free (abs s₀) bs t) :
    ∃ as s, Run step G s₀ as s ∧ as.filterMap erase = bs ∧ abs s = t := by
  induction h with
  | nil => exact ⟨[], s₀, .nil, rfl, rfl⟩
  | @snoc bs t t' b _ _ hs ih =>
    obtain ⟨as, s, hr, rfl, rfl⟩ := ih
    obtain ⟨as', s', hr', he, rfl⟩ := hlift s b t' (hr.invariant h0 hI) hs
    exact ⟨as ++ as', s', hr.append hr', by rw [List.filterMap_append, he], rfl⟩

/-- **A measure of the image.**  The steps that the image makes lower `ν`; between two of them at
most `b` are made, which `lag` counts down. -/
theorem Run.length_le_of_refine (abs : σ → τ) (erase : α → Option β) {I : σ → Prop} {ν : τ → ℕ}
    {lag : σ → ℕ} {b : ℕ} (h0 : I s₀) (hb : ∀ s, lag s ≤ b)
    (hI : ∀ s a s', I s → G s a → step s a = some s' → I s')
    (hmove : ∀ s a s', I s → G s a → step s a = some s' → (erase a).isSome →
      ν (abs s') < ν (abs s))
    (hwait : ∀ s a s', I s → G s a → step s a = some s' → erase a = none →
      abs s' = abs s ∧ lag s' < lag s)
    (h : Run step G s₀ as s) : as.length ≤ (b + 1) * ν (abs s₀) + lag s₀ := by
  have hstep : ∀ s a s', I s → G s a → step s a = some s' →
      I s' ∧ (b + 1) * ν (abs s') + lag s' < (b + 1) * ν (abs s) + lag s := by
    intro s a s' hi hg hs
    refine ⟨hI s a s' hi hg hs, ?_⟩
    cases he : erase a with
    | none =>
      obtain ⟨habs, hlt⟩ := hwait s a s' hi hg hs he
      rw [habs]
      exact Nat.add_lt_add_left hlt _
    | some c =>
      have hlt := hmove s a s' hi hg hs (by rw [he]; rfl)
      have hmul : (b + 1) * (ν (abs s') + 1) ≤ (b + 1) * ν (abs s) := Nat.mul_le_mul_left _ hlt
      have hle := hb s'
      rw [Nat.mul_succ] at hmul
      omega
  have hlen := h.length_le h0 hstep
  omega

end Refine

/-! ## Policies -/

section Policy

variable {step : σ → α → Option σ} {next : σ → Option α} {s s' t : σ} {a : α}

/-- The guard of the runs whose actions the policy `next` picks. -/
def follows (next : σ → Option α) (s : σ) (a : α) : Prop := next s = some a

/-- The policy takes `s` to `s'`, where it has no action. -/
def Settles (step : σ → α → Option σ) (next : σ → Option α) (s s' : σ) : Prop :=
  (∃ as, Run step (follows next) s as s') ∧ next s' = none

theorem settles_of_stop (h : next s = none) : Settles step next s s' ↔ s' = s := by
  constructor
  · rintro ⟨⟨as, hr⟩, -⟩
    cases as with
    | nil => exact hr.eq_of_nil
    | cons a as =>
      obtain ⟨t, hg, -⟩ := hr.of_cons
      rw [follows, h] at hg
      cases hg
  · rintro rfl
    exact ⟨⟨[], .nil⟩, h⟩

/-- The first step of a policy does not matter for where it ends. -/
theorem settles_of_step (ha : next s = some a) (hs : step s a = some t) :
    Settles step next s s' ↔ Settles step next t s' := by
  constructor
  · rintro ⟨⟨as, hr⟩, he⟩
    cases as with
    | nil =>
      rw [hr.eq_of_nil, ha] at he
      cases he
    | cons b as =>
      obtain ⟨u, hg, hu, hr⟩ := hr.of_cons
      obtain rfl := Option.some.inj (ha.symm.trans hg)
      obtain rfl := Option.some.inj (hs.symm.trans hu)
      exact ⟨⟨as, hr⟩, he⟩
  · rintro ⟨⟨as, hr⟩, he⟩
    exact ⟨⟨a :: as, hr.cons ha hs⟩, he⟩

/-- A policy whose action is not enabled gets nowhere. -/
theorem not_settles (ha : next s = some a) (hs : step s a = none) : ¬ Settles step next s s' := by
  rintro ⟨⟨as, hr⟩, he⟩
  cases as with
  | nil =>
    rw [hr.eq_of_nil, ha] at he
    cases he
  | cons b as =>
    obtain ⟨u, hg, hu, -⟩ := hr.of_cons
    obtain rfl := Option.some.inj (ha.symm.trans hg)
    rw [hs] at hu
    cases hu

end Policy

/-! ## Keeping a record -/

section Watch

variable {ω : Type*} {step : σ → α → Option σ} {emit : σ → α → List ω}

/-- The system together with a record of what its steps emit. -/
def watch (step : σ → α → Option σ) (emit : σ → α → List ω) (s : σ × List ω) (a : α) :
    Option (σ × List ω) :=
  (step s.1 a).map fun s' => (s', s.2 ++ emit s.1 a)

theorem watch_eq_some {s s' : σ × List ω} {a : α} :
    watch step emit s a = some s' ↔ step s.1 a = some s'.1 ∧ s'.2 = s.2 ++ emit s.1 a := by
  simp only [watch, Option.map_eq_some_iff]
  constructor
  · rintro ⟨t, ht, rfl⟩
    exact ⟨ht, rfl⟩
  · rintro ⟨ht, h2⟩
    exact ⟨s'.1, ht, by rw [← h2]⟩

theorem Run.watched {G : σ → α → Prop} {s₀ s : σ} {as : List α} (emit : σ → α → List ω)
    (h : Run step G s₀ as s) (log : List ω) :
    ∃ log', Run (watch step emit) (fun p a => G p.1 a) (s₀, log) as (s, log') := by
  induction h with
  | nil => exact ⟨log, .nil⟩
  | @snoc as s s' a _ hg hs ih =>
    obtain ⟨log', hr⟩ := ih
    exact ⟨log' ++ emit s a, hr.snoc hg (watch_eq_some.mpr ⟨hs, rfl⟩)⟩

theorem Run.unwatched {G : σ → α → Prop} {p₀ p : σ × List ω} {as : List α}
    (h : Run (watch step emit) (fun p a => G p.1 a) p₀ as p) : Run step G p₀.1 as p.1 := by
  induction h with
  | nil => exact .nil
  | snoc _ hg hs ih => exact ih.snoc hg (watch_eq_some.mp hs).1

/-- The record does not matter for a guard that does not look at it. -/
theorem Run.watched_iff {H : σ × List ω → α → Prop} {G : σ → α → Prop} {p₀ p : σ × List ω}
    {as : List α} (h : Run (watch step emit) H p₀ as p) :
    Run (watch step emit) (fun p a => G p.1 a) p₀ as p ↔ Run step G p₀.1 as p.1 := by
  constructor
  · exact Run.unwatched
  · intro hr
    obtain ⟨log, hlog⟩ := hr.watched emit p₀.2
    have he : (p.1, log) = p := h.unique hlog
    rwa [he] at hlog

/-- **The runs that record only `P`.**  When a step emits only what has `P` exactly if it meets the
guard `G`, a run meets `G` exactly if everything in its record has `P`. -/
theorem Run.record_iff {P : ω → Prop} {G H : σ × List ω → α → Prop} {p₀ p : σ × List ω}
    {as : List α} (h0 : ∀ o ∈ p₀.2, P o)
    (hstep : ∀ as p a s', Run (watch step emit) H p₀ as p → (∀ o ∈ p.2, P o) → H p a →
      step p.1 a = some s' → ((∀ o ∈ emit p.1 a, P o) ↔ G p a))
    (h : Run (watch step emit) H p₀ as p) :
    Run (watch step emit) (fun p a => H p a ∧ G p a) p₀ as p ↔ ∀ o ∈ p.2, P o := by
  induction h with
  | nil =>
    constructor
    · intro _
      exact h0
    · intro _
      exact .nil
  | @snoc as p p' a h hh hs ih =>
    obtain ⟨hst, hrec⟩ := watch_eq_some.mp hs
    rw [hrec, List.forall_mem_append]
    constructor
    · intro hr
      obtain ⟨q, hq, hg, -⟩ := hr.of_snoc
      obtain rfl := h.unique hq
      have hP := ih.mp hq
      exact ⟨hP, (hstep as _ a _ h hP hh hst).mpr hg.2⟩
    · rintro ⟨hP, hnew⟩
      exact (ih.mpr hP).snoc ⟨hh, (hstep as p a _ h hP hh hst).mp hnew⟩ hs

/-- `Run.record_iff` where an invariant tells what a step emits and the guard looks at the state. -/
theorem Run.emits_iff {I : σ → Prop} {P : ω → Prop} {G : σ → α → Prop} {s₀ : σ}
    {p : σ × List ω} {as : List α} (h0 : I s₀)
    (hI : ∀ s a s', I s → step s a = some s' → I s')
    (hstep : ∀ s a s', I s → step s a = some s' → ((∀ o ∈ emit s a, P o) ↔ G s a))
    (h : Run (watch step emit) free (s₀, []) as p) :
    (∀ o ∈ p.2, P o) ↔ Run step G s₀ as p.1 := by
  have hinv : ∀ {bs q}, Run (watch step emit) free (s₀, []) bs q → I q.1 := fun hr =>
    hr.invariant (I := fun q => I q.1) h0 fun _ _ _ hi _ hs => hI _ _ _ hi (watch_eq_some.mp hs).1
  have hrec := h.record_iff (P := P) (G := fun p a => G p.1 a) (by simp)
    fun _ _ _ _ hr _ _ hs => hstep _ _ _ (hinv hr) hs
  simp only [free, true_and] at hrec
  rw [← hrec]
  exact h.watched_iff

end Watch

/-! ## Executing a list of actions -/

/-- Run the actions in order; `none` when a step is not enabled or does not meet the guard. -/
def exec (step : σ → α → Option σ) (G : σ → α → Prop) [∀ s a, Decidable (G s a)] (s : σ) :
    List α → Option σ
  | [] => some s
  | a :: as => if G s a then (step s a).bind fun s' => exec step G s' as else none

theorem Run.of_exec {step : σ → α → Option σ} {G : σ → α → Prop} [∀ s a, Decidable (G s a)]
    {as : List α} : ∀ {s₀ s : σ}, exec step G s₀ as = some s → Run step G s₀ as s := by
  induction as with
  | nil =>
    intro s₀ s h
    simp only [exec, Option.some.injEq] at h
    exact h ▸ .nil
  | cons a as ih =>
    intro s₀ s h
    simp only [exec, Option.ite_none_right_eq_some, Option.bind_eq_some_iff] at h
    obtain ⟨hg, s₁, hs, hr⟩ := h
    exact .cons hg hs (ih hr)

/-- A run that ends in a state with `p`, read off an execution. -/
theorem Run.exists_of_exec {step : σ → α → Option σ} {G : σ → α → Prop}
    [∀ s a, Decidable (G s a)] {s₀ : σ} (as : List α) (p : σ → Prop) [DecidablePred p]
    (h : ((exec step G s₀ as).any fun s => decide (p s)) = true) :
    ∃ s, Run step G s₀ as s ∧ p s := by
  cases hr : exec step G s₀ as with
  | none => simp [hr] at h
  | some s =>
    simp only [hr, Option.any_some, decide_eq_true_eq] at h
    exact ⟨s, .of_exec hr, h⟩

end PracticeCode.Lib
