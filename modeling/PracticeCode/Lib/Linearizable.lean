import PracticeCode.Lib.Run

/-!
# Linearizability

An object is given by what an operation does when it runs alone.  A history is what its clients see
when they use it at the same time: calls, and returns with their results.

* `Linearizes` — the operations of a history, put in one order that the object allows: every client
  gets the results it saw, and what had returned when an operation was called comes before it;
* `Atomic` — the object with its clients, each operation taking effect in one step between its call
  and its return;
* `linearizes_of_run` — the histories of `Atomic` can be linearized.  So it is enough to simulate an
  implementation by `Atomic`, with the same calls and returns.
-/

namespace PracticeCode.Lib

variable {σ ω ρ : Type*}

/-- What an operation does when it runs alone; `none` where it has to wait. -/
abbrev Object (σ ω ρ : Type*) := σ → ω → Option (σ × ρ)

inductive Event (ω ρ : Type*) where
  | call (i : ℕ) (o : ω)
  | ret (i : ℕ) (r : ρ)
  deriving DecidableEq

/-- The operations that client `i` called. -/
def called (i : ℕ) (h : List (Event ω ρ)) : List ω :=
  h.filterMap fun
    | .call j o => if j = i then some o else none
    | .ret _ _ => none

/-- The results that client `i` got. -/
def returned (i : ℕ) (h : List (Event ω ρ)) : List ρ :=
  h.filterMap fun
    | .call _ _ => none
    | .ret j r => if j = i then some r else none

/-- An operation that took effect: its client, the operation and its result. -/
abbrev Effect (ω ρ : Type*) := ℕ × ω × ρ

/-- The effects of client `i`. -/
def effects (i : ℕ) (l : List (Effect ω ρ)) : List (ω × ρ) :=
  l.filterMap fun e => if e.1 = i then some e.2 else none

/-- The object allows the effects in this order. -/
def Legal (obj : Object σ ω ρ) (s₀ : σ) (l : List (Effect ω ρ)) (s : σ) : Prop :=
  Run (fun s e => (obj s e.2.1).map Prod.fst)
    (fun s e => (obj s e.2.1).map Prod.snd = some e.2.2) s₀ l s

/-- When the history is `h`, the effects `l` are all that have happened: a client has its results
from there, and nothing is there that it did not call. -/
def Matches (h : List (Event ω ρ)) (l : List (Effect ω ρ)) : Prop :=
  ∀ i, returned i h <+: (effects i l).map Prod.snd ∧ (effects i l).map Prod.fst <+: called i h

/-- **Linearizability**: the effects are legal, and at every moment of the history some first part
of them has happened.  An operation that had returned at that moment is in it, and one that was not
called yet is not. -/
def Linearizes (obj : Object σ ω ρ) (s₀ : σ) (h : List (Event ω ρ))
    (l : List (Effect ω ρ)) : Prop :=
  (∃ s, Legal obj s₀ l s) ∧ ∀ h₁, h₁ <+: h → ∃ l₁, l₁ <+: l ∧ Matches h₁ l₁

section Lists

variable (i : ℕ) (h h' : List (Event ω ρ)) (l l' : List (Effect ω ρ))

@[simp] theorem called_nil : called i ([] : List (Event ω ρ)) = [] := rfl

@[simp] theorem returned_nil : returned i ([] : List (Event ω ρ)) = [] := rfl

@[simp] theorem effects_nil : effects i ([] : List (Effect ω ρ)) = [] := rfl

theorem called_append : called i (h ++ h') = called i h ++ called i h' := List.filterMap_append

theorem returned_append : returned i (h ++ h') = returned i h ++ returned i h' :=
  List.filterMap_append

theorem effects_append : effects i (l ++ l') = effects i l ++ effects i l' :=
  List.filterMap_append

theorem called_call (j : ℕ) (o : ω) :
    called i [(.call j o : Event ω ρ)] = if j = i then [o] else [] := by
  simp only [called, List.filterMap_cons, List.filterMap_nil]
  split <;> simp_all

theorem returned_ret (j : ℕ) (r : ρ) :
    returned i [(.ret j r : Event ω ρ)] = if j = i then [r] else [] := by
  simp only [returned, List.filterMap_cons, List.filterMap_nil]
  split <;> simp_all

@[simp] theorem called_ret (j : ℕ) (r : ρ) : called i [(.ret j r : Event ω ρ)] = [] := rfl

@[simp] theorem returned_call (j : ℕ) (o : ω) : returned i [(.call j o : Event ω ρ)] = [] := rfl

theorem effects_singleton (e : Effect ω ρ) :
    effects i [e] = if e.1 = i then [e.2] else [] := by
  simp only [effects, List.filterMap_cons, List.filterMap_nil]
  split <;> simp_all

end Lists

/-! ## The object with its clients -/

inductive Client (ω ρ : Type*) where
  | idle
  /-- The operation is called and has not taken effect yet. -/
  | asked (o : ω)
  /-- It took effect and has not returned yet. -/
  | done (r : ρ)

structure Atomic (σ ω ρ : Type*) where
  obj : σ
  client : ℕ → Client ω ρ

namespace Atomic

inductive Act (ω : Type*) where
  | call (i : ℕ) (o : ω)
  | commit (i : ℕ)
  | ret (i : ℕ)

def init (s₀ : σ) : Atomic σ ω ρ := ⟨s₀, fun _ => .idle⟩

/-- The object is `x` now, and client `i` goes on as `c`. -/
def put (s : Atomic σ ω ρ) (x : σ) (i : ℕ) (c : Client ω ρ) : Atomic σ ω ρ :=
  ⟨x, Function.update s.client i c⟩

theorem put_client (s : Atomic σ ω ρ) (x : σ) (i j : ℕ) (c : Client ω ρ) :
    (s.put x i c).client j = if j = i then c else s.client j :=
  Function.update_apply _ _ _ _

def step (obj : Object σ ω ρ) (s : Atomic σ ω ρ) : Act ω → Option (Atomic σ ω ρ)
  | .call i o => match s.client i with
    | .idle => some (s.put s.obj i (.asked o))
    | _ => none
  | .commit i => match s.client i with
    | .asked o => (obj s.obj o).map fun p => s.put p.1 i (.done p.2)
    | _ => none
  | .ret i => match s.client i with
    | .done _ => some (s.put s.obj i .idle)
    | _ => none

def events (s : Atomic σ ω ρ) : Act ω → List (Event ω ρ)
  | .call i o => [.call i o]
  | .commit _ => []
  | .ret i => match s.client i with
    | .done r => [.ret i r]
    | _ => []

end Atomic

/-! ## The effects of a run -/

/-- What a client called that has not taken effect yet. -/
def Client.pending : Client ω ρ → List ω
  | .asked o => [o]
  | _ => []

/-- The result that a client has not got yet. -/
def Client.result : Client ω ρ → List ρ
  | .done r => [r]
  | _ => []

/-- The effects `l` have happened in the state and the history `p`. -/
structure Tracks (obj : Object σ ω ρ) (s₀ : σ) (p : Atomic σ ω ρ × List (Event ω ρ))
    (l : List (Effect ω ρ)) : Prop where
  legal : Legal obj s₀ l p.1.obj
  called : ∀ i, called i p.2 = (effects i l).map Prod.fst ++ (p.1.client i).pending
  returned : ∀ i, (effects i l).map Prod.snd = returned i p.2 ++ (p.1.client i).result
  order : ∀ h₁, h₁ <+: p.2 → ∃ l₁, l₁ <+: l ∧ Matches h₁ l₁

section Steps

variable {obj : Object σ ω ρ} {s₀ : σ} {p : Atomic σ ω ρ × List (Event ω ρ)}
  {l : List (Effect ω ρ)} {i : ℕ}

theorem tracks_init (obj : Object σ ω ρ) (s₀ : σ) : Tracks obj s₀ (Atomic.init s₀, []) [] where
  legal := .nil
  called _ := rfl
  returned _ := rfl
  order h₁ h := by
    obtain rfl := List.prefix_nil.mp h
    exact ⟨[], List.nil_prefix, fun i => ⟨List.nil_prefix, List.nil_prefix⟩⟩

/-- The prefixes of a longer history are the old ones and the whole of it. -/
theorem order_snoc {h : List (Event ω ρ)} {l l' : List (Effect ω ρ)} (e : Event ω ρ)
    (ho : ∀ h₁, h₁ <+: h → ∃ l₁, l₁ <+: l ∧ Matches h₁ l₁) (hl : l <+: l')
    (hm : Matches (h ++ [e]) l') :
    ∀ h₁, h₁ <+: h ++ [e] → ∃ l₁, l₁ <+: l' ∧ Matches h₁ l₁ := by
  intro h₁ hp
  rcases List.prefix_concat_iff.mp hp with rfl | hp
  · exact ⟨l', List.prefix_rfl, hm⟩
  · obtain ⟨l₁, hl₁, hm₁⟩ := ho h₁ hp
    exact ⟨l₁, hl₁.trans hl, hm₁⟩

theorem matches_of_eq {h : List (Event ω ρ)} {c : ℕ → Client ω ρ}
    (hc : ∀ i, called i h = (effects i l).map Prod.fst ++ (c i).pending)
    (hr : ∀ i, (effects i l).map Prod.snd = returned i h ++ (c i).result) : Matches h l := by
  intro i
  rw [hc i, hr i]
  exact ⟨List.prefix_append _ _, List.prefix_append _ _⟩

theorem Tracks.call (h : Tracks obj s₀ p l) (hi : p.1.client i = .idle) (o : ω) :
    Tracks obj s₀ (p.1.put p.1.obj i (.asked o), p.2 ++ [.call i o]) l := by
  have hc : ∀ j, Lib.called j (p.2 ++ [.call i o]) =
      (effects j l).map Prod.fst ++ ((p.1.put p.1.obj i (.asked o)).client j).pending := by
    intro j
    rw [called_append, called_call, h.called j, Atomic.put_client]
    by_cases e : j = i
    · subst e
      simp [hi, Client.pending]
    · simp [e, Ne.symm e]
  have hr : ∀ j, (effects j l).map Prod.snd =
      Lib.returned j (p.2 ++ [.call i o]) ++ ((p.1.put p.1.obj i (.asked o)).client j).result := by
    intro j
    rw [returned_append, returned_call, h.returned j, Atomic.put_client]
    by_cases e : j = i
    · subst e
      simp [hi, Client.result]
    · simp [e]
  exact ⟨h.legal, hc, hr, order_snoc _ h.order List.prefix_rfl (matches_of_eq hc hr)⟩

theorem Tracks.ret (h : Tracks obj s₀ p l) {r : ρ} (hi : p.1.client i = .done r) :
    Tracks obj s₀ (p.1.put p.1.obj i .idle, p.2 ++ [.ret i r]) l := by
  have hc : ∀ j, Lib.called j (p.2 ++ [.ret i r]) =
      (effects j l).map Prod.fst ++ ((p.1.put p.1.obj i .idle).client j).pending := by
    intro j
    rw [called_append, called_ret, h.called j, Atomic.put_client]
    by_cases e : j = i
    · subst e
      simp [hi, Client.pending]
    · simp [e]
  have hr : ∀ j, (effects j l).map Prod.snd =
      Lib.returned j (p.2 ++ [.ret i r]) ++ ((p.1.put p.1.obj i .idle).client j).result := by
    intro j
    rw [returned_append, returned_ret, h.returned j, Atomic.put_client]
    by_cases e : j = i
    · subst e
      simp [hi, Client.result]
    · simp [e, Ne.symm e]
  exact ⟨h.legal, hc, hr, order_snoc _ h.order List.prefix_rfl (matches_of_eq hc hr)⟩

theorem Tracks.commit (h : Tracks obj s₀ p l) {o : ω} {q : σ × ρ} (hi : p.1.client i = .asked o)
    (hq : obj p.1.obj o = some q) :
    Tracks obj s₀ (p.1.put q.1 i (.done q.2), p.2) (l ++ [(i, o, q.2)]) where
  legal := Run.snoc h.legal (by simp [hq]) (by simp [hq, Atomic.put])
  called j := by
    change Lib.called j p.2 = _ ++ ((p.1.put q.1 i (.done q.2)).client j).pending
    rw [h.called j, effects_append, effects_singleton, List.map_append, Atomic.put_client]
    by_cases e : j = i
    · subst e
      simp [hi, Client.pending]
    · simp [e, Ne.symm e]
  returned j := by
    change _ = Lib.returned j p.2 ++ ((p.1.put q.1 i (.done q.2)).client j).result
    rw [effects_append, effects_singleton, List.map_append, h.returned j, Atomic.put_client]
    by_cases e : j = i
    · subst e
      simp [hi, Client.result]
    · simp [e, Ne.symm e]
  order h₁ hp := by
    obtain ⟨l₁, hl₁, hm⟩ := h.order h₁ hp
    exact ⟨l₁, hl₁.trans (List.prefix_append _ _), hm⟩

/-- **The step lemma.** -/
theorem tracks_step {a : Atomic.Act ω} {p' : Atomic σ ω ρ × List (Event ω ρ)}
    (h : ∃ l, Tracks obj s₀ p l) (hs : watch (Atomic.step obj) Atomic.events p a = some p') :
    ∃ l, Tracks obj s₀ p' l := by
  obtain ⟨l, h⟩ := h
  obtain ⟨hst, hrec⟩ := watch_eq_some.mp hs
  obtain ⟨s', h'⟩ := p'
  obtain rfl : h' = p.2 ++ Atomic.events p.1 a := hrec
  cases a with
  | call i o =>
    simp only [Atomic.step] at hst
    split at hst
    · rename_i hi
      obtain rfl := Option.some.inj hst
      exact ⟨l, h.call hi o⟩
    · cases hst
  | commit i =>
    simp only [Atomic.step] at hst
    split at hst
    · rename_i o hi
      obtain ⟨q, hq, rfl⟩ := Option.map_eq_some_iff.mp hst
      rw [Atomic.events, List.append_nil]
      exact ⟨_, h.commit hi hq⟩
    · cases hst
  | ret i =>
    simp only [Atomic.step] at hst
    split at hst
    · rename_i r hi
      obtain rfl := Option.some.inj hst
      rw [Atomic.events, hi]
      exact ⟨l, h.ret hi⟩
    · cases hst

/-- **The run lemma**: a history of the object with its clients can be linearized. -/
theorem linearizes_of_run {as : List (Atomic.Act ω)}
    (h : Run (watch (Atomic.step obj) Atomic.events) free (Atomic.init s₀, []) as p) :
    ∃ l, Linearizes obj s₀ p.2 l := by
  obtain ⟨l, hl⟩ := h.invariant (I := fun p => ∃ l, Tracks obj s₀ p l) ⟨[], tracks_init obj s₀⟩
    fun _ _ _ hI _ hs => tracks_step hI hs
  exact ⟨l, ⟨_, hl.legal⟩, hl.order⟩

end Steps

end PracticeCode.Lib
