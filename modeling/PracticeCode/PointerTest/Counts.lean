import PracticeCode.Lib.Slots
import PracticeCode.PointerTest.Defs

/-!
# The counts of `U_Ptr` are exact

`Counts h ts`: with `ts` what the objects refer to, every `U_Ptr` that is referred to is there, its
`use` is the number of references, and it has an `int` of its own.

`counts_exact`: this holds in every state of every program, and no operation of a program touches
deleted memory or deletes twice.  An assignment passes through a state where the reference it adds
is counted and the one it gives up still is, so each half of it is a lemma about `ts` with one
reference more.
-/

namespace PracticeCode.PointerTest

open Lib

structure Counts (h : Heap) (ts : List (Option Addr)) : Prop where
  alive : ∀ {u}, some u ∈ ts → h.uptrs u ≠ none
  use : ∀ {u c}, h.uptrs u = some c → c.use = ts.count (some u)
  int : ∀ {u c}, h.uptrs u = some c → h.ints c.p ≠ none
  own : ∀ {u u' c c'}, h.uptrs u = some c → h.uptrs u' = some c' → c.p = c'.p → u = u'
  owned : ∀ {p}, h.ints p ≠ none → ∃ u c, h.uptrs u = some c ∧ c.p = p

/-- A `U_Ptr` that no object can reach any more. -/
def Leaked (h : Heap) (ts : List (Option Addr)) (u : Addr) : Prop :=
  h.uptrs u ≠ none ∧ some u ∉ ts

theorem init_counts : Counts init.heap init.targets where
  alive h := by cases h
  use h := by cases h
  int h := by cases h
  own h := by cases h
  owned h := absurd rfl h

section Heap

variable {h h' : Heap} {ts ts' : List (Option Addr)} {u v : Addr} {c : U_Ptr}

/-- Only the number of the references counts. -/
theorem Counts.congr (hc : ∀ u, ts'.count (some u) = ts.count (some u)) (h0 : Counts h ts) :
    Counts h ts' where
  alive {u} hu := by
    apply h0.alive
    rw [← List.count_pos_iff, ← hc]
    exact List.count_pos_iff.mpr hu
  use hu := by rw [hc]; exact h0.use hu
  int := h0.int
  own := h0.own
  owned := h0.owned

theorem Counts.cons_none : Counts h (none :: ts) ↔ Counts h ts := by
  constructor <;> exact Counts.congr fun u => by simp

theorem Counts.count_eq_zero (h0 : Counts h ts) (hu : h.uptrs u = none) : ts.count (some u) = 0 :=
  List.count_eq_zero.mpr fun hm => h0.alive hm hu

/-- The reference that replaces another one. -/
theorem count_set_cons {x y : Option Addr} {i : ℕ} (hi : ts[i]? = some x) (z : Option Addr) :
    (x :: ts.set i y).count z = (y :: ts).count z := by
  obtain ⟨hlt, rfl⟩ := List.getElem?_eq_some_iff.mp hi
  have hmem : (ts[i] == z) = true → 0 < ts.count z := fun e =>
    List.count_pos_iff.mpr (eq_of_beq e ▸ List.getElem_mem hlt)
  rw [List.count_cons, List.count_cons, List.count_set hlt]
  split
  · have := hmem ‹_›
    split <;> omega
  · split <;> omega

/-! ## What the members do to the heap -/

theorem Counts.newUPtr {p : Addr} {x : ℤ} (h0 : Counts h ts) (hu : h.uptrs u = none)
    (hp : h.ints p = none) : Counts (h.newUPtr u p x) (some u :: ts) := by
  have hne : ∀ {v d}, h.uptrs v = some d → d.p ≠ p := fun hv e => h0.int hv (e ▸ hp)
  refine ⟨fun {v} hv => ?_, fun {v d} hv => ?_, fun {v d} hv => ?_, fun {v w d e} hv hw hpe => ?_,
    fun {q} hq => ?_⟩
  · simp only [Heap.newUPtr, Function.update_apply]
    split
    · simp
    · rename_i hvu
      have : some v ∈ ts := by simpa [hvu] using hv
      exact h0.alive this
  · simp only [Heap.newUPtr, Function.update_apply] at hv
    split at hv
    · rename_i hvu
      obtain rfl := Option.some.inj hv
      subst hvu
      rw [List.count_cons_self, h0.count_eq_zero hu]
    · rename_i hvu
      rw [List.count_cons_of_ne (by simpa using Ne.symm hvu)]
      exact h0.use hv
  · simp only [Heap.newUPtr, Function.update_apply] at hv ⊢
    split at hv
    · obtain rfl := Option.some.inj hv
      simp
    · rw [if_neg (hne hv)]
      exact h0.int hv
  · simp only [Heap.newUPtr, Function.update_apply] at hv hw
    split at hv <;> split at hw
    · rename_i h1 h2
      rw [h1, h2]
    · obtain rfl := Option.some.inj hv
      exact absurd hpe.symm (hne hw)
    · obtain rfl := Option.some.inj hw
      exact absurd hpe (hne hv)
    · exact h0.own hv hw hpe
  · simp only [Heap.newUPtr, Function.update_apply] at hq ⊢
    by_cases e : q = p
    · exact ⟨u, ⟨p, 1⟩, by simp, e.symm⟩
    · rw [if_neg e] at hq
      obtain ⟨v, d, hv, hd⟩ := h0.owned hq
      refine ⟨v, d, ?_, hd⟩
      rw [if_neg (by rintro rfl; rw [hu] at hv; cases hv)]
      exact hv

/-- Another `use` at one `U_Ptr`, and nothing else. -/
theorem Counts.setUse {n : ℕ} (h0 : Counts h ts) (hu : h.uptrs u = some c)
    (hn : ts'.count (some u) = n) (hts : ∀ v ≠ u, ts'.count (some v) = ts.count (some v)) :
    Counts { h with uptrs := Function.update h.uptrs u (some { c with use := n }) } ts' := by
  refine ⟨fun {v} hv => ?_, fun {v d} hv => ?_, fun {v d} hv => ?_, fun {v w d e} hv hw hpe => ?_,
    fun {q} hq => ?_⟩
  · simp only [Function.update_apply]
    split
    · simp
    · rename_i hvu
      apply h0.alive
      rw [← List.count_pos_iff, ← hts v hvu]
      exact List.count_pos_iff.mpr hv
  · simp only [Function.update_apply] at hv
    split at hv
    · rename_i hvu
      obtain rfl := Option.some.inj hv
      rw [hvu, hn]
    · rename_i hvu
      rw [hts v hvu]
      exact h0.use hv
  · simp only [Function.update_apply] at hv
    split at hv
    · obtain rfl := Option.some.inj hv
      have hint : h.ints c.p ≠ none := h0.int hu
      exact hint
    · exact h0.int hv
  · simp only [Function.update_apply] at hv hw
    split at hv <;> split at hw
    · rename_i h1 h2
      rw [h1, h2]
    · rename_i h1 _
      obtain rfl := Option.some.inj hv
      rw [h1]
      exact h0.own hu hw hpe
    · rename_i _ h2
      obtain rfl := Option.some.inj hw
      rw [h2]
      exact h0.own hv hu hpe
    · exact h0.own hv hw hpe
  · obtain ⟨v, d, hv, hd⟩ := h0.owned hq
    by_cases e : v = u
    · subst e
      rw [hu] at hv
      obtain rfl := Option.some.inj hv
      exact ⟨v, _, Function.update_self .., hd⟩
    · exact ⟨v, d, by simpa [Function.update_of_ne e] using hv, hd⟩

theorem Counts.incUse (h0 : Counts h ts) (hu : some u ∈ ts) : ∃ h', h.incUse u = some h' ∧
    Counts h' (some u :: ts) ∧ ∀ v, h'.uptrs v = none ↔ h.uptrs v = none := by
  obtain ⟨c, hc⟩ := Option.ne_none_iff_exists'.mp (h0.alive hu)
  refine ⟨_, by rw [Heap.incUse, hc]; rfl, h0.setUse hc ?_ fun v hv => ?_, fun v => ?_⟩
  · rw [List.count_cons_self, h0.use hc]
  · rw [List.count_cons_of_ne (by simpa using Ne.symm hv)]
  · simp only [Function.update_apply]
    split <;> simp_all

theorem Counts.decUse (h0 : Counts h (some u :: ts)) : ∃ h',
    h.decUse u = some (ts.count (some u), h') ∧ Counts h' ts ∧
      ∀ v, h'.uptrs v = none ↔ h.uptrs v = none := by
  obtain ⟨c, hc⟩ := Option.ne_none_iff_exists'.mp (h0.alive (List.mem_cons_self ..))
  have huse : c.use - 1 = ts.count (some u) := by
    rw [h0.use hc, List.count_cons_self]
    rfl
  refine ⟨_, by rw [Heap.decUse, hc, Option.map_some, huse], h0.setUse hc rfl fun v hv => ?_,
    fun v => ?_⟩
  · rw [List.count_cons_of_ne (by simpa using Ne.symm hv)]
  · simp only [Function.update_apply]
    split <;> simp_all

theorem Counts.delete (h0 : Counts h ts) (hu : h.uptrs u ≠ none) (hz : ts.count (some u) = 0) :
    ∃ h', h.delete u = some h' ∧ Counts h' ts ∧
      ∀ v, h'.uptrs v = none ↔ h.uptrs v = none ∨ v = u := by
  obtain ⟨c, hc⟩ := Option.ne_none_iff_exists'.mp hu
  obtain ⟨x, hx⟩ := Option.ne_none_iff_exists'.mp (h0.int hc)
  refine ⟨_, by rw [Heap.delete, hc, Option.bind_some, hx, Option.map_some],
    ⟨fun {v} hv => ?_, fun {v d} hv => ?_, fun {v d} hv => ?_, fun {v w d e} hv hw hpe => ?_,
      fun {q} hq => ?_⟩, fun v => ?_⟩
  · have hvu : v ≠ u := by
      rintro rfl
      exact List.count_eq_zero.mp hz hv
    simp only [Function.update_of_ne hvu]
    exact h0.alive hv
  · simp only [Function.update_apply] at hv
    split at hv
    · cases hv
    · exact h0.use hv
  · simp only [Function.update_apply] at hv
    split at hv
    · cases hv
    · rename_i hvu
      have hne : d.p ≠ c.p := fun e => hvu (h0.own hv hc e)
      simp only [Function.update_of_ne hne]
      exact h0.int hv
  · simp only [Function.update_apply] at hv hw
    split at hv <;> split at hw
    · cases hv
    · cases hv
    · cases hw
    · exact h0.own hv hw hpe
  · simp only [Function.update_apply] at hq ⊢
    split at hq
    · exact absurd rfl hq
    · rename_i hqc
      obtain ⟨v, d, hv, hd⟩ := h0.owned hq
      refine ⟨v, d, ?_, hd⟩
      rw [if_neg ?_]
      · exact hv
      · rintro rfl
        rw [hc] at hv
        obtain rfl := Option.some.inj hv
        exact hqc hd.symm
  · simp only [Function.update_apply]
    split <;> simp_all

/-! ## The members of `IntPtr` -/

theorem Counts.copyConstruct {obj : IntPtr} (h0 : Counts h ts) (hu : obj.ptr = some u)
    (hm : some u ∈ ts) : ∃ h', h.copyConstruct obj = some h' ∧ Counts h' (some u :: ts) ∧
      ∀ v, h'.uptrs v = none ↔ h.uptrs v = none := by
  rw [Heap.copyConstruct, hu]
  exact h0.incUse hm

theorem Counts.assignAdd {obj : IntPtr} (h0 : Counts h ts) (hobj : obj.ptr ∈ ts) :
    ∃ h', h.assignAdd obj = some h' ∧ Counts h' (obj.ptr :: ts) ∧
      ∀ v, h'.uptrs v = none ↔ h.uptrs v = none := by
  unfold Heap.assignAdd
  cases ho : obj.ptr with
  | none => exact ⟨h, rfl, Counts.cons_none.mpr h0, fun v => Iff.rfl⟩
  | some u => exact h0.incUse (ho ▸ hobj)

theorem Counts.assignSub {this : IntPtr} (h0 : Counts h (this.ptr :: ts)) :
    ∃ h', h.assignSub this = some h' ∧ Counts h' ts ∧
      ∀ v, h'.uptrs v = none ↔ h.uptrs v = none ∨ this.ptr = some v ∧ some v ∉ ts := by
  unfold Heap.assignSub
  cases ht : this.ptr with
  | none =>
    rw [ht] at h0
    exact ⟨h, rfl, Counts.cons_none.mp h0, fun v => by simp⟩
  | some u =>
    rw [ht] at h0
    obtain ⟨h₁, hd, h1, hv⟩ := h0.decUse
    have hu : h.uptrs u ≠ none := h0.alive (List.mem_cons_self ..)
    simp only [hd, Option.bind_some, Option.some.injEq]
    by_cases hz : ts.count (some u) = 0
    · obtain ⟨h₂, hdel, h2, hv'⟩ := h1.delete (fun e => hu ((hv u).mp e)) hz
      refine ⟨h₂, by rw [if_pos hz, hdel], h2, fun v => ?_⟩
      rw [hv', hv]
      constructor
      · rintro (hn | rfl)
        · exact .inl hn
        · exact .inr ⟨rfl, List.count_eq_zero.mp hz⟩
      · rintro (hn | ⟨rfl, -⟩)
        · exact .inl hn
        · exact .inr rfl
    · refine ⟨h₁, if_neg hz, h1, fun v => ?_⟩
      rw [hv]
      constructor
      · exact .inl
      · rintro (hn | ⟨rfl, hn⟩)
        · exact hn
        · exact absurd (List.count_eq_zero.mpr hn) hz

/-- The reference of the right side is there before the one of the left side goes, so that an
assignment of an object to itself deletes nothing. -/
theorem Counts.assign {this obj : IntPtr} {i : ℕ} (h0 : Counts h ts)
    (hthis : ts[i]? = some this.ptr) (hobj : obj.ptr ∈ ts) :
    ∃ h', h.assign this obj = some h' ∧ Counts h' (ts.set i obj.ptr) ∧
      ∀ v, h'.uptrs v = none ↔
        h.uptrs v = none ∨ this.ptr = some v ∧ some v ∉ ts.set i obj.ptr := by
  obtain ⟨h₁, hadd, h1, hv⟩ := h0.assignAdd hobj
  have h2 : Counts h₁ (this.ptr :: ts.set i obj.ptr) := h1.congr fun v => count_set_cons hthis _
  obtain ⟨h₂, hsub, h3, hv'⟩ := h2.assignSub
  refine ⟨h₂, by rw [Heap.assign, hadd, Option.bind_some, hsub], h3, fun v => ?_⟩
  rw [hv', hv]

theorem Counts.destruct {this : IntPtr} {i : ℕ} (h0 : Counts h ts)
    (hthis : ts[i]? = some this.ptr) : ∃ h', h.destruct this = some h' ∧
      Counts h' (ts.set i none) ∧ ∀ v, h'.uptrs v = none ↔ h.uptrs v = none := by
  have h1 : Counts h (this.ptr :: ts.set i none) :=
    (Counts.cons_none.mpr h0).congr fun v => count_set_cons hthis _
  unfold Heap.destruct
  cases ht : this.ptr with
  | none =>
    rw [ht] at h1
    exact ⟨h, rfl, Counts.cons_none.mp h1, fun v => Iff.rfl⟩
  | some u =>
    rw [ht] at h1
    obtain ⟨h', hd, h2, hv⟩ := h1.decUse
    exact ⟨h', by simp only [hd, Option.map_some], h2, hv⟩

theorem Counts.get_val {this : IntPtr} (h0 : Counts h ts) (hu : this.ptr = some u)
    (hm : some u ∈ ts) : ∃ x, h.get_val this = some x := by
  obtain ⟨c, hc⟩ := Option.ne_none_iff_exists'.mp (h0.alive hm)
  obtain ⟨x, hx⟩ := Option.ne_none_iff_exists'.mp (h0.int hc)
  exact ⟨x, by simp [Heap.get_val, hu, hc, hx]⟩

theorem Counts.set_val {this : IntPtr} (h0 : Counts h ts) (hu : this.ptr = some u)
    (hm : some u ∈ ts) (val : ℤ) : ∃ h', h.set_val this val = some h' ∧ Counts h' ts ∧
      ∀ v, h'.uptrs v = none ↔ h.uptrs v = none := by
  obtain ⟨c, hc⟩ := Option.ne_none_iff_exists'.mp (h0.alive hm)
  obtain ⟨x, hx⟩ := Option.ne_none_iff_exists'.mp (h0.int hc)
  have hint : ∀ p, Function.update h.ints c.p (some val) p = none ↔ h.ints p = none := by
    intro p
    rw [Function.update_apply]
    split <;> simp_all
  refine ⟨{ h with ints := Function.update h.ints c.p (some val) },
    by simp [Heap.set_val, hu, hc, hx], ⟨h0.alive, h0.use, fun hv => ?_, h0.own, fun hp => ?_⟩,
    fun v => Iff.rfl⟩
  · exact fun e => h0.int hv ((hint _).mp e)
  · exact h0.owned fun e => hp ((hint _).mpr e)

end Heap

/-! ## A step of a program -/

section Step

variable {s s' : State} {op : Op} {a : ℕ} {this : IntPtr}

@[simp] theorem targets_push (h : Heap) (obj : IntPtr) :
    State.targets ⟨h, s.handles ++ [some obj]⟩ = s.targets ++ [obj.ptr] := by
  simp [State.targets]

@[simp] theorem targets_set (h : Heap) (i : ℕ) (o : Option IntPtr) :
    State.targets ⟨h, s.handles.set i o⟩ = s.targets.set i (o.bind IntPtr.ptr) := by
  simp [State.targets, List.map_set]

theorem target_of_handle (h : s.handle a = some this) : s.targets[a]? = some this.ptr := by
  rw [State.handle, Option.join_eq_some_iff] at h
  rw [State.targets, List.getElem?_map, h]
  rfl

theorem ptr_mem_targets (h : s.handle a = some this) : this.ptr ∈ s.targets :=
  List.mem_of_getElem? (target_of_handle h)

theorem exists_of_nonNull (h : s.NonNull a) :
    ∃ this u, s.handle a = some this ∧ this.ptr = some u ∧ some u ∈ s.targets := by
  obtain ⟨u, hu⟩ := Option.isSome_iff_exists.mp h
  obtain ⟨this, hthis, hp⟩ := Option.bind_eq_some_iff.mp hu
  exact ⟨this, u, hthis, hp, hp ▸ ptr_mem_targets hthis⟩

theorem Counts.push {h : Heap} {ts : List (Option Addr)} {x : Option Addr}
    (h0 : Counts h (x :: ts)) : Counts h (ts ++ [x]) :=
  h0.congr fun _ => (List.perm_append_singleton x ts).count_eq _

/-- The `U_Ptr` that an operation leaves without a reference. -/
def Abandons (s : State) (op : Op) (u : Addr) : Prop :=
  ∃ a this, op = .destroy a ∧ s.handle a = some this ∧ this.ptr = some u ∧
    s.targets.count (some u) = 1

/-- What an operation has to do: the counts stay exact, and nothing is left behind that is not
abandoned. -/
def Keeps (s : State) (op : Op) (s' : State) : Prop :=
  Counts s'.heap s'.targets ∧
    ∀ u, Leaked s'.heap s'.targets u ↔ Leaked s.heap s.targets u ∨ Abandons s op u

/-- Only a destructor abandons. -/
theorem keeps_of_leaked (hop : ∀ a, op ≠ .destroy a) (h : Counts s'.heap s'.targets)
    (hl : ∀ u, Leaked s'.heap s'.targets u ↔ Leaked s.heap s.targets u) : Keeps s op s' := by
  refine ⟨h, fun u => ?_⟩
  rw [hl, or_iff_left]
  rintro ⟨a, -, rfl, -⟩
  exact hop a rfl

theorem step_default (h : Counts s.heap s.targets) :
    ∃ s', step s .default = some s' ∧ Keeps s .default s' := by
  refine ⟨_, rfl, keeps_of_leaked nofun ?_ fun u => ?_⟩
  · rw [targets_push]
    exact (Counts.cons_none.mpr h).push
  · simp [Leaked]

theorem step_new {u p : Addr} {v : ℤ} {name : String} (h : Counts s.heap s.targets)
    (hop : allowed s (.new u p v name)) :
    ∃ s', step s (.new u p v name) = some s' ∧ Keeps s (.new u p v name) s' := by
  obtain ⟨hu, hp⟩ := hop
  refine ⟨_, rfl, keeps_of_leaked nofun ?_ fun w => ?_⟩
  · rw [targets_push]
    exact (h.newUPtr hu hp).push
  · simp only [Leaked, targets_push, List.mem_append, List.mem_singleton, not_or, Heap.newUPtr]
    by_cases e : w = u
    · subst e
      simp [hu]
    · simp [e]

theorem step_copy (h : Counts s.heap s.targets) (hop : allowed s (.copy a)) :
    ∃ s', step s (.copy a) = some s' ∧ Keeps s (.copy a) s' := by
  obtain ⟨obj, u, hobj, hp, hm⟩ := exists_of_nonNull hop
  obtain ⟨h', hcopy, h1, hv⟩ := h.copyConstruct hp hm
  refine ⟨⟨h', s.handles ++ [some obj]⟩, by simp [step, hobj, hcopy],
    keeps_of_leaked nofun ?_ fun w => ?_⟩
  · rw [targets_push, hp]
    exact h1.push
  · have hw : some w ∉ s.targets → w ≠ u := by
      rintro hw rfl
      exact hw hm
    simp only [Leaked, targets_push, List.mem_append, List.mem_singleton, not_or, ne_eq, hv, hp,
      Option.some.injEq]
    exact and_congr_right fun _ => and_iff_left_of_imp hw

theorem step_assign {b : ℕ} (h : Counts s.heap s.targets) (hop : allowed s (.assign b a)) :
    ∃ s', step s (.assign b a) = some s' ∧ Keeps s (.assign b a) s' := by
  obtain ⟨ha, hb⟩ := hop
  obtain ⟨obj, hobj⟩ := Option.isSome_iff_exists.mp ha
  obtain ⟨this, hthis⟩ := Option.isSome_iff_exists.mp hb
  have htb := target_of_handle hthis
  obtain ⟨h', hassign, h1, hv⟩ := h.assign htb (ptr_mem_targets hobj)
  refine ⟨⟨h', s.handles.set b (some obj)⟩, by simp [step, hobj, hthis, hassign],
    keeps_of_leaked nofun ?_ fun w => ?_⟩
  · rw [targets_set]
    exact h1
  · simp only [Leaked, targets_set, Option.bind_some, ne_eq, hv, not_or, not_and, not_not]
    constructor
    · rintro ⟨⟨hw, hdel⟩, hm⟩
      refine ⟨hw, fun hm' => hm ?_⟩
      by_cases e : this.ptr = some w
      · exact hdel e
      · exact mem_set_of_ne htb hm' (Ne.symm e)
    · rintro ⟨hw, hm⟩
      have hm' : some w ∉ s.targets.set b obj.ptr := by
        intro hset
        rcases List.mem_or_eq_of_mem_set hset with hset | e
        · exact hm hset
        · exact hm (e ▸ ptr_mem_targets hobj)
      refine ⟨⟨hw, fun e => absurd (ptr_mem_targets hthis) (e ▸ hm)⟩, hm'⟩

theorem step_destroy (h : Counts s.heap s.targets) (hop : allowed s (.destroy a)) :
    ∃ s', step s (.destroy a) = some s' ∧ Keeps s (.destroy a) s' := by
  obtain ⟨this, hthis⟩ := Option.isSome_iff_exists.mp hop
  have hta := target_of_handle hthis
  obtain ⟨h', hd, h1, hv⟩ := h.destruct hta
  refine ⟨⟨h', s.handles.set a none⟩, by simp [step, hthis, hd], ?_, fun w => ?_⟩
  · rw [targets_set]
    exact h1
  · have hcount := count_set_cons hta (y := none) (some w)
    simp only [List.count_cons, beq_iff_eq, reduceCtorEq, if_false, add_zero] at hcount
    simp only [Leaked, targets_set, Option.bind_none, ne_eq, hv]
    rw [← List.count_eq_zero, ← List.count_eq_zero, ← hcount]
    constructor
    · rintro ⟨hw, hz⟩
      by_cases e : this.ptr = some w
      · exact .inr ⟨a, this, rfl, hthis, e, by rw [← hcount, hz, if_pos e]⟩
      · exact .inl ⟨hw, by rw [hz, if_neg e]⟩
    · rintro (⟨hw, hz⟩ | ⟨a', this', e, hthis', hp, hone⟩)
      · exact ⟨hw, by omega⟩
      · cases e
        rw [hthis] at hthis'
        obtain rfl := Option.some.inj hthis'
        rw [if_pos hp] at hcount
        exact ⟨h.alive (List.count_pos_iff.mp (by omega)), by omega⟩

/-- **What an operation does.**  It is defined, the counts stay exact, and only a destructor leaves
a `U_Ptr` behind. -/
theorem step_keeps (h : Counts s.heap s.targets) (hop : allowed s op) :
    ∃ s', step s op = some s' ∧ Keeps s op s' := by
  cases op with
  | default => exact step_default h
  | new u p v name => exact step_new h hop
  | copy a => exact step_copy h hop
  | assign b a => exact step_assign h hop
  | destroy a => exact step_destroy h hop
  | get_val a =>
    obtain ⟨this, u, hthis, hp, hm⟩ := exists_of_nonNull hop
    obtain ⟨x, hx⟩ := h.get_val hp hm
    exact ⟨s, by simp [step, hthis, hx], keeps_of_leaked nofun h fun w => Iff.rfl⟩
  | set_val a val =>
    obtain ⟨this, u, hthis, hp, hm⟩ := exists_of_nonNull hop
    obtain ⟨h', hset, h1, hv⟩ := h.set_val hp hm val
    refine ⟨{ s with heap := h' }, by simp [step, hthis, hset],
      keeps_of_leaked nofun h1 fun w => ?_⟩
    simp only [Leaked, ne_eq, hv]
    rfl

end Step

theorem counts_of_run {ops : List Op} {s : State} (h : Run step allowed init ops s) :
    Counts s.heap s.targets := by
  refine h.invariant (I := fun s => Counts s.heap s.targets) init_counts fun s op s' hc hop hs => ?_
  obtain ⟨s₁, h1, hk, -⟩ := step_keeps hc hop
  rw [hs] at h1
  exact Option.some.inj h1 ▸ hk

/-- Every `U_Ptr` that an object refers to is there, and its `use` is the number of the objects that
refer to it. -/
def State.Exact (s : State) : Prop :=
  ∀ u, some u ∈ s.targets → ∃ c, s.heap.uptrs u = some c ∧ c.use = s.targets.count (some u)

/-- **The counts are exact** in every state of every program, and every operation of a program is
defined: it touches no deleted memory and deletes nothing twice. -/
theorem counts_exact {ops : List Op} {s : State} (h : Run step allowed init ops s) :
    s.Exact ∧ ∀ op, allowed s op → (step s op).isSome := by
  have hc := counts_of_run h
  constructor
  · intro u hu
    obtain ⟨c, hcu⟩ := Option.ne_none_iff_exists'.mp (hc.alive hu)
    exact ⟨c, hcu, hc.use hcu⟩
  · intro op hop
    obtain ⟨s', hs, -⟩ := step_keeps hc hop
    rw [hs]
    rfl

/-- The body of `PointerTester::TestAutoPrt`. -/
def testAutoPrt : List Op :=
  [.new 0 0 42 "age", .copy 0, .default, .assign 2 0, .new 1 1 999 "price", .assign 3 2]

theorem counts_exact_testAutoPrt : ∃ s, Run step allowed init testAutoPrt s ∧
    s.targets = [some 0, some 0, some 0, some 0] ∧ s.heap.uptrs 1 = none ∧ s.Exact := by
  obtain ⟨s, hr, ht, h1⟩ : ∃ s, Run step allowed init testAutoPrt s ∧
      s.targets = [some 0, some 0, some 0, some 0] ∧ s.heap.uptrs 1 = none :=
    Run.exists_of_exec _ _ (by decide)
  exact ⟨s, hr, ht, h1, (counts_exact hr).1⟩

end PracticeCode.PointerTest
