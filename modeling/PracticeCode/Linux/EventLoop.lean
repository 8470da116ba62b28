import PracticeCode.Lib.Run
import PracticeCode.Linux.Service

/-!
# Servers that wait between their passes

An `EventLoop` is a server that waits for readable descriptors and takes them in one pass before it
waits again.  `Passes` are its runs, pass by pass, with the results that each pass is given.

`Performs` says that every pass does what `Service.pass` says.  Such a server can do exactly the
passes that are feasible one behind the other, and shows what they make.
-/

namespace PracticeCode.Linux

open Lib

structure EventLoop (σ α : Type*) where
  step : σ → α → Option σ
  init : σ
  /-- The wait ends, with these descriptors. -/
  ready : List Fd → α
  timeout : α
  /-- What the server waits for. -/
  watches : σ → Fd → Prop
  /-- The next action in a pass with these results. -/
  act : Pass → σ → Option α
  /-- Where the server waits. -/
  head : σ → Prop

namespace EventLoop

/-- The service after these passes. -/
def served (sfd : Fd) (ps : List Pass) : Service := ps.foldl (fun S p => S.pass sfd p) .empty

theorem served_snoc (sfd : Fd) (ps : List Pass) (p : Pass) :
    served sfd (ps ++ [p]) = (served sfd ps).pass sfd p := by
  simp [served]

/-- Each of the passes is feasible behind the ones before it. -/
inductive AllFeasible (sfd : Fd) (takes : Fd → Prop) : List Pass → Prop
  | nil : AllFeasible sfd takes []
  | snoc {ps p} : AllFeasible sfd takes ps → (served sfd ps).Feasible sfd takes p →
      AllFeasible sfd takes (ps ++ [p])

variable {σ α : Type*} (L : EventLoop σ α)

/-- From a point in a pass to its end. -/
def Ends (p : Pass) (s s' : σ) : Prop := Settles L.step (L.act p) s s' ∧ L.head s'

theorem ends_of_step {p : Pass} {s s' t : σ} {a : α} (ha : L.act p s = some a)
    (hs : L.step s a = some t) : L.Ends p s s' ↔ L.Ends p t s' :=
  and_congr_left fun _ => settles_of_step ha hs

theorem ends_of_stop {p : Pass} {s s' : σ} (ha : L.act p s = none) (hs : L.head s) :
    L.Ends p s s' ↔ s' = s := by
  rw [Ends, settles_of_stop ha]
  exact and_iff_left_of_imp fun e => e ▸ hs

theorem not_ends {p : Pass} {s s' : σ} {a : α} (ha : L.act p s = some a)
    (hs : L.step s a = none) : ¬ L.Ends p s s' :=
  fun h => not_settles ha hs h.1

/-- From one wait to the next. -/
def Serves (p : Pass) (s s' : σ) : Prop :=
  (∀ fd ∈ p.ready, L.watches s fd) ∧
    ∃ s₁, L.step s (L.ready p.ready) = some s₁ ∧ Settles L.step (L.act p) s₁ s' ∧ L.head s'

/-- The server has done these passes, and waits. -/
inductive Passes : List Pass → σ → Prop
  | start : L.head L.init → Passes [] L.init
  | timeout {ps s s'} : Passes ps s → L.step s L.timeout = some s' → Passes ps s'
  | pass {ps p s s'} : Passes ps s → L.Serves p s s' → Passes (ps ++ [p]) s'

/-- Every pass of the server does what `Service.pass` says.  `I` is what a state shows where the
server waits, and `G` what is asked of the passes. -/
structure Performs (sfd : Fd) (takes : Fd → Prop) (G : Pass → Prop) (I : σ → Service → Prop) :
    Prop where
  start : L.head L.init → I L.init .empty
  timeout : ∀ {s s' S}, I s S → L.step s L.timeout = some s' → I s' S
  feasible : ∀ {p s S}, G p → I s S → ((∃ s', L.Serves p s s') ↔ S.Feasible sfd takes p)
  pass : ∀ {p s s' S}, G p → I s S → L.Serves p s s' → I s' (S.pass sfd p)

variable {L} {sfd : Fd} {takes takes' : Fd → Prop} {G : Pass → Prop} {I : σ → Service → Prop}
  {p : Pass} {ps : List Pass} {s s' b : σ} {S : Service}

/-- A server that waits for the open descriptors, and starts a pass in `b`. -/
theorem serves_iff (hw : ∀ fd, L.watches s fd ↔ S.table.Open sfd fd)
    (hb : (∀ fd ∈ p.ready, S.table.Open sfd fd) → L.step s (L.ready p.ready) = some b) :
    L.Serves p s s' ↔ (∀ fd ∈ p.ready, S.table.Open sfd fd) ∧ L.Ends p b s' := by
  unfold Serves
  simp only [hw]
  constructor
  · rintro ⟨hr, s₁, hs₁, hend⟩
    obtain rfl := Option.some.inj ((hb hr).symm.trans hs₁)
    exact ⟨hr, hend⟩
  · exact fun ⟨hr, hend⟩ => ⟨hr, b, hb hr, hend⟩

/-- **A pass.**  The server waits for the open descriptors, visits the listening socket and then
walks over the others. -/
theorem serves_of_walk {Loop : σ → List Fd → Service → Prop}
    (hw : ∀ fd, L.watches s fd ↔ S.table.Open sfd fd)
    (hb : (∀ fd ∈ p.ready, S.table.Open sfd fd) → L.step s (L.ready p.ready) = some b)
    (hW : Service.Walks p (L.Ends p) Loop I)
    (hfirst : (∀ fd ∈ p.ready, S.table.Open sfd fd) → S.CanGreet sfd takes p →
      ∃ t l, Loop t l (S.first sfd p) ∧ l.Nodup ∧ (∀ fd ∈ p.ready, fd ∈ l ↔ fd ≠ sfd) ∧
        ∀ s', L.Ends p b s' ↔ L.Ends p t s')
    (hno : (∀ fd ∈ p.ready, S.table.Open sfd fd) → ¬ S.CanGreet sfd takes p →
      ∀ s', ¬ L.Ends p b s')
    (hfree : S.table.files sfd = none) :
    ((∃ s', L.Serves p s s') ↔ S.Feasible sfd takes p) ∧
      ∀ s', L.Serves p s s' → I s' (S.pass sfd p) := by
  simp only [serves_iff hw hb]
  by_cases hr : ∀ fd ∈ p.ready, S.table.Open sfd fd
  · simp only [and_iff_right hr]
    exact Service.walk_pass hW (hfirst hr) (hno hr) hfree hr
  · exact ⟨⟨fun ⟨_, h⟩ => absurd h.1 hr, fun hf => absurd hf.ready hr⟩, fun _ h => absurd h.1 hr⟩

/-- The numbers that come in are all that a server has to take. -/
theorem AllFeasible.mono (h : AllFeasible sfd takes ps)
    (ht : ∀ p ∈ ps, ∀ cfd, p.accept = some cfd → takes' cfd) : AllFeasible sfd takes' ps := by
  induction h with
  | nil => exact .nil
  | @snoc ps p _ hf ih =>
    refine .snoc (ih fun q hq => ht q (List.mem_append_left _ hq)) ⟨hf.ready, fun hr cfd hc => ?_,
      hf.recv⟩
    obtain ⟨hfree, hne, -⟩ := hf.accept hr cfd hc
    exact ⟨hfree, hne, ht p (by simp) cfd hc⟩

theorem AllFeasible.last (h : AllFeasible sfd takes (ps ++ [p])) :
    (served sfd ps).Feasible sfd takes p := by
  generalize e : ps ++ [p] = qs at h
  cases h with
  | nil => simp at e
  | snoc _ hf =>
    obtain ⟨rfl, hp⟩ := List.append_inj' e rfl
    obtain rfl := List.head_eq_of_cons_eq hp
    exact hf

/-- **What the passes of a server make.** -/
theorem Performs.sound (hL : L.Performs sfd takes G I) (h : L.Passes ps s) (hG : ∀ p ∈ ps, G p) :
    AllFeasible sfd takes ps ∧ I s (served sfd ps) := by
  induction h with
  | start hh => exact ⟨.nil, hL.start hh⟩
  | timeout _ hs ih => exact ⟨(ih hG).1, hL.timeout (ih hG).2 hs⟩
  | @pass ps p s s' _ hs ih =>
    obtain ⟨hf, hi⟩ := ih fun q hq => hG q (List.mem_append_left _ hq)
    have hp : G p := hG p (by simp)
    rw [served_snoc]
    exact ⟨.snoc hf ((hL.feasible hp hi).mp ⟨s', hs⟩), hL.pass hp hi hs⟩

/-- **A server can do all passes that are feasible.** -/
theorem Performs.complete (hL : L.Performs sfd takes G I) (hh : L.head L.init)
    (h : AllFeasible sfd takes ps) (hG : ∀ p ∈ ps, G p) : ∃ s, L.Passes ps s := by
  induction h with
  | nil => exact ⟨_, .start hh⟩
  | @snoc ps p _ hf ih =>
    have hG' : ∀ q ∈ ps, G q := fun q hq => hG q (List.mem_append_left _ hq)
    obtain ⟨s, hs⟩ := ih hG'
    obtain ⟨s', hs'⟩ := (hL.feasible (hG p (by simp)) (hL.sound hs hG').2).mpr hf
    exact ⟨s', .pass hs hs'⟩

end EventLoop

end PracticeCode.Linux
