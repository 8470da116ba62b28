import PracticeCode.Linux.Sockets
import Mathlib.Data.List.Dedup

/-!
# What one pass of an echo server does

An echo server that waits for readable descriptors serves each of them once in a pass: it accepts a
client, or it receives from a connection and then sends or closes.  `Service` keeps what a client
can see of that: the connections, and the calls on each of them.  `Pass` is what the kernel and the
clients do in a pass.

Two visits touch two connections, so that their order does not show (`visit_comm`), and a pass is
what its visits make in any order (`foldl_visit_perm`).  `walk` and `walk_pass` are the rules for a
loop that takes the descriptors one after the other (`Walks`).
-/

namespace PracticeCode.Linux

/-- The results of the calls of a pass, each connection's by its number. -/
structure Pass where
  ready : List Fd
  accept : Option Fd
  recv : Conn → Recv
  send : Conn → Option ℕ

/-- A call on the connection `c`. -/
def Call.on (c : Conn) : Call → Bool
  | .recv _ target _ | .send _ target _ _ | .close _ target => target == some c
  | .accept _ => false

@[ext] structure Service where
  table : Table
  calls : Conn → List Call
  wf : table.Wf

/-- The calls on the connection `c`, with the number `fd`, that is visited. -/
def Pass.calls (p : Pass) (fd : Fd) (c : Conn) : List Call :=
  match p.recv c with
  | .data bytes =>
    [.recv fd (some c) (.data bytes), .send fd (some c) (fill bytes) (p.send c)]
  | res => [.recv fd (some c) res, .close fd (some c)]

/-- The connection ends in the pass. -/
def Pass.leaves (p : Pass) (c : Conn) : Bool :=
  match p.recv c with
  | .data _ => false
  | _ => true

theorem Pass.calls_of_stop {p : Pass} {c : Conn} (fd : Fd) (h : ∀ bytes, p.recv c ≠ .data bytes) :
    p.leaves c = true ∧ p.calls fd c = [.recv fd (some c) (p.recv c), .close fd (some c)] := by
  unfold Pass.leaves Pass.calls
  cases hp : p.recv c with
  | data bytes => exact absurd hp (h bytes)
  | eof | again | fail => exact ⟨rfl, rfl⟩

namespace Service

def empty : Service := ⟨.empty, fun _ => [], Table.wf_empty⟩

/-- The listening socket is visited. -/
def greet (S : Service) : Option Fd → Service
  | none => S
  | some cfd => { S with table := S.table.accept cfd, wf := S.wf.accept cfd }

/-- `c` is served under the number `fd`. -/
def serve (p : Pass) (S : Service) (fd : Fd) (c : Conn) : Service where
  table := if p.leaves c then S.table.close fd else S.table
  calls := Function.update S.calls c (S.calls c ++ p.calls fd c)
  wf := by
    split
    · exact S.wf.close fd
    · exact S.wf

/-- A readable descriptor is visited. -/
def visit (p : Pass) (S : Service) (fd : Fd) : Service :=
  match S.table.files fd with
  | none => S
  | some c => S.serve p fd c

/-- The listening socket is visited if it is readable. -/
def first (sfd : Fd) (p : Pass) (S : Service) : Service :=
  if sfd ∈ p.ready then S.greet p.accept else S

/-- A pass: first the listening socket, then the connections. -/
def pass (sfd : Fd) (p : Pass) (S : Service) : Service :=
  (p.ready.dedup.filter (· ≠ sfd)).foldl (visit p) (S.first sfd p)

/-- `accept` gives a number that is free, and that the server `takes`. -/
def CanGreet (S : Service) (sfd : Fd) (takes : Fd → Prop) (p : Pass) : Prop :=
  sfd ∈ p.ready → ∀ cfd, p.accept = some cfd →
    S.table.files cfd = none ∧ cfd ≠ sfd ∧ takes cfd

/-- What a server that waits for its open descriptors can meet in a pass. -/
structure Feasible (S : Service) (sfd : Fd) (takes : Fd → Prop) (p : Pass) : Prop where
  ready : ∀ fd ∈ p.ready, S.table.Open sfd fd
  accept : S.CanGreet sfd takes p
  recv : ∀ fd ∈ p.ready, ∀ c, S.table.files fd = some c → (p.recv c).Fits

/-- The calls of a log, connection by connection. -/
structure Shows (S : Service) (t : Table) (log : List Call) : Prop where
  table : t = S.table
  calls : ∀ c, log.filter (Call.on c) = S.calls c

/-! ## The order of the visits -/

section Visit

variable {p : Pass} {S : Service} {fd fd' : Fd} {c : Conn}

theorem visit_of_files (h : S.table.files fd = some c) : S.visit p fd = S.serve p fd c := by
  simp [visit, h]

/-- A visit leaves the other descriptors as they are. -/
theorem visit_files (h : fd' ≠ fd) : (S.visit p fd).table.files fd' = S.table.files fd' := by
  unfold visit
  split
  · rfl
  · simp only [serve]
    split
    · rw [Table.files_close, if_neg h]
    · rfl

theorem visit_of_none (h : S.table.files fd = none) : S.visit p fd = S := by
  simp [visit, h]

theorem close_comm (t : Table) (h : fd ≠ fd') :
    (t.close fd).close fd' = (t.close fd').close fd := by
  unfold Table.close
  dsimp only
  rw [Function.update_comm h]

/-- Two connections are served in either order. -/
theorem serve_comm (h : fd ≠ fd') {c c' : Conn} (hc : c ≠ c') :
    (S.serve p fd c).serve p fd' c' = (S.serve p fd' c').serve p fd c := by
  apply Service.ext
  · simp only [serve]
    split
    · split
      · exact close_comm S.table h
      · rfl
    · rfl
  · simp only [serve, Function.update_of_ne hc, Function.update_of_ne hc.symm]
    exact Function.update_comm hc _ _ S.calls

/-- **Two visits commute**: two numbers are not of one connection. -/
theorem visit_comm (S : Service) (fd fd' : Fd) :
    (S.visit p fd).visit p fd' = (S.visit p fd').visit p fd := by
  by_cases h : fd = fd'
  · rw [h]
  cases hc : S.table.files fd with
  | none =>
    rw [visit_of_none hc, visit_of_none (S := S.visit p fd')]
    rw [visit_files h, hc]
  | some c =>
    cases hc' : S.table.files fd' with
    | none =>
      rw [visit_of_none hc', visit_of_none (S := S.visit p fd)]
      rw [visit_files (Ne.symm h), hc']
    | some c' =>
      have hne : c ≠ c' := by
        rintro rfl
        exact h (S.wf.inj hc hc')
      have h1 : (S.visit p fd).table.files fd' = some c' := by rw [visit_files (Ne.symm h), hc']
      have h2 : (S.visit p fd').table.files fd = some c := by rw [visit_files h, hc]
      rw [visit_of_files h1, visit_of_files h2, visit_of_files hc, visit_of_files hc',
        serve_comm h hne]

/-- **The order of the visits does not matter.** -/
theorem foldl_visit_perm {l l' : List Fd} (h : l.Perm l') (S : Service) :
    l.foldl (visit p) S = l'.foldl (visit p) S :=
  h.foldl_eq' (fun x _ y _ z => (visit_comm z y x).symm) S

end Visit

/-! ## What a log shows -/

section Shows

variable {p : Pass} {S : Service} {t : Table} {log : List Call} {fd : Fd} {c : Conn}

theorem shows_empty : empty.Shows .empty [] := ⟨rfl, fun _ => rfl⟩

theorem Shows.greet (h : S.Shows t log) (cfd : Fd) :
    (S.greet (some cfd)).Shows (t.accept cfd) (log ++ [.accept (some cfd)]) where
  table := by rw [h.table]; rfl
  calls c := by simp [List.filter_append, h.calls, Call.on, Service.greet]

theorem Shows.greet_none (h : S.Shows t log) : (S.greet none).Shows t (log ++ [.accept none]) where
  table := h.table
  calls c := by simp [List.filter_append, h.calls, Call.on, Service.greet]

theorem filter_calls (p : Pass) (fd : Fd) (c d : Conn) :
    (p.calls fd c).filter (Call.on d) = if d = c then p.calls fd c else [] := by
  unfold Pass.calls
  by_cases h : d = c
  · split <;> simp [h, Call.on]
  · split <;> simp [h, Ne.symm h, Call.on]

theorem Shows.serve (h : S.Shows t log) (p : Pass) (fd : Fd) (c : Conn) :
    (S.serve p fd c).Shows (if p.leaves c then t.close fd else t) (log ++ p.calls fd c) where
  table := by rw [h.table]; rfl
  calls d := by
    rw [List.filter_append, filter_calls, h.calls]
    simp only [Service.serve, Function.update_apply]
    split <;> simp [*]

end Shows

/-! ## The rule for a walk -/

section Walk

variable {σ : Type*} {p : Pass} {S : Service} {l : List Fd} {s : σ}

/-- The walk comes to the descriptor `fd`. -/
def look (p : Pass) (S : Service) (fd : Fd) : Service := if fd ∈ p.ready then S.visit p fd else S

/-- The connection can be served, if it is readable. -/
def CanServe (p : Pass) (S : Service) (fd : Fd) : Prop :=
  fd ∈ p.ready → ∃ c, S.table.files fd = some c ∧ (p.recv c).Fits

theorem canServe_look {fd fd' : Fd} (h : fd' ≠ fd) :
    CanServe p (S.look p fd) fd' ↔ CanServe p S fd' := by
  unfold CanServe look
  split
  · rw [visit_files h]
  · rfl

/-- How a loop takes the descriptors in front of it.  `C s s'`: from `s` on, the pass ends in
`s'`. -/
structure Walks (p : Pass) (C : σ → σ → Prop) (Loop : σ → List Fd → Service → Prop)
    (Done : σ → Service → Prop) : Prop where
  stop : ∀ {s S}, Loop s [] S → ∃ t, (∀ s', C s s' ↔ s' = t) ∧ Done t S
  conn : ∀ {s fd l S}, Loop s (fd :: l) S → ∃ c, S.table.files fd = some c
  skip : ∀ {s fd l S}, Loop s (fd :: l) S → fd ∉ p.ready →
    ∃ t, Loop t l S ∧ ∀ s', C s s' ↔ C t s'
  data : ∀ {s fd l S c bytes}, Loop s (fd :: l) S → fd ∈ p.ready → S.table.files fd = some c →
    p.recv c = .data bytes → (p.recv c).Fits →
    ∃ t, Loop t l (S.serve p fd c) ∧ ∀ s', C s s' ↔ C t s'
  leave : ∀ {s fd l S c}, Loop s (fd :: l) S → fd ∈ p.ready → S.table.files fd = some c →
    (∀ bytes, p.recv c ≠ .data bytes) → ∃ t, Loop t l (S.serve p fd c) ∧ ∀ s', C s s' ↔ C t s'
  refuse : ∀ {s fd l S c}, Loop s (fd :: l) S → fd ∈ p.ready → S.table.files fd = some c →
    ¬ (p.recv c).Fits → ∀ s', ¬ C s s'

variable {C : σ → σ → Prop} {Loop : σ → List Fd → Service → Prop} {Done : σ → Service → Prop}
  {fd : Fd}

/-- **One turn of a walk.** -/
theorem Walks.step (hW : Walks p C Loop Done) (h : Loop s (fd :: l) S) (hs : CanServe p S fd) :
    ∃ t, Loop t l (S.look p fd) ∧ ∀ s', C s s' ↔ C t s' := by
  unfold look
  split
  · rename_i hr
    obtain ⟨c, hc, hfit⟩ := hs hr
    rw [visit_of_files hc]
    cases hres : p.recv c with
    | data bytes => exact hW.data h hr hc hres hfit
    | eof | again | fail => exact hW.leave h hr hc (by simp [hres])
  · rename_i hr
    exact hW.skip h hr

theorem Walks.stuck (hW : Walks p C Loop Done) (h : Loop s (fd :: l) S) (hs : ¬ CanServe p S fd)
    (s' : σ) : ¬ C s s' := by
  obtain ⟨c, hc⟩ := hW.conn h
  obtain ⟨hr, hno⟩ := Classical.not_imp.mp hs
  exact hW.refuse h hr hc (fun hfit => hno ⟨c, hc, hfit⟩) s'

/-- **The walk.**  The loop ends when each descriptor in front of it can be served, and has then
visited all. -/
theorem walk (hW : Walks p C Loop Done) (hl : l.Nodup) (h : Loop s l S) :
    ((∃ s', C s s') ↔ ∀ fd ∈ l, CanServe p S fd) ∧ ∀ s', C s s' → Done s' (l.foldl (look p) S) := by
  induction l generalizing s S with
  | nil =>
    obtain ⟨t, ht, hd⟩ := hW.stop h
    exact ⟨⟨fun _ => by simp, fun _ => ⟨t, (ht t).mpr rfl⟩⟩, fun s' hs' => (ht s').mp hs' ▸ hd⟩
  | cons fd l ih =>
    obtain ⟨hm, hl⟩ := List.nodup_cons.mp hl
    by_cases hc : CanServe p S fd
    · obtain ⟨t, ht, hC⟩ := hW.step h hc
      obtain ⟨he, hd⟩ := ih hl ht
      refine ⟨?_, fun s' hs' => hd s' ((hC s').mp hs')⟩
      simp only [hC, he, List.forall_mem_cons, hc, true_and]
      refine forall₂_congr fun fd' hm' => canServe_look ?_
      rintro rfl
      exact hm hm'
    · have hno := hW.stuck h hc
      refine ⟨⟨fun ⟨s', hs'⟩ => absurd hs' (hno s'), fun hall => ?_⟩,
        fun s' hs' => absurd hs' (hno s')⟩
      exact absurd (hall fd (List.mem_cons_self ..)) hc

/-- The descriptors of a pass are visited in the order of the walk, which does not matter. -/
theorem foldl_look {sfd : Fd} (hl : l.Nodup) (h : ∀ fd ∈ p.ready, fd ∈ l ↔ fd ≠ sfd) :
    l.foldl (look p) S = (p.ready.dedup.filter (· ≠ sfd)).foldl (visit p) S := by
  have hp : (l.filter (· ∈ p.ready)).Perm (p.ready.dedup.filter (· ≠ sfd)) := by
    rw [List.perm_ext_iff_of_nodup (hl.filter _) (p.ready.nodup_dedup.filter _)]
    intro fd
    simp only [List.mem_filter, decide_eq_true_eq, List.mem_dedup]
    constructor
    · exact fun ⟨hm, hr⟩ => ⟨hr, (h fd hr).mp hm⟩
    · exact fun ⟨hr, hne⟩ => ⟨(h fd hr).mpr hne, hr⟩
  rw [← foldl_visit_perm hp, List.foldl_filter]
  refine congrArg (fun f => l.foldl f S) ?_
  funext S fd
  simp [look]

theorem first_files {sfd fd : Fd} {takes : Fd → Prop} {c : Conn} (hg : S.CanGreet sfd takes p)
    (h : S.table.files fd = some c) : (S.first sfd p).table.files fd = some c := by
  unfold first
  split
  · rename_i hr
    cases ha : p.accept with
    | none => exact h
    | some cfd =>
      have hne : fd ≠ cfd := by
        rintro rfl
        rw [(hg hr fd ha).1] at h
        cases h
      simp only [greet, Table.files_accept, if_neg hne, h]
  · exact h

/-- **A pass.**  A loop that visits the listening socket first, and then walks over the others, ends
when the pass is feasible, and has then done what the pass does. -/
theorem walk_pass {sfd : Fd} {takes : Fd → Prop} (hW : Walks p C Loop Done)
    (hfirst : S.CanGreet sfd takes p → ∃ t l, Loop t l (S.first sfd p) ∧ l.Nodup ∧
      (∀ fd ∈ p.ready, fd ∈ l ↔ fd ≠ sfd) ∧ ∀ s', C s s' ↔ C t s')
    (hno : ¬ S.CanGreet sfd takes p → ∀ s', ¬ C s s')
    (hfree : S.table.files sfd = none) (hready : ∀ fd ∈ p.ready, S.table.Open sfd fd) :
    ((∃ s', C s s') ↔ S.Feasible sfd takes p) ∧ ∀ s', C s s' → Done s' (S.pass sfd p) := by
  by_cases hg : S.CanGreet sfd takes p
  · obtain ⟨t, l, ht, hl, hm, hC⟩ := hfirst hg
    obtain ⟨he, hd⟩ := walk hW hl ht
    rw [foldl_look hl hm] at hd
    refine ⟨?_, fun s' hs' => hd s' ((hC s').mp hs')⟩
    simp only [hC, he]
    constructor
    · refine fun hall => ⟨hready, hg, fun fd hr c hc => ?_⟩
      have hne : fd ≠ sfd := by
        rintro rfl
        rw [hfree] at hc
        cases hc
      obtain ⟨d, hd, hfit⟩ := hall fd ((hm fd hr).mpr hne) hr
      rw [first_files hg hc] at hd
      exact Option.some.inj hd ▸ hfit
    · intro hf fd hfd hr
      obtain ⟨c, hc⟩ := Option.isSome_iff_exists.mp
        ((hready fd hr).resolve_left ((hm fd hr).mp hfd))
      exact ⟨c, first_files hg hc, hf.recv fd hr c hc⟩
  · have hn := hno hg
    exact ⟨⟨fun ⟨s', hs'⟩ => absurd hs' (hn s'), fun hf => absurd hf.accept hg⟩,
      fun s' hs' => absurd hs' (hn s')⟩

end Walk

end Service

end PracticeCode.Linux
