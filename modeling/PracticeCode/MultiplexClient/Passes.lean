import PracticeCode.Lib.Cursor
import PracticeCode.MultiplexClient.Bookkeeping

/-!
# The passes of the select client and the poll client

What a client does between two waits is fixed by what was reported and by the results of its calls.
It goes over its descriptors in numeric order, first over the writable ones and then over the
readable ones (`Visits`): each writable socket is asked for `SO_ERROR` once and greeted when there
is none (`Asks`), each readable one is read once and closed at the end of its stream (`Reads`).
-/

namespace PracticeCode.MultiplexClient

open Lib Linux

/-- The calls on a writable socket. -/
inductive Asks (table : Table) (fd : Fd) : List Call → Prop
  | refused {res} : res ≠ some 0 → Asks table fd [.getsockopt fd (table.files fd) res]
  | greeted {res} : Asks table fd
      [.getsockopt fd (table.files fd) (some 0), .send fd (table.files fd) (hello fd) res]

/-- The calls on a readable socket. -/
inductive Reads (table : Table) (fd : Fd) : List Call → Prop
  | read {res} : res ≠ .eof → Reads table fd [.recv fd (table.files fd) res]
  | ended : Reads table fd [.recv fd (table.files fd) .eof, .close fd (table.files fd)]

/-- The descriptors of the vector. -/
def numbers (p : List PollFd) : List Fd := p.map PollFd.fd

/-- The vector shows what `poll` reported. -/
def Flagged (rs ws : List Fd) (p : List PollFd) : Prop :=
  ∀ e ∈ p, e.pollin = decide (e.fd ∈ rs) ∧ e.pollout = decide (e.fd ∈ ws)

/-- A state of the pass that began in `t₀`, with the calls made so far. -/
inductive Passing (t₀ : State (List PollFd) ℕ) (rs ws : List Fd) : State (List PollFd) ℕ → Prop
  | write {p i W} : numbers p = numbers t₀.regs → Flagged rs ws p →
      Visits ws (Asks t₀.table) ((numbers p).take i) W →
      Passing t₀ rs ws ⟨t₀.table, p, .write i, t₀.log ++ W⟩
  | send {p i W e} : numbers p = numbers t₀.regs → Flagged rs ws p → p[i]? = some e → e.fd ∈ ws →
      Visits ws (Asks t₀.table) ((numbers p).take i) W →
      Passing t₀ rs ws ⟨t₀.table, p, .send i,
        t₀.log ++ W ++ [.getsockopt e.fd (t₀.table.files e.fd) (some 0)]⟩
  | read {table p i W R done} : numbers t₀.regs = done ++ numbers (p.drop i) → Flagged rs ws p →
      (∀ fd ∈ numbers (p.drop i), table.files fd = t₀.table.files fd) →
      Visits ws (Asks t₀.table) (numbers t₀.regs) W → Visits rs (Reads t₀.table) done R →
      Passing t₀ rs ws ⟨table, p, .read i, t₀.log ++ W ++ R⟩
  | close {table p i W R done fd} : numbers t₀.regs = done ++ fd :: numbers (p.drop i) →
      Flagged rs ws p → (∀ x ∈ fd :: numbers (p.drop i), table.files x = t₀.table.files x) →
      fd ∈ rs → Visits ws (Asks t₀.table) (numbers t₀.regs) W →
      Visits rs (Reads t₀.table) done R →
      Passing t₀ rs ws ⟨table, p, .close fd i,
        t₀.log ++ W ++ R ++ [.recv fd (t₀.table.files fd) .eof]⟩
  | done {table p W R} : Visits ws (Asks t₀.table) (numbers t₀.regs) W →
      Visits rs (Reads t₀.table) (numbers t₀.regs) R →
      Passing t₀ rs ws ⟨table, p, .wait, t₀.log ++ W ++ R⟩

section Step

variable {inherited : List Fd} {t₀ t t' : State (List PollFd) ℕ} {rs ws : List Fd} {a : Act}
  {table : Table} {p : List PollFd} {log : List Call} {e : PollFd} {i : ℕ}

theorem numbers_take_succ (hi : p[i]? = some e) :
    (numbers p).take (i + 1) = (numbers p).take i ++ [e.fd] := by
  unfold numbers
  rw [List.take_add_one, List.getElem?_map, hi]
  rfl

theorem numbers_drop (hi : p[i]? = some e) :
    numbers (p.drop i) = e.fd :: numbers (p.drop (i + 1)) := by
  rw [drop_of_getElem? hi]
  rfl

/-- The end of the vector is reached. -/
theorem numbers_take_of_none (hi : p[i]? = none) : (numbers p).take i = numbers p := by
  refine List.take_of_length_le ?_
  simpa [numbers] using List.getElem?_eq_none_iff.mp hi

theorem passing_start (hw : PollClient inherited t₀ (.wait rs ws) = some t) :
    Passing t₀ rs ws t := by
  cases outcome_of_client hw with
  | wait hp hr =>
    simp only [pollRegistry, Option.ite_none_right_eq_some, Option.some.injEq] at hr
    obtain ⟨-, rfl⟩ := hr
    have hn : numbers (t₀.regs.map fun e => ⟨e.fd, rs.contains e.fd, ws.contains e.fd⟩) =
        numbers t₀.regs := by simp [numbers, Function.comp_def]
    rw [← List.append_nil t₀.log]
    refine .write hn (fun e he => ?_) .nil
    obtain ⟨d, -, rfl⟩ := List.mem_map.mp he
    simp

/-- The first walk. -/
theorem passing_write {W : List Call} (hn : numbers p = numbers t₀.regs) (hf : Flagged rs ws p)
    (hv : Visits ws (Asks t₀.table) ((numbers p).take i) W)
    (hs : PollClient inherited ⟨t₀.table, p, .write i, t₀.log ++ W⟩ a = some t') :
    Passing t₀ rs ws t' := by
  cases outcome_of_client hs with
  | writeEnd hp hi =>
    cases hp
    have he : p[i]? = none := Option.map_eq_none_iff.mp hi
    rw [numbers_take_of_none he, hn] at hv
    rw [← List.append_nil (t₀.log ++ W)]
    exact .read hn.symm hf (fun _ _ => rfl) hv .nil
  | writeSkip hp hi hw =>
    cases hp
    obtain ⟨e, he, rfl⟩ := Option.map_eq_some_iff.mp hi
    have hout := (hf e (List.mem_of_getElem? he)).2
    simp only [pollRegistry, he, Option.any_some, hout, decide_eq_false_iff_not] at hw
    refine .write hn hf ?_
    change Visits ws _ ((numbers p).take (i + 1)) W
    rw [numbers_take_succ he]
    exact hv.skip hw
  | @getsockopt iter fd res hp hi hw =>
    cases hp
    obtain ⟨e, he, rfl⟩ := Option.map_eq_some_iff.mp hi
    have hout := (hf e (List.mem_of_getElem? he)).2
    simp only [pollRegistry, he, Option.any_some, hout, decide_eq_true_eq] at hw
    by_cases hres : res = some 0
    · subst hres
      exact .send hn hf he hw hv
    · simp only [State.call, if_neg hres]
      rw [List.append_assoc]
      refine .write hn hf ?_
      change Visits ws _ ((numbers p).take (i + 1)) _
      rw [numbers_take_succ he]
      exact hv.visit hw (.refused hres)
  | _ => contradiction

/-- The second walk. -/
theorem passing_read {W R : List Call} {done : List Fd}
    (hd : numbers t₀.regs = done ++ numbers (p.drop i)) (hf : Flagged rs ws p)
    (ht : ∀ fd ∈ numbers (p.drop i), table.files fd = t₀.table.files fd)
    (hW : Visits ws (Asks t₀.table) (numbers t₀.regs) W) (hR : Visits rs (Reads t₀.table) done R)
    (hs : PollClient inherited ⟨table, p, .read i, t₀.log ++ W ++ R⟩ a = some t') :
    Passing t₀ rs ws t' := by
  cases outcome_of_client hs with
  | readEnd hp hi =>
    cases hp
    have he : p[i]? = none := Option.map_eq_none_iff.mp hi
    rw [List.drop_of_length_le (List.getElem?_eq_none_iff.mp he)] at hd
    obtain rfl : numbers t₀.regs = done := hd.trans (List.append_nil done)
    exact .done hW hR
  | readSkip hp hi hr =>
    cases hp
    obtain ⟨e, he, rfl⟩ := Option.map_eq_some_iff.mp hi
    have hin := (hf e (List.mem_of_getElem? he)).1
    simp only [pollRegistry, he, Option.any_some, hin, decide_eq_false_iff_not] at hr
    rw [numbers_drop he] at hd ht
    refine .read (hd.trans (List.append_cons ..)) hf ?_ hW (hR.skip hr)
    exact fun fd hm => ht fd (List.mem_cons_of_mem _ hm)
  | recv hp hi hr _ hne =>
    cases hp
    obtain ⟨e, he, rfl⟩ := Option.map_eq_some_iff.mp hi
    have hin := (hf e (List.mem_of_getElem? he)).1
    simp only [pollRegistry, he, Option.any_some, hin, decide_eq_true_eq] at hr
    rw [numbers_drop he] at hd ht
    simp only [State.call, ht e.fd List.mem_cons_self]
    rw [List.append_assoc]
    refine .read (hd.trans (List.append_cons ..)) hf ?_ hW (hR.visit hr (.read hne))
    exact fun fd hm => ht fd (List.mem_cons_of_mem _ hm)
  | eof hp hi hr =>
    cases hp
    obtain ⟨e, he, rfl⟩ := Option.map_eq_some_iff.mp hi
    have hin := (hf e (List.mem_of_getElem? he)).1
    simp only [pollRegistry, he, Option.any_some, hin, decide_eq_true_eq] at hr
    rw [numbers_drop he, ← drop_eraseIdx (List.getElem?_eq_some_iff.mp he).1] at hd ht
    simp only [State.call, ht e.fd List.mem_cons_self]
    exact .close hd (fun d hm => hf d (List.mem_of_mem_eraseIdx hm)) ht hr hW hR
  | _ => contradiction

/-- **The step lemma.** -/
theorem passing_step (hnd : (numbers t₀.regs).Nodup) (h : Passing t₀ rs ws t)
    (hp : t.point ≠ .wait) (hs : PollClient inherited t a = some t') : Passing t₀ rs ws t' := by
  cases h with
  | write hn hf hv => exact passing_write hn hf hv hs
  | read hd hf ht hW hR => exact passing_read hd hf ht hW hR hs
  | done _ _ => exact absurd rfl hp
  | @send p i W e hn hf he hw hv =>
    cases outcome_of_client hs with
    | send hp hi =>
      cases hp
      obtain ⟨d, hd, rfl⟩ := Option.map_eq_some_iff.mp hi
      obtain rfl := Option.some.inj (he.symm.trans hd)
      simp only [State.call]
      rw [List.append_assoc, List.append_assoc]
      refine .write hn hf ?_
      change Visits ws _ ((numbers p).take (i + 1)) _
      rw [numbers_take_succ he]
      exact hv.visit hw .greeted
    | _ => contradiction
  | @close table p i W R done fd hd hf ht hr hW hR =>
    cases outcome_of_client hs with
    | close hp =>
      cases hp
      simp only [State.call, ht fd List.mem_cons_self]
      rw [List.append_assoc, List.append_assoc]
      refine .read (hd.trans (List.append_cons ..)) hf ?_ hW (hR.visit hr .ended)
      intro x hx
      have hne : x ≠ fd := by
        rintro rfl
        rw [hd] at hnd
        exact (List.nodup_cons.mp (List.nodup_append.mp hnd).2.1).1 hx
      rw [Table.files_close, if_neg hne]
      exact ht x (List.mem_cons_of_mem _ hx)
    | _ => contradiction

end Step

/-! ## From one wait to the next -/

/-- The calls of a pass over `fds`. -/
def IsPass (table : Table) (fds rs ws : List Fd) (calls : List Call) : Prop :=
  ∃ W R, calls = W ++ R ∧ Visits ws (Asks table) fds W ∧ Visits rs (Reads table) fds R

section Runs

variable {inherited : List Fd} {rs ws : List Fd} {as bs : List Act}

theorem pollClient_pass {t₀ t₁ t : State (List PollFd) ℕ}
    (h : Run (PollClient inherited) free (init pollRegistry) as t₀)
    (hw : PollClient inherited t₀ (.wait rs ws) = some t₁)
    (hr : Run (PollClient inherited) (fun t _ => t.point ≠ .wait) t₁ bs t) (ht : t.point = .wait) :
    ∃ calls, t.log = t₀.log ++ calls ∧ IsPass t₀.table (numbers t₀.regs) rs ws calls := by
  have hp : Passing t₀ rs ws t := hr.invariant (passing_start hw)
    fun _ _ _ hI hg hs => passing_step (inv_of_run h).nodup hI hg hs
  cases hp with
  | done hW hR => exact ⟨_, List.append_assoc .., _, _, rfl, hW, hR⟩
  | _ => cases ht

/-- **The passes of the select client.**  Between two waits, each writable descriptor is asked and
each readable one is read, once and in numeric order, and nothing else is called. -/
theorem selectClient_pass {s₀ s₁ s : State SelectRegs (Option Fd)}
    (h : Run (SelectClient inherited) free (init selectRegistry) as s₀)
    (hw : SelectClient inherited s₀ (.wait rs ws) = some s₁)
    (hr : Run (SelectClient inherited) (fun s _ => s.point ≠ .wait) s₁ bs s)
    (hs : s.point = .wait) :
    s₀.regs.sets.fds.Pairwise (· < ·) ∧
      ∃ calls, s.log = s₀.log ++ calls ∧ IsPass s₀.table s₀.regs.sets.fds rs ws calls := by
  have hs₀ : s₀.point = .wait := by
    cases outcome_of_client hw with
    | wait hp _ => exact hp
  obtain ⟨t₀, ht₀, hst₀⟩ := agree_of_select (H := free) (small_of_run h (by simp [hs₀])) agree_init
    (fun _ _ _ _ _ => trivial) h
  obtain ⟨t₁, hw', hst₁⟩ := agree_of_step hst₀ (by simp) (by simp) hw
  obtain ⟨t, ht, hst⟩ := agree_of_select (H := fun t _ => t.point ≠ .wait)
    (small_of_run hr (by simp [hs])) hst₁
    (fun _ _ _ hst hg hp => hg (hst.point.wait_iff.mpr hp)) hr
  obtain ⟨calls, hlog, hpass⟩ := pollClient_pass ht₀ hw' ht (hst.point.wait_iff.mp hs)
  refine ⟨hst₀.regs.sorted, calls, ?_, ?_⟩
  · rw [hst.log, hst₀.log, hlog]
  · rw [hst₀.table, hst₀.regs.fds]
    exact hpass

/-- The pass of `twoSockets`: the first socket is greeted, and the second one closed. -/
theorem selectClient_pass_two : ∃ (s₀ s : State SelectRegs (Option Fd)) (calls : List Call),
    s₀.regs.sets.fds = [3, 4] ∧ s.log = s₀.log ++ calls ∧
      IsPass s₀.table [3, 4] [4] [3] calls := by
  obtain ⟨s₀, h, hfds, hrest⟩ : ∃ s₀, Run (SelectClient [0, 1, 2]) free (init selectRegistry)
      (twoSockets.take 8) s₀ ∧ s₀.regs.sets.fds = [3, 4] ∧
      ((SelectClient [0, 1, 2] s₀ (.wait [4] [3])).any fun s₁ =>
        (exec (SelectClient [0, 1, 2]) (fun s _ => s.point ≠ .wait) s₁ (twoSockets.drop 10)).any
          fun s => decide (s.point = .wait)) = true :=
    Run.exists_of_exec _ _ (by decide)
  obtain ⟨s₁, hw, hrest⟩ := (Option.any_eq_true _ _).mp hrest
  obtain ⟨s, hr, hp⟩ := Run.exists_of_exec _ _ hrest
  obtain ⟨-, calls, hlog, hpass⟩ := selectClient_pass h hw hr hp
  rw [hfds] at hpass
  exact ⟨s₀, s, calls, hfds, hlog, hpass⟩

end Runs

end PracticeCode.MultiplexClient
