import PracticeCode.MultiplexClient.Epoll
import PracticeCode.MultiplexClient.Passes

/-!
# The passes of the epoll client

Between two waits every event is handled once, in the order of the array: first the writable sockets
are asked, then the readable ones are read, until a `recv` has no data, or once without `etMode`.  A
socket is dropped after the end of its stream or an error (`Drains`).
-/

namespace PracticeCode.MultiplexClient.Epoll

open Lib Linux

/-! ## A pass -/

/-- What follows on the last `recv` of a socket. -/
def ending (table : Table) (fd : Fd) : Recv → List Call
  | .eof | .fail => [.ctlDel fd (table.files fd) true, .close fd (table.files fd)]
  | .data _ | .again => []

/-- The calls of `recv` that had data. -/
def recvs (table : Table) (fd : Fd) (chunks : List (List UInt8)) : List Call :=
  chunks.map fun chunk => .recv fd (table.files fd) (.data chunk)

/-- The calls on a readable socket. -/
inductive Drains (etMode : Bool) (table : Table) (fd : Fd) : List Call → Prop
  | mk {chunks res} : (etMode = false → chunks = []) →
      (etMode = true → ∀ chunk, res ≠ .data chunk) →
      Drains etMode table fd
        (recvs table fd chunks ++ .recv fd (table.files fd) res :: ending table fd res)

/-- The walk over the writable events. -/
def Asked (table : Table) (evs : List Event) : List Event → List Call → Prop :=
  Visits (evs.filter Event.epollout) fun e => Asks table e.fd

/-- The walk over the readable events. -/
def Drained (etMode : Bool) (table : Table) (evs : List Event) : List Event → List Call → Prop :=
  Visits (evs.filter Event.epollin) fun e => Drains etMode table e.fd

/-- A state of the pass that began in `s₀`, with the calls made so far. -/
inductive Passing (etMode : Bool) (s₀ : State) (evs : List Event) : State → Prop
  | write {i W} : Asked s₀.table evs (evs.take i) W →
      Passing etMode s₀ evs ⟨s₀.table, s₀.interest, evs, .write i, s₀.log ++ W⟩
  | send {i e W} : evs[i]? = some e → e.epollout = true → Asked s₀.table evs (evs.take i) W →
      Passing etMode s₀ evs ⟨s₀.table, s₀.interest, evs, .send i,
        s₀.log ++ W ++ [.getsockopt e.fd (s₀.table.files e.fd) (some 0)]⟩
  | read {table interest i W R} : (∀ e ∈ evs.drop i, table.files e.fd = s₀.table.files e.fd) →
      Asked s₀.table evs evs W → Drained etMode s₀.table evs (evs.take i) R →
      Passing etMode s₀ evs ⟨table, interest, evs, .read i, s₀.log ++ W ++ R⟩
  | reading {table interest i e W R chunks} : evs[i]? = some e → e.epollin = true →
      etMode = true → (∀ e ∈ evs.drop i, table.files e.fd = s₀.table.files e.fd) →
      Asked s₀.table evs evs W → Drained etMode s₀.table evs (evs.take i) R →
      Passing etMode s₀ evs ⟨table, interest, evs, .read i,
        s₀.log ++ W ++ R ++ recvs s₀.table e.fd chunks⟩
  | ctlDel {table interest i e W R chunks res} : evs[i]? = some e → e.epollin = true →
      (etMode = false → chunks = []) → res = .eof ∨ res = .fail →
      (∀ e ∈ evs.drop i, table.files e.fd = s₀.table.files e.fd) →
      Asked s₀.table evs evs W → Drained etMode s₀.table evs (evs.take i) R →
      Passing etMode s₀ evs ⟨table, interest, evs, .ctlDel i, s₀.log ++ W ++ R ++
        recvs s₀.table e.fd chunks ++ [.recv e.fd (s₀.table.files e.fd) res]⟩
  | close {table interest i e W R chunks res} : evs[i]? = some e → e.epollin = true →
      (etMode = false → chunks = []) → res = .eof ∨ res = .fail →
      (∀ e ∈ evs.drop i, table.files e.fd = s₀.table.files e.fd) →
      Asked s₀.table evs evs W → Drained etMode s₀.table evs (evs.take i) R →
      Passing etMode s₀ evs ⟨table, interest, evs, .close i, s₀.log ++ W ++ R ++
        recvs s₀.table e.fd chunks ++ [.recv e.fd (s₀.table.files e.fd) res] ++
          [.ctlDel e.fd (s₀.table.files e.fd) true]⟩
  | done {table interest W R} : Asked s₀.table evs evs W → Drained etMode s₀.table evs evs R →
      Passing etMode s₀ evs ⟨table, interest, evs, .wait, s₀.log ++ W ++ R⟩

section Step

variable {etMode : Bool} {inherited : List Fd} {s₀ s s' : State} {evs : List Event} {a : Act}
  {e : Event} {i : ℕ} {W R : List Call}

theorem take_succ (hi : evs[i]? = some e) : evs.take (i + 1) = evs.take i ++ [e] := by
  rw [List.take_add_one, hi]
  rfl

theorem take_of_none (hi : evs[i]? = none) : evs.take i = evs :=
  List.take_of_length_le (List.getElem?_eq_none_iff.mp hi)

theorem mem_drop (hi : evs[i]? = some e) : e ∈ evs.drop i := by
  rw [drop_of_getElem? hi]
  exact List.mem_cons_self

theorem passing_start (hw : PollClient etMode inherited s₀ (.wait evs) = some s) :
    Passing etMode s₀ evs s := by
  cases outcome_of_pollClient hw with
  | timeout hp =>
    rw [← List.append_nil s₀.log, ← List.append_nil (s₀.log ++ [])]
    exact .done .nil .nil
  | wait hp hc hne =>
    rw [← List.append_nil s₀.log]
    exact .write .nil

/-- An event without `EPOLLOUT` is passed over. -/
theorem Asked.skip {table : Table} (h : Asked table evs (evs.take i) W) (hi : evs[i]? = some e)
    (he : e.epollout = false) : Asked table evs (evs.take (i + 1)) W := by
  rw [take_succ hi]
  exact Visits.skip h (by simp [he])

theorem Asked.visit {table : Table} {calls : List Call} (h : Asked table evs (evs.take i) W)
    (hi : evs[i]? = some e) (he : e.epollout = true) (hc : Asks table e.fd calls) :
    Asked table evs (evs.take (i + 1)) (W ++ calls) := by
  rw [take_succ hi]
  exact Visits.visit h (List.mem_filter.mpr ⟨List.mem_of_getElem? hi, he⟩) hc

theorem Drained.skip {table : Table} (h : Drained etMode table evs (evs.take i) R)
    (hi : evs[i]? = some e) (he : e.epollin = false) :
    Drained etMode table evs (evs.take (i + 1)) R := by
  rw [take_succ hi]
  exact Visits.skip h (by simp [he])

theorem Drained.visit {table : Table} {calls : List Call}
    (h : Drained etMode table evs (evs.take i) R) (hi : evs[i]? = some e) (he : e.epollin = true)
    (hc : Drains etMode table e.fd calls) :
    Drained etMode table evs (evs.take (i + 1)) (R ++ calls) := by
  rw [take_succ hi]
  exact Visits.visit h (List.mem_filter.mpr ⟨List.mem_of_getElem? hi, he⟩) hc

/-- The first walk. -/
theorem passing_write (hv : Asked s₀.table evs (evs.take i) W)
    (hs : PollClient etMode inherited ⟨s₀.table, s₀.interest, evs, .write i, s₀.log ++ W⟩ a =
      some s') : Passing etMode s₀ evs s' := by
  cases outcome_of_pollClient hs with
  | writeEnd hp hi =>
    cases hp
    rw [take_of_none hi] at hv
    rw [← List.append_nil (s₀.log ++ W)]
    exact .read (fun _ _ => rfl) hv .nil
  | writeSkip hp hi hw =>
    cases hp
    exact .write (hv.skip hi hw)
  | @getsockopt _ e res hp hi hw =>
    cases hp
    by_cases hres : res = some 0
    · subst hres
      exact .send hi hw hv
    · simp only [State.call, if_neg hres]
      rw [List.append_assoc]
      exact .write (hv.visit hi hw (.refused hres))
  | _ => contradiction

/-- The socket is dropped. -/
theorem drains_of_end {table : Table} {fd : Fd} {chunks : List (List UInt8)} {res : Recv}
    (hone : etMode = false → chunks = []) (hres : res = .eof ∨ res = .fail) :
    Drains etMode table fd (recvs table fd chunks ++ ([.recv fd (table.files fd) res] ++
      ([.ctlDel fd (table.files fd) true] ++ [.close fd (table.files fd)]))) := by
  have hend : ending table fd res =
      [.ctlDel fd (table.files fd) true, .close fd (table.files fd)] := by
    rcases hres with rfl | rfl <;> rfl
  have hd : Drains etMode table fd
      (recvs table fd chunks ++ .recv fd (table.files fd) res :: ending table fd res) :=
    .mk hone fun _ chunk => by rcases hres with rfl | rfl <;> simp
  rw [hend] at hd
  exact hd

/-- What follows on a `recv`. -/
theorem passing_recv {table : Table} {interest : List Fd} {log : List Call}
    {res : Recv} (chunks : List (List UInt8)) (hi : evs[i]? = some e) (he : e.epollin = true)
    (hone : etMode = false → chunks = [])
    (ht : ∀ e ∈ evs.drop i, table.files e.fd = s₀.table.files e.fd)
    (hW : Asked s₀.table evs evs W) (hR : Drained etMode s₀.table evs (evs.take i) R)
    (hlog : log = s₀.log ++ W ++ R ++ recvs s₀.table e.fd chunks ++
      [.recv e.fd (s₀.table.files e.fd) res]) :
    Passing etMode s₀ evs ⟨table, interest, evs, afterRecv etMode i res, log⟩ := by
  subst hlog
  have htail : ∀ e ∈ evs.drop (i + 1), table.files e.fd = s₀.table.files e.fd := fun e' he' =>
    ht e' (drop_succ_subset evs i he')
  -- the socket has had its calls
  have hnext : (etMode = true → ∀ chunk, res ≠ .data chunk) → ending s₀.table e.fd res = [] →
      Passing etMode s₀ evs ⟨table, interest, evs, .read (i + 1), s₀.log ++ W ++ R ++
        recvs s₀.table e.fd chunks ++ [.recv e.fd (s₀.table.files e.fd) res]⟩ := by
    intro hlast hend
    have hd : Drains etMode s₀.table e.fd _ := .mk hone hlast
    rw [hend] at hd
    rw [List.append_assoc, List.append_assoc]
    exact .read htail hW (hR.visit hi he hd)
  cases res with
  | data chunk =>
    cases etMode with
    | false => exact hnext nofun rfl
    | true =>
      have hr : recvs s₀.table e.fd (chunks ++ [chunk]) =
          recvs s₀.table e.fd chunks ++ [.recv e.fd (s₀.table.files e.fd) (.data chunk)] :=
        List.map_append ..
      rw [List.append_assoc, ← hr]
      exact .reading hi he rfl ht hW hR
  | again => exact hnext nofun rfl
  | eof => exact .ctlDel hi he hone (.inl rfl) ht hW hR
  | fail => exact .ctlDel hi he hone (.inr rfl) ht hW hR

/-- **The step lemma.** -/
theorem passing_step (hI : Inv s) (h : Passing etMode s₀ evs s) (hp : s.point ≠ .wait)
    (hs : PollClient etMode inherited s a = some s') : Passing etMode s₀ evs s' := by
  cases h with
  | done _ _ => exact absurd rfl hp
  | write hv => exact passing_write hv hs
  | @send i e W hi he hv =>
    cases outcome_of_pollClient hs with
    | send hp hi' =>
      cases hp
      obtain rfl := Option.some.inj (hi.symm.trans hi')
      simp only [State.call]
      rw [List.append_assoc, List.append_assoc]
      exact .write (hv.visit hi he .greeted)
    | _ => contradiction
  | @read table interest i W R ht hW hR =>
    cases outcome_of_pollClient hs with
    | readEnd hp hi =>
      cases hp
      rw [take_of_none hi] at hR
      exact .done hW hR
    | readSkip hp hi hr =>
      cases hp
      exact .read (fun e he => ht e (drop_succ_subset evs _ he)) hW (hR.skip hi hr)
    | @recv _ e res hp hi hr hcan =>
      cases hp
      refine passing_recv [] hi hr (fun _ => rfl) ht hW hR ?_
      simp only [ht e (mem_drop hi), recvs, List.map_nil, List.append_nil]
    | _ => contradiction
  | @reading table interest i e W R chunks hi he het ht hW hR =>
    cases outcome_of_pollClient hs with
    | readEnd hp hi' =>
      cases hp
      rw [hi] at hi'
      cases hi'
    | readSkip hp hi' hr =>
      cases hp
      obtain rfl := Option.some.inj (hi.symm.trans hi')
      rw [he] at hr
      cases hr
    | recv hp hi' hr hcan =>
      cases hp
      obtain rfl := Option.some.inj (hi.symm.trans hi')
      refine passing_recv chunks hi he (fun h => absurd het (by simp [h])) ht hW hR ?_
      simp only [ht e (mem_drop hi)]
    | _ => contradiction
  | @ctlDel table interest i e W R chunks res hi he hone hres ht hW hR =>
    cases outcome_of_pollClient hs with
    | ctlDel hp hi' hopen hin =>
      cases hp
      obtain rfl := Option.some.inj (hi.symm.trans hi')
      simp only [State.call, ht e (mem_drop hi)]
      exact .close hi he hone hres ht hW hR
    | ctlDelFail hp hi' hno =>
      have hmem := mem_ahead (.inr (.inr (.inr hp))) hi'
      exact absurd ⟨hI.isSome hmem, hI.ahead _ hmem⟩ hno
    | _ => contradiction
  | @close table interest i e W R chunks res hi he hone hres ht hW hR =>
    cases outcome_of_pollClient hs with
    | close hp hi' =>
      cases hp
      obtain rfl := Option.some.inj (hi.symm.trans hi')
      simp only [State.call, ht e (mem_drop hi)]
      rw [List.append_assoc, List.append_assoc, List.append_assoc, List.append_assoc (s₀.log ++ W)]
      refine .read (fun e' he' => ?_) hW (hR.visit hi he (drains_of_end hone hres))
      rw [Table.files_close, if_neg (hI.ne_of_behind hi he')]
      exact ht e' (drop_succ_subset evs i he')
    | _ => contradiction

end Step

/-- The calls of a pass over `evs`: first those on the writable sockets, then on the readable. -/
def IsPass (etMode : Bool) (table : Table) (evs : List Event) (calls : List Call) : Prop :=
  ∃ W R, calls = W ++ R ∧ Asked table evs evs W ∧ Drained etMode table evs evs R

section Runs

variable {etMode : Bool} {inherited : List Fd} {s₀ s₁ s : State} {evs : List Event}
  {as bs : List Act}

/-- **The passes of the epoll client.**  Between two waits, every event is handled once, in the
order of the array; with `etMode` a readable socket is read until a `recv` has no data, else once;
and it is deleted and closed exactly after the end of its stream or an error. -/
theorem epollClient_pass (h : Run (PollClient etMode inherited) free init as s₀)
    (hw : PollClient etMode inherited s₀ (.wait evs) = some s₁)
    (hr : Run (PollClient etMode inherited) (fun s _ => s.point ≠ .wait) s₁ bs s)
    (hs : s.point = .wait) :
    ∃ calls, s.log = s₀.log ++ calls ∧ IsPass etMode s₀.table evs calls := by
  have h₁ : Inv s₁ := inv_step (inv_of_run h) hw
  have hp : Inv s ∧ Passing etMode s₀ evs s := hr.invariant
    (I := fun s => Inv s ∧ Passing etMode s₀ evs s) ⟨h₁, passing_start hw⟩
    fun _ _ _ hI hg hs => ⟨inv_step hI.1 hs, passing_step hI.1 hI.2 hg hs⟩
  cases hp.2 with
  | done hW hR => exact ⟨_, List.append_assoc .., _, _, rfl, hW, hR⟩
  | _ => cases hs

/-- The pass of `twoSockets`: one socket is drained and both are dropped. -/
theorem epollClient_pass_two : ∃ (s₀ s : State) (calls : List Call), s₀.interest = [4, 5] ∧
    s.interest = [] ∧ s.log = s₀.log ++ calls ∧ calls.length = 10 ∧
    IsPass true s₀.table [⟨5, true, true⟩, ⟨4, true, false⟩] calls := by
  obtain ⟨s₀, h, hint, hlen, hrest⟩ : ∃ s₀, Run (PollClient true [0, 1, 2, 3]) free init
      (twoSockets.take 10) s₀ ∧ s₀.interest = [4, 5] ∧ s₀.log.length = 9 ∧
      ((PollClient true [0, 1, 2, 3] s₀ (.wait [⟨5, true, true⟩, ⟨4, true, false⟩])).any fun s₁ =>
        (exec (PollClient true [0, 1, 2, 3]) (fun s _ => s.point ≠ .wait) s₁
          (twoSockets.drop 11)).any fun s =>
            decide (s.point = .wait ∧ s.interest = [] ∧ s.log.length = 19)) = true :=
    Run.exists_of_exec _ _ (by decide)
  obtain ⟨s₁, hw, hrest⟩ := (Option.any_eq_true _ _).mp hrest
  obtain ⟨s, hr, hp, hempty, hlen'⟩ := Run.exists_of_exec _ _ hrest
  obtain ⟨calls, hlog, hpass⟩ := epollClient_pass h hw hr hp
  refine ⟨s₀, s, calls, hint, hempty, hlog, ?_, hpass⟩
  rw [hlog, List.length_append, hlen] at hlen'
  omega

end Runs

end PracticeCode.MultiplexClient.Epoll
