import PracticeCode.Lib.Run

/-!
# A lock and who has it

Any number of threads take a lock and give it back.  The state is the thread that has the lock.

* `Matched`: every `acquire` is followed by the `release` of the same thread before the next one;
* `matched_of_run`: the operations of every run are matched, but for the one of the thread that has
  the lock.
-/

namespace PracticeCode.Lib.Lock

variable {ι : Type*}

inductive Op (ι : Type*) where
  | acquire (i : ι)
  | release (i : ι)
  deriving DecidableEq

def step [DecidableEq ι] : Option ι → Op ι → Option (Option ι)
  | none, .acquire i => some (some i)
  | some j, .release i => if i = j then some none else none
  | _, _ => none

/-- The operations on a lock that `holder` has at the end. -/
inductive Matched : List (Op ι) → Option ι → Prop
  | nil : Matched [] none
  | acquire {ops} (i : ι) : Matched ops none → Matched (ops ++ [.acquire i]) (some i)
  | release {ops} {i : ι} : Matched ops (some i) → Matched (ops ++ [.release i]) none

theorem matched_of_run [DecidableEq ι] {ops : List (Op ι)} {holder : Option ι}
    (h : Run step free none ops holder) : Matched ops holder := by
  induction h with
  | nil => exact .nil
  | @snoc ops holder holder' op _ _ hs ih =>
    cases holder with
    | none =>
      cases op with
      | acquire i =>
        obtain rfl := Option.some.inj hs
        exact .acquire i ih
      | release i => cases hs
    | some j =>
      cases op with
      | acquire i => cases hs
      | release i =>
        simp only [step, Option.ite_none_right_eq_some, Option.some.injEq] at hs
        obtain ⟨rfl, rfl⟩ := hs
        exact .release ih

/-- At most one thread is inside. -/
def Exclusive (inside : ι → Prop) : Prop := ∀ i j, inside i → inside j → i = j

theorem exclusive_of_holder {inside : ι → Prop} {holder : Option ι}
    (h : ∀ i, inside i → holder = some i) : Exclusive inside := fun i j hi hj =>
  Option.some.inj ((h i hi).symm.trans (h j hj))

end PracticeCode.Lib.Lock
