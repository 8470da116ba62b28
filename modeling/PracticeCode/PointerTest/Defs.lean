import PracticeCode.Lib.Run
import Mathlib.Algebra.Ring.Nat
import Mathlib.Logic.Function.Basic

/-!
# `pointerTest.h`: the smart pointer `IntPtr`

A `U_Ptr` keeps an `int*` and how many `IntPtr` objects share it.  The copy constructor counts up;
the assignment counts the right side up and the left side down and deletes the left one at zero; the
destructor counts down and, at zero, only prints.

The objects of a program are a list in the order of their construction, an object that was destroyed
is `none`.  `none` as the result of an operation is an access through a null pointer or to deleted
memory.  `use` counts objects of the program, so that it does not come near the end of `size_t`.
-/

namespace PracticeCode.PointerTest

abbrev Addr := ℕ

structure U_Ptr where
  p : Addr
  use : ℕ
  deriving DecidableEq

structure IntPtr where
  ptr : Option Addr
  name : String
  deriving DecidableEq

/-- What `new` gave and `delete` did not take back. -/
structure Heap where
  uptrs : Addr → Option U_Ptr
  ints : Addr → Option ℤ

structure State where
  heap : Heap
  handles : List (Option IntPtr)

def init : State := ⟨⟨fun _ => none, fun _ => none⟩, []⟩

namespace Heap

/-- `new U_Ptr(new int(v))`, where the allocator gives the addresses `u` and `p`. -/
def newUPtr (h : Heap) (u p : Addr) (v : ℤ) : Heap where
  uptrs := Function.update h.uptrs u (some ⟨p, 1⟩)
  ints := Function.update h.ints p (some v)

/-- `++ptr->use` -/
def incUse (h : Heap) (u : Addr) : Option Heap :=
  (h.uptrs u).map fun c =>
    { h with uptrs := Function.update h.uptrs u (some { c with use := c.use + 1 }) }

/-- `--ptr->use`, and its value. -/
def decUse (h : Heap) (u : Addr) : Option (ℕ × Heap) :=
  (h.uptrs u).map fun c => (c.use - 1,
    { h with uptrs := Function.update h.uptrs u (some { c with use := c.use - 1 }) })

/-- `delete ptr`; `~U_Ptr` deletes the `int`. -/
def delete (h : Heap) (u : Addr) : Option Heap :=
  (h.uptrs u).bind fun c => (h.ints c.p).map fun _ =>
    { uptrs := Function.update h.uptrs u none, ints := Function.update h.ints c.p none }

/-! ## The members of `IntPtr` that touch the heap -/

/-- `IntPtr(const IntPtr &obj)` reads `ptr->use` without a test. -/
def copyConstruct (h : Heap) (obj : IntPtr) : Option Heap := obj.ptr.bind h.incUse

/-- The first half of `operator=`: the right side counts up. -/
def assignAdd (h : Heap) (obj : IntPtr) : Option Heap :=
  match obj.ptr with
  | some u => h.incUse u
  | none => some h

/-- The second half: the left side counts down, and deletes at zero. -/
def assignSub (h : Heap) (this : IntPtr) : Option Heap :=
  match this.ptr with
  | some u => (h.decUse u).bind fun r => if r.1 = 0 then r.2.delete u else some r.2
  | none => some h

/-- `operator=` up to the two assignments of its end. -/
def assign (h : Heap) (this obj : IntPtr) : Option Heap :=
  (h.assignAdd obj).bind fun h => h.assignSub this

/-- `~IntPtr`: at zero there is only the output. -/
def destruct (h : Heap) (this : IntPtr) : Option Heap :=
  match this.ptr with
  | some u => (h.decUse u).map Prod.snd
  | none => some h

/-- `*ptr->p` -/
def get_val (h : Heap) (this : IntPtr) : Option ℤ :=
  this.ptr.bind fun u => (h.uptrs u).bind fun c => h.ints c.p

def set_val (h : Heap) (this : IntPtr) (val : ℤ) : Option Heap :=
  this.ptr.bind fun u => (h.uptrs u).bind fun c => (h.ints c.p).map fun _ =>
    { h with ints := Function.update h.ints c.p (some val) }

end Heap

/-! ## Programs -/

/-- The `i`-th object, while it lives. -/
def State.handle (s : State) (i : ℕ) : Option IntPtr := s.handles[i]?.join

inductive Op where
  /-- `IntPtr b;` -/
  | default
  /-- `IntPtr b(new int(v), name);` -/
  | new (u p : Addr) (v : ℤ) (name : String)
  /-- `IntPtr b = a;` -/
  | copy (a : ℕ)
  /-- `b = a;` -/
  | assign (b a : ℕ)
  | get_val (a : ℕ)
  | set_val (a : ℕ) (val : ℤ)
  /-- The end of the life of `a`. -/
  | destroy (a : ℕ)
  deriving DecidableEq

def step (s : State) : Op → Option State
  | .default => some { s with handles := s.handles ++ [some ⟨none, ""⟩] }
  | .new u p v name => some
      { heap := s.heap.newUPtr u p v, handles := s.handles ++ [some ⟨some u, name⟩] }
  | .copy a => do
    let obj ← s.handle a
    let h ← s.heap.copyConstruct obj
    some { heap := h, handles := s.handles ++ [some obj] }
  | .assign b a => do
    let obj ← s.handle a
    let this ← s.handle b
    let h ← s.heap.assign this obj
    some { heap := h, handles := s.handles.set b (some obj) }
  | .get_val a => do
    let this ← s.handle a
    let _ ← s.heap.get_val this
    some s
  | .set_val a val => do
    let this ← s.handle a
    let h ← s.heap.set_val this val
    some { s with heap := h }
  | .destroy a => do
    let this ← s.handle a
    let h ← s.heap.destruct this
    some { heap := h, handles := s.handles.set a none }

/-- The object `a` lives and is not null. -/
def State.NonNull (s : State) (a : ℕ) : Prop := ((s.handle a).bind (·.ptr)).isSome

/-- What a program does: it names objects that live, copies and reads non-null ones, and `new` gives
memory that is not in use. -/
def allowed (s : State) : Op → Prop
  | .default => True
  | .new u p _ _ => s.heap.uptrs u = none ∧ s.heap.ints p = none
  | .copy a | .get_val a | .set_val a _ => s.NonNull a
  | .assign b a => (s.handle a).isSome ∧ (s.handle b).isSome
  | .destroy a => (s.handle a).isSome

instance (s : State) (a : ℕ) : Decidable (s.NonNull a) := by unfold State.NonNull; infer_instance

instance (s : State) (op : Op) : Decidable (allowed s op) := by
  induction op using Op.casesOn <;> unfold allowed <;> infer_instance

/-- What the objects that live refer to; a null one and a destroyed one to nothing. -/
def State.targets (s : State) : List (Option Addr) := s.handles.map (Option.bind · IntPtr.ptr)

end PracticeCode.PointerTest
