import WasmEngine.Type

/-!
# Operand lanes

Compiled code keeps the operands of each value type apart, in four lanes. `Lanes` holds one item
per lane: a count of operands while code is compiled, an array of values while it runs.
-/

namespace WasmEngine

structure Lanes (α : Type) where
  i32 : α
  i64 : α
  f32 : α
  f64 : α
deriving DecidableEq, Inhabited

namespace Lanes

variable {α β : Type}

def ofFn (f : ValueType → α) : Lanes α := ⟨f .i32, f .i64, f .f32, f .f64⟩

def get (l : Lanes α) : ValueType → α
  | .i32 => l.i32
  | .i64 => l.i64
  | .f32 => l.f32
  | .f64 => l.f64

/-- Apply `f` to the item of one lane. -/
def modify (l : Lanes α) (t : ValueType) (f : α → α) : Lanes α :=
  match l, t with
  | ⟨a, b, c, d⟩, .i32 => ⟨f a, b, c, d⟩
  | ⟨a, b, c, d⟩, .i64 => ⟨a, f b, c, d⟩
  | ⟨a, b, c, d⟩, .f32 => ⟨a, b, f c, d⟩
  | ⟨a, b, c, d⟩, .f64 => ⟨a, b, c, f d⟩

def toList (l : Lanes α) : List α := [l.i32, l.i64, l.f32, l.f64]

@[simp] theorem get_ofFn (f : ValueType → α) (t : ValueType) : (ofFn f).get t = f t := by
  cases t <;> rfl

theorem get_modify (l : Lanes α) (t u : ValueType) (f : α → α) :
    (l.modify t f).get u = if u = t then f (l.get u) else l.get u := by
  cases t <;> cases u <;> rfl

@[ext] theorem ext_get {a b : Lanes α} (h : ∀ t, a.get t = b.get t) : a = b := by
  have h32 := h .i32
  have h64 := h .i64
  have hf32 := h .f32
  have hf64 := h .f64
  cases a
  cases b
  simp_all [get]

/-- No operand in any lane. -/
def zero : Lanes Nat := ofFn fun _ ↦ 0

def plus (a b : Lanes Nat) : Lanes Nat := ofFn fun t ↦ a.get t + b.get t

/-- The larger count in each lane. -/
def raise (a b : Lanes Nat) : Lanes Nat := ofFn fun t ↦ max (a.get t) (b.get t)

def total (a : Lanes Nat) : Nat := a.i32 + a.i64 + a.f32 + a.f64

/-- One operand more in lane `t`. -/
def incr (a : Lanes Nat) (t : ValueType) : Lanes Nat := a.modify t (· + 1)

/-- One operand fewer in lane `t`. -/
def decr (a : Lanes Nat) (t : ValueType) : Lanes Nat := a.modify t (· - 1)

/-- How often each type occurs. -/
def count (ts : List ValueType) : Lanes Nat := ts.foldl incr zero

@[simp] theorem get_zero (t : ValueType) : zero.get t = 0 := by simp [zero]

@[simp] theorem get_plus (a b : Lanes Nat) (t : ValueType) :
    (a.plus b).get t = a.get t + b.get t := by simp [plus]

@[simp] theorem get_raise (a b : Lanes Nat) (t : ValueType) :
    (a.raise b).get t = max (a.get t) (b.get t) := by simp [raise]

theorem get_incr (a : Lanes Nat) (t u : ValueType) :
    (a.incr t).get u = if u = t then a.get u + 1 else a.get u := get_modify ..

theorem get_decr (a : Lanes Nat) (t u : ValueType) :
    (a.decr t).get u = if u = t then a.get u - 1 else a.get u := get_modify ..

end Lanes

end WasmEngine
