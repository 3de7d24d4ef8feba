import WasmEngine.Type

/-!
# Values

What compiled code computes with. Integers are machine words and floats are raw IEEE 754 bit
patterns, so that copying a value keeps every bit of it, the payload of a NaN included.
-/

namespace WasmEngine

inductive Value where
  | i32 (bits : BitVec 32)
  | i64 (bits : BitVec 64)
  | f32 (bits : BitVec 32)
  | f64 (bits : BitVec 64)
deriving DecidableEq, Inhabited

namespace Value

def type : Value → ValueType
  | i32 _ => .i32
  | i64 _ => .i64
  | f32 _ => .f32
  | f64 _ => .f64

/-- What locals and operands of the type hold at first. -/
def zero : ValueType → Value
  | .i32 => i32 0
  | .i64 => i64 0
  | .f32 => f32 0
  | .f64 => f64 0

def i32? : Value → Option (BitVec 32)
  | i32 v => some v
  | _ => none

@[simp] theorem type_zero (t : ValueType) : (zero t).type = t := by
  cases t <;> rfl

end Value

end WasmEngine
