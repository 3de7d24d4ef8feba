import WasmEngine.Trap
import WasmEngine.Value

/-!
# Integer operators

The 32-bit integer operators on machine words. A comparison gives the word 1 or 0. Division traps
on a zero divisor, and signed division on the one quotient that has no word. Shift and rotation
distances are taken modulo 32.
-/

namespace WasmEngine

inductive UnaryOp where
  | eqz
  | clz
  | ctz
  | popcnt
deriving DecidableEq

inductive BinaryOp where
  | eq
  | ne
  | ltS
  | ltU
  | gtS
  | gtU
  | leS
  | leU
  | geS
  | geU
  | add
  | sub
  | mul
  | divS
  | divU
  | remS
  | remU
  | and
  | or
  | xor
  | shl
  | shrS
  | shrU
  | rotl
  | rotr
deriving DecidableEq

/-- The word of a truth value. -/
def ofBool32 (b : Bool) : BitVec 32 := if b then 1 else 0

/-- The word in a value, which must be a 32-bit integer. -/
def i32Operand (v : Value) : Except Trap (BitVec 32) :=
  match v.i32? with
  | some w => .ok w
  | none => .error (.operandType .i32)

namespace UnaryOp

def name : UnaryOp → String
  | eqz => "I32Eqz"
  | clz => "I32Clz"
  | ctz => "I32Ctz"
  | popcnt => "I32Popcnt"

def operand (_ : UnaryOp) : ValueType := .i32

def result (_ : UnaryOp) : ValueType := .i32

def apply : UnaryOp → BitVec 32 → BitVec 32
  | eqz, a => ofBool32 (a == 0)
  | clz, a => a.clz
  | ctz, a => a.ctz
  | popcnt, a => a.cpop

def eval (op : UnaryOp) (v : Value) : Except Trap Value := do
  let a ← i32Operand v
  return .i32 (op.apply a)

end UnaryOp

namespace BinaryOp

def name : BinaryOp → String
  | eq => "I32Eq"
  | ne => "I32Ne"
  | ltS => "I32LtS"
  | ltU => "I32LtU"
  | gtS => "I32GtS"
  | gtU => "I32GtU"
  | leS => "I32LeS"
  | leU => "I32LeU"
  | geS => "I32GeS"
  | geU => "I32GeU"
  | add => "I32Add"
  | sub => "I32Sub"
  | mul => "I32Mul"
  | divS => "I32DivS"
  | divU => "I32DivU"
  | remS => "I32RemS"
  | remU => "I32RemU"
  | and => "I32And"
  | or => "I32Or"
  | xor => "I32Xor"
  | shl => "I32Shl"
  | shrS => "I32ShrS"
  | shrU => "I32ShrU"
  | rotl => "I32Rotl"
  | rotr => "I32Rotr"

def operand (_ : BinaryOp) : ValueType := .i32

def result (_ : BinaryOp) : ValueType := .i32

def apply (op : BinaryOp) (a b : BitVec 32) : Except Trap (BitVec 32) :=
  let distance := b.toNat % 32
  match op with
  | eq => .ok (ofBool32 (a == b))
  | ne => .ok (ofBool32 (a != b))
  | ltS => .ok (ofBool32 (a.slt b))
  | ltU => .ok (ofBool32 (a.ult b))
  | gtS => .ok (ofBool32 (b.slt a))
  | gtU => .ok (ofBool32 (b.ult a))
  | leS => .ok (ofBool32 (a.sle b))
  | leU => .ok (ofBool32 (a.ule b))
  | geS => .ok (ofBool32 (b.sle a))
  | geU => .ok (ofBool32 (b.ule a))
  | add => .ok (a + b)
  | sub => .ok (a - b)
  | mul => .ok (a * b)
  | divS =>
    if b = 0 then .error .divideByZero
    else if a = BitVec.intMin 32 ∧ b = -1 then .error .integerOverflow
    else .ok (a.sdiv b)
  | divU => if b = 0 then .error .divideByZero else .ok (a.udiv b)
  | remS => if b = 0 then .error .divideByZero else .ok (a.srem b)
  | remU => if b = 0 then .error .divideByZero else .ok (a.umod b)
  | and => .ok (a &&& b)
  | or => .ok (a ||| b)
  | xor => .ok (a ^^^ b)
  | shl => .ok (a <<< distance)
  | shrS => .ok (a.sshiftRight distance)
  | shrU => .ok (a >>> distance)
  | rotl => .ok (a.rotateLeft distance)
  | rotr => .ok (a.rotateRight distance)

def eval (op : BinaryOp) (lhs rhs : Value) : Except Trap Value := do
  let a ← i32Operand lhs
  let b ← i32Operand rhs
  return .i32 (← op.apply a b)

end BinaryOp

/-- An operator with one operand or with two. -/
inductive Operator where
  | unary (op : UnaryOp)
  | binary (op : BinaryOp)
deriving DecidableEq

/-- The operator of an opcode, if the opcode is numeric. -/
def Operator.ofOpcode : Nat → Option Operator
  | 0x45 => some (.unary .eqz)
  | 0x46 => some (.binary .eq)
  | 0x47 => some (.binary .ne)
  | 0x48 => some (.binary .ltS)
  | 0x49 => some (.binary .ltU)
  | 0x4a => some (.binary .gtS)
  | 0x4b => some (.binary .gtU)
  | 0x4c => some (.binary .leS)
  | 0x4d => some (.binary .leU)
  | 0x4e => some (.binary .geS)
  | 0x4f => some (.binary .geU)
  | 0x67 => some (.unary .clz)
  | 0x68 => some (.unary .ctz)
  | 0x69 => some (.unary .popcnt)
  | 0x6a => some (.binary .add)
  | 0x6b => some (.binary .sub)
  | 0x6c => some (.binary .mul)
  | 0x6d => some (.binary .divS)
  | 0x6e => some (.binary .divU)
  | 0x6f => some (.binary .remS)
  | 0x70 => some (.binary .remU)
  | 0x71 => some (.binary .and)
  | 0x72 => some (.binary .or)
  | 0x73 => some (.binary .xor)
  | 0x74 => some (.binary .shl)
  | 0x75 => some (.binary .shrS)
  | 0x76 => some (.binary .shrU)
  | 0x77 => some (.binary .rotl)
  | 0x78 => some (.binary .rotr)
  | _ => none

end WasmEngine
