import WasmEngine.Operator

/-!
# Instructions

The instructions of a function body, as a flat sequence in which `block`, `loop` and `conditional`
open a nested sequence, `otherwise` starts the second arm of a conditional, and `close` ends what
was opened last. Memory is accessed in words, halves and bytes: narrow loads extend to a word,
narrow stores keep the low bytes of one.
-/

namespace WasmEngine

/-- Width of a memory access and, for a load, the extension to a word. -/
inductive Access where
  | word
  | byteS
  | byteU
  | halfS
  | halfU
deriving DecidableEq

namespace Access

def name : Access → String
  | word => "I32"
  | byteS => "I32From8S"
  | byteU => "I32From8U"
  | halfS => "I32From16S"
  | halfU => "I32From16U"

/-- Bytes touched. -/
def width : Access → Nat
  | word => 4
  | byteS => 1
  | byteU => 1
  | halfS => 2
  | halfU => 2

end Access

/-- Declared alignment, as an exponent of two, and static offset of a memory access. -/
structure MemArg where
  align : Nat
  offset : Nat
deriving DecidableEq

inductive Instr where
  | unreachable
  | nop
  | block (result : Option ValueType)
  | loop (result : Option ValueType)
  | conditional (result : Option ValueType)
  | otherwise
  | close
  | br (depth : Nat)
  | brIf (depth : Nat)
  | brTable (depths : List Nat) (default : Nat)
  | ret
  | call (func : Nat)
  | callIndirect (type : Nat)
  | drop
  | select
  | localGet (index : Nat)
  | localSet (index : Nat)
  | localTee (index : Nat)
  | globalGet (index : Nat)
  | globalSet (index : Nat)
  | load (access : Access) (arg : MemArg)
  | store (access : Access) (arg : MemArg)
  | memorySize
  | memoryGrow
  | const (value : Value)
  | unary (op : UnaryOp)
  | binary (op : BinaryOp)
deriving DecidableEq

end WasmEngine
