import WasmEngine.Instr
import WasmEngine.Lanes

/-!
# Compiled code

Compiled code is structured: a body is a list of statements, and blocks, loops and conditionals are
statements that hold bodies of their own. In place of an operand stack it has slots: one per local,
and one per height in each lane of operands. Blocks, loops and conditionals are labelled by their
nesting depth, and branches name the label they leave or restart.
-/

namespace WasmEngine

/-- Where an operand is kept. -/
inductive Slot where
  | local (index : Nat)
  | stack (lane : ValueType) (height : Nat)
deriving DecidableEq, Inhabited

/-- Where a branch leads. -/
inductive Target where
  /-- Leave the block or conditional, after moving the carried operand, if any, into place. -/
  | leave (label : Nat) (carry : Option (Slot × Slot))
  /-- Start the loop again. -/
  | restart (label : Nat)
  /-- Leave the function. -/
  | ret (value : Option Slot)
deriving DecidableEq, Inhabited

inductive Stmt where
  | unreachable
  | block (label : Nat) (body : List Stmt)
  | loop (label : Nat) (body : List Stmt)
  | conditional (label : Nat) (cond : Slot) (thenBody elseBody : List Stmt)
  | branch (target : Target)
  | branchIf (cond : Slot) (target : Target)
  | branchTable (index : Slot) (targets : List Target) (default : Target)
  | ret (value : Option Slot)
  | call (func : Nat) (args : List Slot) (result : Option Slot)
  | callIndirect (type : Nat) (callee : Slot) (args : List Slot) (result : Option Slot)
  | copy (dst src : Slot)
  | const (dst : Slot) (value : Value)
  | globalGet (dst : Slot) (global : Nat)
  | globalSet (global : Nat) (src : Slot)
  /-- Keep `dst` unless the condition is zero, and then take `ifFalse`. -/
  | select (dst ifFalse cond : Slot)
  | unary (op : UnaryOp) (dst operand : Slot)
  | binary (op : BinaryOp) (dst lhs rhs : Slot)
  | load (access : Access) (offset : Nat) (dst addr : Slot)
  | store (access : Access) (offset : Nat) (addr value : Slot)
  | memorySize (dst : Slot)
  | memoryGrow (dst delta : Slot)
deriving Inhabited

/-- A compiled function: its body, and the slots that a call of it needs. -/
structure Code where
  type : FuncType
  /-- Parameters, then declared locals. -/
  locals : List ValueType
  body : List Stmt
  localSlots : Lanes Nat
  stackSlots : Lanes Nat
deriving Inhabited

end WasmEngine
