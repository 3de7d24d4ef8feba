import WasmEngine.Code

/-!
# Open scopes

While a body is compiled, each block, loop or conditional that is still open, and the function
itself, is a scope. A scope knows the types of the operands pushed in it and, for each lane, how
many operands lay below it when it opened, which fixes the slot of every operand.
-/

namespace WasmEngine

/-- What opened a scope. A conditional changes to its second arm at `otherwise`. -/
inductive Scope.Kind where
  | function
  | block
  | loop
  | thenArm (cond : Slot)
  | elseArm (cond : Slot) (thenBody : List Stmt)

structure Scope where
  kind : Scope.Kind
  result : Option ValueType
  /-- Nesting depth; the function is at depth 0. -/
  label : Nat
  /-- Operands below the scope, by lane. -/
  base : Lanes Nat
  /-- Offset of the instruction that opened the scope. -/
  offset : Nat
  /-- Types of the operands pushed in the scope, the latest first. -/
  types : List ValueType := []
  /-- How many of `types` are in each lane. -/
  live : Lanes Nat := Lanes.zero
  /-- Whether control cannot reach this point: operands may then be popped out of nothing. -/
  unreachable : Bool := false
  /-- Statements so far. -/
  body : Array Stmt := #[]

namespace Scope

/-- The slot of the next operand of type `t`. -/
def nextSlot (s : Scope) (t : ValueType) : Slot := .stack t (s.base.get t + s.live.get t)

/-- The slot in which the scope leaves a result of type `t`: the lowest of its lane. -/
def outputSlot (s : Scope) (t : ValueType) : Slot := .stack t (s.base.get t)

/-- The operand that a branch to the scope carries. A branch to a loop restarts it and carries
none. -/
def labelType (s : Scope) : Option ValueType :=
  match s.kind with
  | .loop => none
  | _ => s.result

/-- Operands up to and including those of the scope. -/
def height (s : Scope) : Lanes Nat := s.base.plus s.live

def push (s : Scope) (t : ValueType) : Scope :=
  { s with types := t :: s.types, live := s.live.incr t }

def emit (s : Scope) (stmt : Stmt) : Scope := { s with body := s.body.push stmt }

/-- What follows cannot be reached: the operands are gone. -/
def cut (s : Scope) : Scope :=
  { s with types := [], live := Lanes.zero, unreachable := true }

/-- Where a branch to the scope leads when it carries the operand in `carried`. -/
def target (s : Scope) (carried : Option Slot) : Target :=
  match s.kind with
  | .function => .ret carried
  | .loop => .restart s.label
  | _ => .leave s.label (do return (← carried, s.outputSlot (← s.result)))

end Scope

end WasmEngine
