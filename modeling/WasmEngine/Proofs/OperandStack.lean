import WasmEngine.Machine
import WasmEngine.Proofs.StoreForm

/-!
# Instructions on an operand stack

The meaning of a function body as it stands in a binary: a flat sequence of instructions that take
their operands off a stack and leave their results there. A construct that is open has a label. The
label knows how many operands lay below the construct when it was entered and where a branch to it
leads: back to the start of a loop, or behind the end of a block or conditional. A branch drops the
operands above that height, except for the one that it carries.

Memories, tables, globals and calls are those of the machine. Operands that are missing, which does
not happen in a body that decodes, end the run with a trap that no instruction raises.
-/

namespace WasmEngine

namespace Instr

/-- What follows the end of the construct that the instructions stand in, if `depth` more constructs
are open. -/
def afterClose : Nat → List Instr → Option (List Instr)
  | _, [] => none
  | depth, i :: is =>
    if i = .close ∧ depth = 0 then some is else afterClose (i.nesting depth) is

/-- Where a conditional goes on whose first arm is passed over: to its second arm, or to its end if
there is none. -/
def elseArm : Nat → List Instr → Option (List Instr)
  | _, [] => none
  | depth, i :: is =>
    if i = .otherwise ∧ depth = 0 then some is
    else if i = .close ∧ depth = 0 then some (i :: is)
    else elseArm (i.nesting depth) is

end Instr

namespace Stacked

structure Label where
  isLoop : Bool
  result : Option ValueType
  /-- Operands below the construct. -/
  height : Nat
  /-- Where a branch to the label leads. -/
  target : List Instr

structure Activation where
  /-- Address of the instance that the code belongs to. -/
  inst : Nat
  /-- What the function returns. -/
  result : Option ValueType
  locals : Array Value
  /-- Operands, the latest first. -/
  operands : List Value
  /-- Open constructs, innermost first. -/
  labels : List Label
  /-- Instructions ahead. -/
  code : List Instr

/-- A call that waits for a callee, whose value becomes an operand if the callee has a result. -/
structure Waiting where
  activation : Activation
  result : Option ValueType

namespace Activation

def push (a : Activation) (v : Value) : Activation := { a with operands := v :: a.operands }

def pop (a : Activation) : Exec (Value × Activation) :=
  match a.operands with
  | v :: operands => return (v, { a with operands })
  | [] => throw (.badHandle .slot)

def popI32 (a : Activation) : Exec (BitVec 32 × Activation) := do
  let (v, a) ← a.pop
  return (← ofExcept (i32Operand v), a)

/-- Pop the arguments of a call, of which the last lies on top, and give them in order. -/
def popArgs (a : Activation) (count : Nat) : Exec (List Value × Activation) :=
  if a.operands.length < count then throw (.badHandle .slot)
  else return ((a.operands.take count).reverse, { a with operands := a.operands.drop count })

def localGet (a : Activation) (index : Nat) : Exec Value :=
  match a.locals[index]? with
  | some v => return v
  | none => throw (.badHandle .slot)

def localSet (a : Activation) (index : Nat) (v : Value) : Exec Activation :=
  if index < a.locals.size then return { a with locals := a.locals.setIfInBounds index v }
  else throw (.badHandle .slot)

def leave (a : Activation) : Exec (Action Activation Waiting) :=
  match a.result with
  | some _ => do
    let (v, _) ← a.pop
    return .ret (some v)
  | none => return .ret none

def enter (a : Activation) (isLoop : Bool) (result : Option ValueType) (target code : List Instr) :
    Activation :=
  { a with labels := ⟨isLoop, result, a.operands.length, target⟩ :: a.labels, code }

/-- Branch to the label that is `depth` levels out. The outermost level is the function. -/
def branch (a : Activation) (depth : Nat) : Exec (Action Activation Waiting) :=
  match a.labels.drop depth with
  | [] => if depth = a.labels.length then a.leave else throw (.badHandle .label)
  | l :: outer =>
    let below := a.operands.drop (a.operands.length - l.height)
    if l.isLoop then
      return .next { a with operands := below, labels := l :: outer, code := l.target }
    else
      match l.result with
      | some _ => do
        let (v, a) ← a.pop
        return .next { a with operands := v :: below, labels := outer, code := l.target }
      | none => return .next { a with operands := below, labels := outer, code := l.target }

/-- The place of a label in a sequence of instructions. -/
def place : Option (List Instr) → Exec (List Instr)
  | some is => return is
  | none => throw (.badHandle .label)

def exec (a : Activation) : Instr → Exec (Action Activation Waiting)
  | .unreachable => throw .unreachable
  | .nop => return .next a
  | .block result => do
    let target ← place (Instr.afterClose 0 a.code)
    return .next (a.enter false result target a.code)
  | .loop result => return .next (a.enter true result a.code a.code)
  | .conditional result => do
    let (c, a) ← a.popI32
    let target ← place (Instr.afterClose 0 a.code)
    let otherwise ← place (Instr.elseArm 0 a.code)
    return .next (a.enter false result target (if c ≠ 0 then a.code else otherwise))
  | .otherwise =>
    match a.labels with
    | l :: labels => return .next { a with labels, code := l.target }
    | [] => throw (.badHandle .label)
  | .close =>
    match a.labels with
    | _ :: labels => return .next { a with labels }
    | [] => a.leave
  | .br depth => a.branch depth
  | .brIf depth => do
    let (c, a) ← a.popI32
    if c ≠ 0 then a.branch depth else return .next a
  | .brTable depths default => do
    let (i, a) ← a.popI32
    a.branch (depths[i.toNat]?.getD default)
  | .ret => a.leave
  | .call func => do
    let addr ← Exec.funcAddress a.inst func
    match (← Exec.instanceAt a.inst).module.funcType? func with
    | none => throw (.badHandle .type)
    | some callee =>
      let (args, a) ← a.popArgs callee.params.length
      return .call a.inst addr args ⟨a, callee.result⟩
  | .callIndirect type => do
    let (index, a) ← a.popI32
    let addr ← Exec.indirectCallee a.inst type index.toNat
    match (← Exec.instanceAt a.inst).module.types[type]? with
    | none => throw (.badHandle .type)
    | some callee =>
      let (args, a) ← a.popArgs callee.params.length
      return .call a.inst addr args ⟨a, callee.result⟩
  | .drop => do
    let (_, a) ← a.pop
    return .next a
  | .select => do
    let (c, a) ← a.popI32
    let (ifFalse, a) ← a.pop
    let (ifTrue, a) ← a.pop
    return .next (a.push (if c ≠ 0 then ifTrue else ifFalse))
  | .localGet index => return .next (a.push (← a.localGet index))
  | .localSet index => do
    let (v, a) ← a.pop
    return .next (← a.localSet index v)
  | .localTee index => do
    let (v, a) ← a.pop
    return .next ((← a.localSet index v).push v)
  | .globalGet index => return .next (a.push (← Exec.globalGet a.inst index))
  | .globalSet index => do
    let (v, a) ← a.pop
    Exec.globalSet a.inst index v
    return .next a
  | .load access arg => do
    let (base, a) ← a.popI32
    let w ← Exec.load a.inst access (effectiveAddress base arg.offset)
    return .next (a.push (.i32 w))
  | .store access arg => do
    let (w, a) ← a.popI32
    let (base, a) ← a.popI32
    Exec.store a.inst access (effectiveAddress base arg.offset) w
    return .next a
  | .memorySize => do
    let n ← Exec.memorySize a.inst
    return .next (a.push (.i32 (BitVec.ofNat 32 n)))
  | .memoryGrow => do
    let (delta, a) ← a.popI32
    let w ← Exec.memoryGrow a.inst delta.toNat
    return .next (a.push (.i32 w))
  | .const value => return .next (a.push value)
  | .unary op => do
    let (v, a) ← a.pop
    return .next (a.push (← ofExcept (op.eval v)))
  | .binary op => do
    let (r, a) ← a.pop
    let (l, a) ← a.pop
    return .next (a.push (← ofExcept (op.eval l r)))

def step (a : Activation) : Exec (Action Activation Waiting) :=
  match a.code with
  | i :: code => exec { a with code } i
  | [] => throw (.badHandle .label)

end Activation

/-- Go on with the value of the callee, which must be there if the callee has a result. -/
def Waiting.resume : Waiting → Option Value → Except Trap Activation
  | ⟨a, none⟩, _ => .ok a
  | ⟨a, some _⟩, some v => .ok (a.push v)
  | ⟨_, some _⟩, none => .error .unexpectedHostResult

end Stacked

/-- Some binary that decodes to the module has a function with these instructions where the module
has the code. -/
def Module.Lists (m : Module) (code : Code) (is : List Instr) : Prop :=
  ∃ config bytes bs, ∃ k : Nat, Module.decode config bytes = .ok m ∧ Module.bodies bytes = .ok bs ∧
    m.code[k]? = some code ∧ bs[k]? = some is

/-- The bodies of functions, as they stand in the binaries that the modules were decoded from. Two
functions of a store may share their code and still have been written differently, so that a body
is found by the function's address. -/
structure Listing where
  body : (addr : Nat) → Module → Code → List Instr
  listed : ∀ addr {m : Module} {code : Code}, m.Decoded → code ∈ m.code →
    m.Lists code (body addr m code)

/-- A call of a function about to run the first instruction of its body. Locals are the arguments
and then zeros. -/
def Listing.start (l : Listing) (s : Store) (addr inst : Nat) (code : Code) (args : List Value) :
    Stacked.Activation where
  inst
  result := code.type.result
  locals := (Slots.initialLocals code.locals args).toArray
  operands := []
  labels := []
  code :=
    match s.instances[inst]? with
    | some i => l.body addr i.module code
    | none => []

/-- Instructions over an operand stack. -/
def Engine.stacked (l : Listing) : Engine Stacked.Activation Stacked.Waiting where
  start := l.start
  step := Stacked.Activation.step
  resume := Stacked.Waiting.resume

end WasmEngine
