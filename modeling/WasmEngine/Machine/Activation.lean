import WasmEngine.Slots
import WasmEngine.Store

/-!
# Running statements

An activation is a call of compiled code in progress: the instance it runs in, its slots, and its
open regions, innermost first. A region is a body that is being run: the function's, or that of a
block, loop or conditional. A branch drops the regions inside its target, and the target too if it
leaves it. Control never nests on any stack but this one.
-/

namespace WasmEngine

/-- A body in progress. -/
structure Region where
  label : Nat
  /-- The whole body, to which a loop goes back. -/
  body : List Stmt
  /-- What is left of it. -/
  rest : List Stmt
  isLoop : Bool

structure Activation where
  /-- Address of the instance that the code belongs to. -/
  inst : Nat
  slots : Slots
  /-- None is left once the function has returned. -/
  regions : List Region
  /-- What the function returned, if it returned a value. -/
  returned : Option Value := none

abbrev Exec := EStateM Trap Store

namespace Exec

/-! ### Items of an instance -/

/-- What a look-up has found, or a trap that tells what is missing. -/
def found {α : Type} (kind : Referent) : Option α → Exec α
  | some a => return a
  | none => throw (.badHandle kind)

@[simp] theorem found_some {α : Type} (kind : Referent) (a : α) : found kind (some a) = pure a :=
  rfl

def instanceAt (inst : Nat) : Exec Instance := do found .inst (← get).instances[inst]?

def funcAddress (inst index : Nat) : Exec Nat := do found .func (← instanceAt inst).funcs[index]?

def globalAddress (inst index : Nat) : Exec Nat := do
  found .global (← instanceAt inst).globals[index]?

def memoryAddress (inst : Nat) : Exec Nat := do found .memory (← instanceAt inst).memories[0]?

def tableAddress (inst : Nat) : Exec Nat := do found .table (← instanceAt inst).tables[0]?

def funcAt (addr : Nat) : Exec Callable := do found .func (← get).funcs[addr]?

def globalAt (addr : Nat) : Exec Global := do found .global (← get).globals[addr]?

def memoryAt (addr : Nat) : Exec Memory := do found .memory (← get).memories[addr]?

def tableAt (addr : Nat) : Exec Table := do found .table (← get).tables[addr]?

/-! ### Globals, memories and tables -/

def globalGet (inst index : Nat) : Exec Value := do
  return (← globalAt (← globalAddress inst index)).value

def globalSet (inst index : Nat) (v : Value) : Exec Unit := do
  let addr ← globalAddress inst index
  let _ ← globalAt addr
  modify fun s ↦ { s with globals := s.globals.modify addr fun g ↦ { g with value := v } }

def load (inst : Nat) (access : Access) (addr : Nat) : Exec (BitVec 32) := do
  let m ← memoryAt (← memoryAddress inst)
  ofExcept (m.load access addr)

/-- Whether a store of this width would stay inside the memory is settled first, so that the memory
itself can then be changed in place. -/
def store (inst : Nat) (access : Access) (addr : Nat) (value : BitVec 32) : Exec Unit := do
  let a ← memoryAddress inst
  if (← memoryAt a).holds addr access.width then
    modify fun s ↦ { s with
      memories := s.memories.modify a (·.write addr (lowBytes value access.width)) }
  else throw (.memoryOutOfBounds addr access.width)

def memorySize (inst : Nat) : Exec Nat := do
  return (← memoryAt (← memoryAddress inst)).pages

/-- Grow the memory, and give its size before; minus one, as a word, if it cannot grow so far. -/
def memoryGrow (inst delta : Nat) : Exec (BitVec 32) := do
  let a ← memoryAddress inst
  match (← memoryAt a).grow delta with
  | .ok (previous, m) =>
    modify fun s ↦ s.setMemory a m
    return BitVec.ofNat 32 previous
  | .error _ => return -1

/-- The function in a slot of the table, which must have the type that the call names. -/
def indirectCallee (inst type index : Nat) : Exec Nat := do
  let t ← tableAt (← tableAddress inst)
  match t.get? index with
  | none => throw (.tableOutOfBounds index t.size)
  | some none => throw (.uninitializedElement index)
  | some (some addr) =>
    match (← instanceAt inst).module.types[type]? with
    | none => throw (.badHandle .type)
    | some expected =>
      let found := (← funcAt addr).type?
      if found = some expected then return addr
      else throw (.indirectCallType expected.signature ((found.map FuncType.signature).getD ""))

end Exec

/-- The address that a load or store accesses: the base, read as unsigned, plus the offset. -/
def effectiveAddress (base : BitVec 32) (offset : Nat) : Nat := base.toNat + offset

/-- What a step of code leads to: more code, a call that is awaited, or a return. `A` is the state
of code that runs and `W` that of code that waits. -/
inductive Action (A W : Type) where
  | next (a : A)
  /-- Code of the instance `caller` calls the function at an address. -/
  | call (caller addr : Nat) (args : List Value) (w : W)
  | ret (v : Option Value)

/-- Compiled code that waits for a callee, whose value goes to the slot if there is one. -/
structure Suspended where
  activation : Activation
  result : Option Slot

namespace Activation

/-- A call of a function about to run its first statement. -/
def start (inst : Nat) (code : Code) (args : List Value) : Activation where
  inst
  slots := Slots.new code args
  regions := [⟨0, code.body, code.body, false⟩]

def enter (a : Activation) (label : Nat) (body : List Stmt) (isLoop : Bool) : Activation :=
  { a with regions := ⟨label, body, body, isLoop⟩ :: a.regions }

def get (a : Activation) (slot : Slot) : Exec Value := ofExcept (a.slots.get slot)

def i32 (a : Activation) (slot : Slot) : Exec (BitVec 32) := ofExcept (a.slots.i32 slot)

def set : Activation → Slot → Value → Exec Activation
  | ⟨inst, slots, regions, returned⟩, slot, v => do
    let slots ← ofExcept (slots.set slot v)
    return ⟨inst, slots, regions, returned⟩

/-- The region with a label and those around it. -/
def regionsFrom (label : Nat) : List Region → Option (Region × List Region)
  | [] => none
  | r :: rs => if r.label = label then some (r, rs) else regionsFrom label rs

/-- Leave the function with the value in a slot, or without one. -/
def ret (a : Activation) : Option Slot → Exec Activation
  | some slot => return { a with returned := some (← a.get slot), regions := [] }
  | none => return { a with returned := none, regions := [] }

/-- Move the operand that a branch carries into place. -/
def carry (a : Activation) : Option (Slot × Slot) → Exec Activation
  | some (src, dst) => do a.set dst (← a.get src)
  | none => return a

/-- Follow a branch. -/
def take (a : Activation) : Target → Exec Activation
  | .leave label carried => do
    let a ← a.carry carried
    match regionsFrom label a.regions with
    | some (_, outer) => return { a with regions := outer }
    | none => throw (.badHandle .label)
  | .restart label =>
    match regionsFrom label a.regions with
    | some (r, outer) => return { a with regions := { r with rest := r.body } :: outer }
    | none => throw (.badHandle .label)
  | .ret value => a.ret value

/-- Run one statement, which has been taken off the innermost region. -/
def exec (a : Activation) : Stmt → Exec (Action Activation Suspended)
  | .unreachable => throw .unreachable
  | .block label body => return .next (a.enter label body false)
  | .loop label body => return .next (a.enter label body true)
  | .conditional label cond thenBody elseBody => do
    let c ← a.i32 cond
    return .next (a.enter label (if c ≠ 0 then thenBody else elseBody) false)
  | .branch target => return .next (← a.take target)
  | .branchIf cond target => do
    let c ← a.i32 cond
    if c ≠ 0 then return .next (← a.take target)
    return .next a
  | .branchTable index targets default => do
    let i ← a.i32 index
    return .next (← a.take (targets[i.toNat]?.getD default))
  | .ret value => return .next (← a.ret value)
  | .call func args result => do
    let addr ← Exec.funcAddress a.inst func
    let args ← ofExcept (a.slots.gather args)
    return .call a.inst addr args ⟨a, result⟩
  | .callIndirect type callee args result => do
    let index ← a.i32 callee
    let addr ← Exec.indirectCallee a.inst type index.toNat
    let args ← ofExcept (a.slots.gather args)
    return .call a.inst addr args ⟨a, result⟩
  | .copy dst src => do
    let v ← a.get src
    return .next (← a.set dst v)
  | .const dst value => return .next (← a.set dst value)
  | .globalGet dst global => do
    let v ← Exec.globalGet a.inst global
    return .next (← a.set dst v)
  | .globalSet global src => do
    let v ← a.get src
    Exec.globalSet a.inst global v
    return .next a
  | .select dst ifFalse cond => do
    let c ← a.i32 cond
    if c ≠ 0 then return .next a
    let v ← a.get ifFalse
    return .next (← a.set dst v)
  | .unary op dst operand => do
    let v ← a.get operand
    return .next (← a.set dst (← ofExcept (op.eval v)))
  | .binary op dst lhs rhs => do
    let l ← a.get lhs
    let r ← a.get rhs
    return .next (← a.set dst (← ofExcept (op.eval l r)))
  | .load access offset dst addr => do
    let base ← a.i32 addr
    let w ← Exec.load a.inst access (effectiveAddress base offset)
    return .next (← a.set dst (.i32 w))
  | .store access offset addr value => do
    let base ← a.i32 addr
    let w ← a.i32 value
    Exec.store a.inst access (effectiveAddress base offset) w
    return .next a
  | .memorySize dst => do
    let n ← Exec.memorySize a.inst
    return .next (← a.set dst (.i32 (BitVec.ofNat 32 n)))
  | .memoryGrow dst delta => do
    let d ← a.i32 delta
    let w ← Exec.memoryGrow a.inst d.toNat
    return .next (← a.set dst (.i32 w))

/-- One step of compiled code. A region that has no statement left is left, and a function that has
no region left has returned. -/
def step : Activation → Exec (Action Activation Suspended)
  | ⟨_, _, [], returned⟩ => return .ret returned
  | ⟨inst, slots, ⟨_, _, [], _⟩ :: regions, returned⟩ =>
    return .next ⟨inst, slots, regions, returned⟩
  | ⟨inst, slots, ⟨label, body, stmt :: rest, isLoop⟩ :: regions, returned⟩ =>
    exec ⟨inst, slots, ⟨label, body, rest, isLoop⟩ :: regions, returned⟩ stmt

end Activation

/-- Go on with the value of the callee, which must be there if it was asked for. -/
def Suspended.resume : Suspended → Option Value → Except Trap Activation
  | ⟨a, none⟩, _ => .ok a
  | ⟨⟨inst, slots, regions, returned⟩, some slot⟩, some v => do
    return ⟨inst, ← slots.set slot v, regions, returned⟩
  | ⟨_, some _⟩, none => .error .unexpectedHostResult

end WasmEngine
