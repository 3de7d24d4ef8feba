import WasmEngine.Code.Scope
import WasmEngine.Module
import WasmEngine.DecodeError

/-!
# Compiling instructions

A draft is a function body under construction: its open scopes, innermost first, and the most
operands that were ever live in each lane. One instruction after the other is checked against the
operand types of the innermost scope and turned into statements over slots.

After an instruction that does not fall through, the rest of its scope is dead. There, operands
that the scope does not hold may still be popped: each takes the type that is asked for, or `i32`
when none is, and a slot that nothing reads in a run.
-/

namespace WasmEngine

structure Draft where
  scope : Scope
  outer : List Scope
  maxStack : Lanes Nat

/-- What an instruction is checked against: the declarations of the module so far, the bound on
nesting, and the type and locals of the function. -/
structure Context where
  module : Module
  maxControlDepth : Nat
  type : FuncType
  locals : List ValueType

abbrev Build := EStateM DecodeError Draft

namespace Draft

/-- A function body before its first instruction, at `offset`. -/
def start (type : FuncType) (offset : Nat) : Draft where
  scope := { kind := .function, result := type.result, label := 0, base := Lanes.zero, offset }
  outer := []
  maxStack := Lanes.zero

def scopes (d : Draft) : List Scope := d.scope :: d.outer

end Draft

namespace Build

variable {α : Type}

/-- The instruction at `pos` is at fault. -/
def fail (pos : Nat) (fault : Fault) : Build α := throw (.located pos fault)

def emit (stmt : Stmt) : Build Unit := modify fun d ↦ { d with scope := d.scope.emit stmt }

/-- Push an operand of type `t` and give its slot. -/
def push (t : ValueType) : Build Slot := modifyGet fun d ↦
  let scope := d.scope.push t
  (d.scope.nextSlot t, { d with scope, maxStack := d.maxStack.raise scope.height })

/-- Push an operand if there is a type for one. -/
def push? : Option ValueType → Build (Option Slot)
  | some t => return some (← push t)
  | none => return none

/-- Pop one operand, of the expected type if one is given. -/
def pop (pos : Nat) (expected : Option ValueType) : Build (ValueType × Slot) := do
  let d ← get
  match d.scope.types with
  | t :: types =>
    let scope := { d.scope with types, live := d.scope.live.decr t }
    set { d with scope }
    if let some e := expected then
      if e ≠ t then fail pos (.typeMismatch e t)
    return (t, scope.nextSlot t)
  | [] =>
    if d.scope.unreachable then
      let t := expected.getD .i32
      set { d with maxStack := d.maxStack.raise (d.scope.height.incr t) }
      return (t, d.scope.nextSlot t)
    else if d.outer.any (!·.types.isEmpty) then fail pos .outsideBlock
    else fail pos .stackUnderflow

def popType (pos : Nat) (t : ValueType) : Build Slot := do
  let (_, slot) ← pop pos (some t)
  return slot

/-- Pop an operand if a type asks for one. -/
def pop? (pos : Nat) : Option ValueType → Build (Option Slot)
  | some t => return some (← popType pos t)
  | none => return none

/-- Pop arguments, of which the last lies on top, and give their slots in order. -/
def popArgs (pos : Nat) : List ValueType → Build (List Slot)
  | [] => return []
  | t :: ts => do
    let slots ← popArgs pos ts
    let slot ← popType pos t
    return slot :: slots

/-- What follows in the innermost scope is dead. -/
def cut : Build Unit := modify fun d ↦ { d with scope := d.scope.cut }

/-- Open a scope inside the innermost one. -/
def openScope (ctx : Context) (pos : Nat) (kind : Scope.Kind) (result : Option ValueType) :
    Build Unit := do
  let d ← get
  if d.scopes.length > ctx.maxControlDepth then
    fail pos (.limitExceeded .controlNesting ctx.maxControlDepth)
  let scope : Scope :=
    { kind, result, label := d.scopes.length, base := d.scope.height, offset := pos }
  set { d with scope, outer := d.scopes }

/-- The operands left in a scope must be its result and nothing else. In dead code the result may
be missing. -/
def checkEnd (pos : Nat) (s : Scope) : Build Unit := do
  let expected := if s.result.isSome then 1 else 0
  let found := s.types.length
  if found > expected ∨ (found < expected ∧ ¬s.unreachable) then
    fail pos (.blockArity expected found)
  match s.result, s.types with
  | some want, got :: _ => if want ≠ got then fail pos (.typeMismatch want got)
  | _, _ => return ()

/-- End the first arm of a conditional and start the second. -/
def beginElse (pos : Nat) : Build Unit := do
  let d ← get
  let s := d.scope
  match s.kind with
  | .thenArm cond =>
    checkEnd pos s
    let kind := .elseArm cond s.body.toList
    set { d with
      scope := { s with kind, types := [], live := Lanes.zero, unreachable := false, body := #[] } }
  | _ => fail pos .elseWithoutIf

/-- The statement of a scope that is closed. Only a conditional without a result can do without a
second arm. The scope of the function itself is never closed so: `finish` ends it. -/
def closed (s : Scope) : Build Stmt :=
  match s.kind with
  | .function | .block => return .block s.label s.body.toList
  | .loop => return .loop s.label s.body.toList
  | .thenArm cond =>
    if s.result.isSome then fail s.offset .ifWithoutElse
    else return .conditional s.label cond s.body.toList []
  | .elseArm cond thenBody => return .conditional s.label cond thenBody s.body.toList

/-- Close the scope `s`, which lies in `parent`. Its result, if any, becomes an operand of the
parent, in the slot where every branch to the scope left it. -/
def endScope (pos : Nat) (s parent : Scope) (outer : List Scope) : Build Unit := do
  checkEnd pos s
  let stmt ← closed s
  modify fun d ↦ { d with scope := parent, outer }
  emit stmt
  let _ ← push? s.result

/-- The scope that is `depth` levels out from the innermost. -/
def scopeAt (pos depth : Nat) : Build Scope := do
  match (← get).scopes[depth]? with
  | some s => return s
  | none => fail pos (.branchDepth depth)

/-- The scopes of a branch table, which must all take the same operand. -/
def tableScopes (pos : Nat) (label : Option ValueType) : List Nat → Build (List Scope)
  | [] => return []
  | depth :: depths => do
    let s ← scopeAt pos depth
    if s.labelType ≠ label then fail pos .branchTableArity
    return s :: (← tableScopes pos label depths)

def funcType (ctx : Context) (pos index : Nat) : Build FuncType :=
  match ctx.module.funcType? index with
  | some t => return t
  | none => fail pos (.indexOutOfRange .func index)

def typeAt (ctx : Context) (pos index : Nat) : Build FuncType :=
  match ctx.module.types[index]? with
  | some t => return t
  | none => fail pos (.indexOutOfRange .type index)

def localType (ctx : Context) (pos index : Nat) : Build ValueType :=
  match ctx.locals[index]? with
  | some t => return t
  | none => fail pos (.indexOutOfRange .local index)

def globalType (ctx : Context) (pos index : Nat) : Build GlobalType :=
  match ctx.module.globalType? index with
  | some t => return t
  | none => fail pos (.indexOutOfRange .global index)

def requireTable (ctx : Context) (pos : Nat) : Build Unit :=
  if ctx.module.spaceSize .table = 0 then fail pos (.indexOutOfRange .table 0) else return ()

def requireMemory (ctx : Context) (pos : Nat) : Build Unit :=
  if ctx.module.spaceSize .memory = 0 then fail pos (.indexOutOfRange .memory 0) else return ()

/-- A memory access needs a memory, and an alignment that does not exceed its width. -/
def checkAccess (ctx : Context) (pos : Nat) (access : Access) (arg : MemArg) : Build Unit := do
  requireMemory ctx pos
  if arg.align ≥ 32 ∨ 1 <<< arg.align > access.width then
    fail pos (.badAlignment arg.align access.width)

/-- Close the innermost scope. The `close` that ends the function is not compiled so. -/
def closeScope (pos : Nat) : Build Unit := do
  let d ← get
  match d.outer with
  | [] => return ()
  | parent :: outer => endScope pos d.scope parent outer

/-- The statements of a finished function. Unless its end is dead, it returns what is left. -/
def finish (pos : Nat) : Build (List Stmt) := do
  let s := (← get).scope
  checkEnd pos s
  if s.unreachable then return s.body.toList
  return (s.emit (.ret (s.result.map s.outputSlot))).body.toList

end Build

/-! ## Instructions -/

/-- The operations that instructions are compiled with. They work on drafts, or on something else
that keeps the open scopes. -/
structure Primitives (m : Type → Type) where
  /-- The instruction at this position is at fault. -/
  refuse {α : Type} : Nat → Fault → m α
  /-- Check something that is not part of the state. -/
  look {α : Type} : Build α → m α
  emit : Stmt → m Unit
  push : ValueType → m Slot
  push? : Option ValueType → m (Option Slot)
  pop : Nat → Option ValueType → m (ValueType × Slot)
  popType : Nat → ValueType → m Slot
  pop? : Nat → Option ValueType → m (Option Slot)
  popArgs : Nat → List ValueType → m (List Slot)
  cut : m Unit
  openScope : Context → Nat → Scope.Kind → Option ValueType → m Unit
  beginElse : Nat → m Unit
  closeScope : Nat → m Unit
  scopeAt : Nat → Nat → m Scope
  tableScopes : Nat → Option ValueType → List Nat → m (List Scope)

/-- Compile one instruction, which starts at `pos`. -/
def Primitives.step {m : Type → Type} [Monad m] (P : Primitives m) (ctx : Context) (pos : Nat) :
    Instr → m Unit
  | .unreachable => do
    P.emit .unreachable
    P.cut
  | .nop => return ()
  | .block result => P.openScope ctx pos .block result
  | .loop result => P.openScope ctx pos .loop result
  | .conditional result => do
    let cond ← P.popType pos .i32
    P.openScope ctx pos (.thenArm cond) result
  | .otherwise => P.beginElse pos
  | .close => P.closeScope pos
  | .br depth => do
    let s ← P.scopeAt pos depth
    let carried ← P.pop? pos s.labelType
    P.emit (.branch (s.target carried))
    P.cut
  | .brIf depth => do
    let s ← P.scopeAt pos depth
    let cond ← P.popType pos .i32
    let carried ← P.pop? pos s.labelType
    let _ ← P.push? s.labelType
    P.emit (.branchIf cond (s.target carried))
  | .brTable depths default => do
    let s ← P.scopeAt pos default
    let scopes ← P.tableScopes pos s.labelType depths
    let index ← P.popType pos .i32
    let carried ← P.pop? pos s.labelType
    P.emit (.branchTable index (scopes.map (·.target carried)) (s.target carried))
    P.cut
  | .ret => do
    let value ← P.pop? pos ctx.type.result
    P.emit (.ret value)
    P.cut
  | .call func => do
    let callee ← P.look (Build.funcType ctx pos func)
    let args ← P.popArgs pos callee.params
    let result ← P.push? callee.result
    P.emit (.call func args result)
  | .callIndirect type => do
    P.look (Build.requireTable ctx pos)
    let callee ← P.look (Build.typeAt ctx pos type)
    let index ← P.popType pos .i32
    let args ← P.popArgs pos callee.params
    let result ← P.push? callee.result
    P.emit (.callIndirect type index args result)
  | .drop => do
    let _ ← P.pop pos none
  | .select => do
    let cond ← P.popType pos .i32
    let (t, ifFalse) ← P.pop pos none
    let dst ← P.popType pos t
    let _ ← P.push t
    P.emit (.select dst ifFalse cond)
  | .localGet index => do
    let t ← P.look (Build.localType ctx pos index)
    let dst ← P.push t
    P.emit (.copy dst (.local index))
  | .localSet index => do
    let t ← P.look (Build.localType ctx pos index)
    let src ← P.popType pos t
    P.emit (.copy (.local index) src)
  | .localTee index => do
    let t ← P.look (Build.localType ctx pos index)
    let src ← P.popType pos t
    let _ ← P.push t
    P.emit (.copy (.local index) src)
  | .globalGet index => do
    let g ← P.look (Build.globalType ctx pos index)
    let dst ← P.push g.type
    P.emit (.globalGet dst index)
  | .globalSet index => do
    let g ← P.look (Build.globalType ctx pos index)
    if !g.isMutable then P.refuse pos (.immutableGlobal index)
    let src ← P.popType pos g.type
    P.emit (.globalSet index src)
  | .load access arg => do
    P.look (Build.checkAccess ctx pos access arg)
    let addr ← P.popType pos .i32
    let dst ← P.push .i32
    P.emit (.load access arg.offset dst addr)
  | .store access arg => do
    P.look (Build.checkAccess ctx pos access arg)
    let value ← P.popType pos .i32
    let addr ← P.popType pos .i32
    P.emit (.store access arg.offset addr value)
  | .memorySize => do
    P.look (Build.requireMemory ctx pos)
    let dst ← P.push .i32
    P.emit (.memorySize dst)
  | .memoryGrow => do
    P.look (Build.requireMemory ctx pos)
    let delta ← P.popType pos .i32
    let dst ← P.push .i32
    P.emit (.memoryGrow dst delta)
  | .const value => do
    let dst ← P.push value.type
    P.emit (.const dst value)
  | .unary op => do
    let operand ← P.popType pos op.operand
    let dst ← P.push op.result
    P.emit (.unary op dst operand)
  | .binary op => do
    let rhs ← P.popType pos op.operand
    let lhs ← P.popType pos op.operand
    let dst ← P.push op.result
    P.emit (.binary op dst lhs rhs)

namespace Build

abbrev primitives : Primitives Build where
  refuse := fail
  look b := b
  emit := emit
  push := push
  push? := push?
  pop := pop
  popType := popType
  pop? := pop?
  popArgs := popArgs
  cut := cut
  openScope := openScope
  beginElse := beginElse
  closeScope := closeScope
  scopeAt := scopeAt
  tableScopes := tableScopes

def step (ctx : Context) (pos : Nat) (i : Instr) : Build Unit := primitives.step ctx pos i

end Build

end WasmEngine
