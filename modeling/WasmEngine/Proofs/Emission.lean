import WasmEngine.Proofs.OperandStack

/-!
# Instructions and the statements they become

The decoder keeps the operands of a body apart by type, and gives the operand of type `t` that lies
above `n` others of its type the slot `n` of its lane. `Emits` says which statements the
instructions up to the end of a construct become, at a point that control can reach, in terms of
the types of all operands there. It follows the nesting of the body.

Instructions that control cannot reach are compiled too. Nothing is said about what they become.
-/

namespace WasmEngine

/-- The slot of an operand that lies above operands of the given types. -/
def operandSlot (t : ValueType) (below : List ValueType) : Slot := .stack t (below.count t)

/-- The slots of arguments above operands of the given types, the first argument lowest. -/
def argSlots : List ValueType → List ValueType → List Slot
  | [], _ => []
  | t :: ts, below => operandSlot t below :: argSlots ts (t :: below)

structure Construct where
  isLoop : Bool
  result : Option ValueType
  /-- Types of the operands below the construct, the latest first. -/
  base : List ValueType

/-- The slot of what a function with the given result returns. -/
inductive Returns : Option ValueType → List ValueType → Option Slot → Prop
  | value (t : ValueType) (ts : List ValueType) :
      Returns (some t) (t :: ts) (some (operandSlot t ts))
  | nothing (ts : List ValueType) : Returns none ts none

/-- Where a branch to a depth leads, out of the constructs `cs` in a function with the given
result. -/
inductive Branches (result : Option ValueType) (cs : List Construct) :
    List ValueType → Nat → Target → Prop
  | leave {c : Construct} {ts : List ValueType} {depth : Nat} (hc : cs[depth]? = some c)
      (hkind : c.isLoop = false) (hresult : c.result = none) (hbase : c.base <:+ ts) :
      Branches result cs ts depth (.leave (cs.length - depth) none)
  | carry {c : Construct} {t : ValueType} {ts : List ValueType} {depth : Nat}
      (hc : cs[depth]? = some c) (hkind : c.isLoop = false) (hresult : c.result = some t)
      (hbase : c.base <:+ ts) :
      Branches result cs (t :: ts) depth
        (.leave (cs.length - depth) (some (operandSlot t ts, operandSlot t c.base)))
  | restart {c : Construct} {ts : List ValueType} {depth : Nat} (hc : cs[depth]? = some c)
      (hkind : c.isLoop = true) (hbase : c.base <:+ ts) :
      Branches result cs ts depth (.restart (cs.length - depth))
  | ret {ts : List ValueType} {value : Option Slot} (hvalue : Returns result ts value) :
      Branches result cs ts cs.length (.ret value)

/-- Instructions without control, with the operand types before and after. -/
inductive Plain : List ValueType → Instr → List Stmt → List ValueType → Prop
  | nop (ts : List ValueType) : Plain ts .nop [] ts
  | drop (t : ValueType) (ts : List ValueType) : Plain (t :: ts) .drop [] ts
  | select (t : ValueType) (ts : List ValueType) :
      Plain (.i32 :: t :: t :: ts) .select
        [.select (operandSlot t ts) (operandSlot t (t :: ts)) (operandSlot .i32 (t :: t :: ts))]
        (t :: ts)
  | localGet (index : Nat) (t : ValueType) (ts : List ValueType) :
      Plain ts (.localGet index) [.copy (operandSlot t ts) (.local index)] (t :: ts)
  | localSet (index : Nat) (t : ValueType) (ts : List ValueType) :
      Plain (t :: ts) (.localSet index) [.copy (.local index) (operandSlot t ts)] ts
  | localTee (index : Nat) (t : ValueType) (ts : List ValueType) :
      Plain (t :: ts) (.localTee index) [.copy (.local index) (operandSlot t ts)] (t :: ts)
  | globalGet (index : Nat) (t : ValueType) (ts : List ValueType) :
      Plain ts (.globalGet index) [.globalGet (operandSlot t ts) index] (t :: ts)
  | globalSet (index : Nat) (t : ValueType) (ts : List ValueType) :
      Plain (t :: ts) (.globalSet index) [.globalSet index (operandSlot t ts)] ts
  | load (access : Access) (arg : MemArg) (ts : List ValueType) :
      Plain (.i32 :: ts) (.load access arg)
        [.load access arg.offset (operandSlot .i32 ts) (operandSlot .i32 ts)] (.i32 :: ts)
  | store (access : Access) (arg : MemArg) (ts : List ValueType) :
      Plain (.i32 :: .i32 :: ts) (.store access arg)
        [.store access arg.offset (operandSlot .i32 ts) (operandSlot .i32 (.i32 :: ts))] ts
  | memorySize (ts : List ValueType) :
      Plain ts .memorySize [.memorySize (operandSlot .i32 ts)] (.i32 :: ts)
  | memoryGrow (ts : List ValueType) :
      Plain (.i32 :: ts) .memoryGrow [.memoryGrow (operandSlot .i32 ts) (operandSlot .i32 ts)]
        (.i32 :: ts)
  | const (v : Value) (ts : List ValueType) :
      Plain ts (.const v) [.const (operandSlot v.type ts) v] (v.type :: ts)
  | unary (op : UnaryOp) (ts : List ValueType) :
      Plain (op.operand :: ts) (.unary op)
        [.unary op (operandSlot op.result ts) (operandSlot op.operand ts)] (op.result :: ts)
  | binary (op : BinaryOp) (ts : List ValueType) :
      Plain (op.operand :: op.operand :: ts) (.binary op)
        [.binary op (operandSlot op.result ts) (operandSlot op.operand ts)
          (operandSlot op.operand (op.operand :: ts))]
        (op.result :: ts)

/-- Inside the constructs `cs` and with operands of the types `ts`, the instructions up to the end
of the innermost construct, or of the function, become the statements; `after` is what follows that
end. -/
inductive Emits (m : Module) (result : Option ValueType) :
    (cs : List Construct) → (ts : List ValueType) → List Instr → List Stmt →
      (after : List Instr) → Prop
  | plain {cs : List Construct} {ts ts' : List ValueType} {i : Instr} {is after : List Instr}
      {stmts rest : List Stmt} (h : Plain ts i stmts ts')
      (hrest : Emits m result cs ts' is rest after) :
      Emits m result cs ts (i :: is) (stmts ++ rest) after
  | block {cs : List Construct} {ts : List ValueType} {r : Option ValueType}
      {is is' after : List Instr} {body rest : List Stmt}
      (hafter : Instr.afterClose 0 is = some is')
      (hbody : Emits m result (⟨false, r, ts⟩ :: cs) ts is body is')
      (hrest : Emits m result cs (r.toList ++ ts) is' rest after) :
      Emits m result cs ts (.block r :: is) (.block (cs.length + 1) body :: rest) after
  | loop {cs : List Construct} {ts : List ValueType} {r : Option ValueType}
      {is is' after : List Instr} {body rest : List Stmt}
      (hbody : Emits m result (⟨true, r, ts⟩ :: cs) ts is body is')
      (hrest : Emits m result cs (r.toList ++ ts) is' rest after) :
      Emits m result cs ts (.loop r :: is) (.loop (cs.length + 1) body :: rest) after
  | conditional {cs : List Construct} {ts : List ValueType} {r : Option ValueType}
      {is is' otherwise after : List Instr} {thenBody elseBody rest : List Stmt}
      (hafter : Instr.afterClose 0 is = some is') (helse : Instr.elseArm 0 is = some otherwise)
      (hthen : Emits m result (⟨false, r, ts⟩ :: cs) ts is thenBody is')
      (hotherwise : Emits m result (⟨false, r, ts⟩ :: cs) ts otherwise elseBody is')
      (hrest : Emits m result cs (r.toList ++ ts) is' rest after) :
      Emits m result cs (.i32 :: ts) (.conditional r :: is)
        (.conditional (cs.length + 1) (operandSlot .i32 ts) thenBody elseBody :: rest) after
  | otherwise {c : Construct} {cs : List Construct} {is after : List Instr}
      (hkind : c.isLoop = false) (hafter : Instr.afterClose 0 is = some after) :
      Emits m result (c :: cs) (c.result.toList ++ c.base) (.otherwise :: is) [] after
  | close {c : Construct} {cs : List Construct} {after : List Instr} :
      Emits m result (c :: cs) (c.result.toList ++ c.base) (.close :: after) [] after
  | finish {after : List Instr} {ts : List ValueType} {value : Option Slot}
      (hvalue : Returns result ts value) :
      Emits m result [] ts (.close :: after) [.ret value] after
  | unreachable {cs : List Construct} {ts : List ValueType} {is after : List Instr}
      {rest : List Stmt} :
      Emits m result cs ts (.unreachable :: is) (.unreachable :: rest) after
  | br {cs : List Construct} {ts : List ValueType} {depth : Nat} {target : Target}
      {is after : List Instr} {rest : List Stmt} (htarget : Branches result cs ts depth target) :
      Emits m result cs ts (.br depth :: is) (.branch target :: rest) after
  | brIf {cs : List Construct} {ts : List ValueType} {depth : Nat} {target : Target}
      {is after : List Instr} {rest : List Stmt} (htarget : Branches result cs ts depth target)
      (hrest : Emits m result cs ts is rest after) :
      Emits m result cs (.i32 :: ts) (.brIf depth :: is)
        (.branchIf (operandSlot .i32 ts) target :: rest) after
  | brTable {cs : List Construct} {ts : List ValueType} {depths : List Nat} {default : Nat}
      {targets : List Target} {target : Target} {is after : List Instr} {rest : List Stmt}
      (htargets : List.Forall₂ (Branches result cs ts) depths targets)
      (htarget : Branches result cs ts default target) :
      Emits m result cs (.i32 :: ts) (.brTable depths default :: is)
        (.branchTable (operandSlot .i32 ts) targets target :: rest) after
  | ret {cs : List Construct} {ts : List ValueType} {value : Option Slot}
      {is after : List Instr} {rest : List Stmt} (hvalue : Returns result ts value) :
      Emits m result cs ts (.ret :: is) (.ret value :: rest) after
  | call {cs : List Construct} {ts : List ValueType} {func : Nat} {callee : FuncType}
      {is after : List Instr} {rest : List Stmt} (hcallee : m.funcType? func = some callee)
      (hrest : Emits m result cs (callee.result.toList ++ ts) is rest after) :
      Emits m result cs (callee.params.reverse ++ ts) (.call func :: is)
        (.call func (argSlots callee.params ts) (callee.result.map (operandSlot · ts)) :: rest)
        after
  | callIndirect {cs : List Construct} {ts : List ValueType} {type : Nat} {callee : FuncType}
      {is after : List Instr} {rest : List Stmt} (hcallee : m.types[type]? = some callee)
      (hrest : Emits m result cs (callee.result.toList ++ ts) is rest after) :
      Emits m result cs (.i32 :: (callee.params.reverse ++ ts)) (.callIndirect type :: is)
        (.callIndirect type (operandSlot .i32 (callee.params.reverse ++ ts))
          (argSlots callee.params ts) (callee.result.map (operandSlot · ts)) :: rest) after

/-! ## Ends of constructs -/

namespace Instr

/-- The end of an outer construct comes after the end of an inner one. -/
theorem afterClose_add (n k : Nat) (is : List Instr) :
    afterClose (n + k + 1) is = (afterClose k is).bind (afterClose n) := by
  induction is generalizing k with
  | nil => rfl
  | cons i is ih =>
    cases i with
    | block r | loop r | conditional r =>
      simpa [afterClose, nesting, ← Nat.add_assoc] using ih (k + 1)
    | close =>
      cases k with
      | zero => simp [afterClose, nesting]
      | succ k => simpa [afterClose, nesting, ← Nat.add_assoc] using ih k
    | _ => simpa [afterClose, nesting] using ih k

theorem elseArm_add (n k : Nat) (is : List Instr) :
    elseArm (n + k + 1) is = (afterClose k is).bind (elseArm n) := by
  induction is generalizing k with
  | nil => rfl
  | cons i is ih =>
    cases i with
    | block r | loop r | conditional r =>
      simpa [elseArm, afterClose, nesting, ← Nat.add_assoc] using ih (k + 1)
    | close =>
      cases k with
      | zero => simp [elseArm, afterClose, nesting]
      | succ k => simpa [elseArm, afterClose, nesting, ← Nat.add_assoc] using ih k
    | _ => simpa [elseArm, afterClose, nesting] using ih k

theorem afterClose_cons {i : Instr} (hi : i.isStructural = false) (is : List Instr) :
    afterClose 0 (i :: is) = afterClose 0 is := by
  cases i with
  | block r | loop r | conditional r | otherwise | close => cases hi
  | _ => simp [afterClose, nesting]

theorem elseArm_cons {i : Instr} (hi : i.isStructural = false) (is : List Instr) :
    elseArm 0 (i :: is) = elseArm 0 is := by
  cases i with
  | block r | loop r | conditional r | otherwise | close => cases hi
  | _ => simp [elseArm, nesting]

end Instr

end WasmEngine
