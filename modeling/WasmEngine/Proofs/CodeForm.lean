import Mathlib.Data.List.Forall2
import WasmEngine.Module

/-!
# Well-formed compiled code

Statements name slots, labels and indices that must exist and have the right types. A `Layout` says
which there are in a function, and a list of labels, the innermost first, says which constructs a
statement stands in. `Stmt.Fits` is what a statement must satisfy under both, at any depth of
nesting and whether or not it can be reached. A construct that stands in `n` others has the number
`n + 1`; the number 0 belongs to the function, which no branch names.

The result of a construct has one place, the lowest slot of its lane, and every branch that leaves
the construct moves the operand it carries there.
-/

namespace WasmEngine

/-- What the bodies of a module's functions are compiled against. -/
def Module.declarations (m : Module) : Module := { m with code := [], data := [] }

/-- What the statements of a function may refer to. -/
structure Layout where
  module : Module
  locals : List ValueType
  result : Option ValueType
  /-- The operands that each lane has room for. -/
  slots : Lanes Nat

structure Label where
  isLoop : Bool
  result : Option ValueType
  /-- Operands below the construct, by lane. -/
  base : Lanes Nat

namespace Layout

variable (L : Layout)

/-- The slot exists and holds operands of the type. -/
def HasSlot : Slot → ValueType → Prop
  | .local index, t => L.locals[index]? = some t
  | .stack lane height, t => lane = t ∧ height < L.slots.get t

/-- A branch that leaves a construct carries its result, if it has one, to the place of it. -/
def Carries (l : Label) : Option (Slot × Slot) → Prop
  | none => l.result = none
  | some (src, dst) => ∃ t, l.result = some t ∧ L.HasSlot src t ∧
      dst = .stack t (l.base.get t) ∧ L.HasSlot dst t

/-- The same function with at least as much room for operands. -/
structure Le (L L' : Layout) : Prop where
  module : L'.module = L.module
  locals : L'.locals = L.locals
  result : L'.result = L.result
  slots : ∀ t, L.slots.get t ≤ L'.slots.get t

end Layout

/-- The branch leads to a construct of the right kind, with the operand that it takes. -/
inductive Target.Fits (L : Layout) (ls : List Label) : Target → Prop
  | leave {depth : Nat} {l : Label} {carry : Option (Slot × Slot)}
      (hl : ls[depth]? = some l) (hkind : l.isLoop = false) (hcarry : L.Carries l carry) :
      Fits L ls (.leave (ls.length - depth) carry)
  | restart {depth : Nat} {l : Label} (hl : ls[depth]? = some l) (hkind : l.isLoop = true) :
      Fits L ls (.restart (ls.length - depth))
  | ret {value : Option Slot} (hvalue : Option.Rel L.HasSlot value L.result) :
      Fits L ls (.ret value)

inductive Stmt.Fits (L : Layout) : List Label → Stmt → Prop
  | unreachable {ls : List Label} : Fits L ls .unreachable
  | block {ls : List Label} {body : List Stmt} (result : Option ValueType) (base : Lanes Nat)
      (hbody : ∀ stmt ∈ body, Fits L (⟨false, result, base⟩ :: ls) stmt) :
      Fits L ls (.block (ls.length + 1) body)
  | loop {ls : List Label} {body : List Stmt} (result : Option ValueType) (base : Lanes Nat)
      (hbody : ∀ stmt ∈ body, Fits L (⟨true, result, base⟩ :: ls) stmt) :
      Fits L ls (.loop (ls.length + 1) body)
  | conditional {ls : List Label} {cond : Slot} {thenBody elseBody : List Stmt}
      (result : Option ValueType) (base : Lanes Nat) (hcond : L.HasSlot cond .i32)
      (hthen : ∀ stmt ∈ thenBody, Fits L (⟨false, result, base⟩ :: ls) stmt)
      (helse : ∀ stmt ∈ elseBody, Fits L (⟨false, result, base⟩ :: ls) stmt) :
      Fits L ls (.conditional (ls.length + 1) cond thenBody elseBody)
  | branch {ls : List Label} {target : Target} (htarget : target.Fits L ls) :
      Fits L ls (.branch target)
  | branchIf {ls : List Label} {cond : Slot} {target : Target} (hcond : L.HasSlot cond .i32)
      (htarget : target.Fits L ls) : Fits L ls (.branchIf cond target)
  | branchTable {ls : List Label} {index : Slot} {targets : List Target} {default : Target}
      (hindex : L.HasSlot index .i32) (htargets : ∀ target ∈ targets, target.Fits L ls)
      (hdefault : default.Fits L ls) : Fits L ls (.branchTable index targets default)
  | ret {ls : List Label} {value : Option Slot} (hvalue : Option.Rel L.HasSlot value L.result) :
      Fits L ls (.ret value)
  | call {ls : List Label} {func : Nat} {args : List Slot} {result : Option Slot}
      {callee : FuncType} (hfunc : L.module.funcType? func = some callee)
      (hargs : List.Forall₂ L.HasSlot args callee.params)
      (hresult : Option.Rel L.HasSlot result callee.result) : Fits L ls (.call func args result)
  | callIndirect {ls : List Label} {type : Nat} {index : Slot} {args : List Slot}
      {result : Option Slot} {callee : FuncType} (htable : L.module.spaceSize .table ≠ 0)
      (htype : L.module.types[type]? = some callee) (hindex : L.HasSlot index .i32)
      (hargs : List.Forall₂ L.HasSlot args callee.params)
      (hresult : Option.Rel L.HasSlot result callee.result) :
      Fits L ls (.callIndirect type index args result)
  | copy {ls : List Label} {dst src : Slot} {t : ValueType} (hdst : L.HasSlot dst t)
      (hsrc : L.HasSlot src t) : Fits L ls (.copy dst src)
  | const {ls : List Label} {dst : Slot} {value : Value} (hdst : L.HasSlot dst value.type) :
      Fits L ls (.const dst value)
  | globalGet {ls : List Label} {dst : Slot} {global : Nat} {g : GlobalType}
      (hglobal : L.module.globalType? global = some g) (hdst : L.HasSlot dst g.type) :
      Fits L ls (.globalGet dst global)
  | globalSet {ls : List Label} {src : Slot} {global : Nat} {g : GlobalType}
      (hglobal : L.module.globalType? global = some g) (hmutable : g.isMutable = true)
      (hsrc : L.HasSlot src g.type) : Fits L ls (.globalSet global src)
  | select {ls : List Label} {dst ifFalse cond : Slot} {t : ValueType} (hdst : L.HasSlot dst t)
      (hifFalse : L.HasSlot ifFalse t) (hcond : L.HasSlot cond .i32) :
      Fits L ls (.select dst ifFalse cond)
  | unary {ls : List Label} {op : UnaryOp} {dst operand : Slot} (hdst : L.HasSlot dst op.result)
      (hoperand : L.HasSlot operand op.operand) : Fits L ls (.unary op dst operand)
  | binary {ls : List Label} {op : BinaryOp} {dst lhs rhs : Slot}
      (hdst : L.HasSlot dst op.result) (hlhs : L.HasSlot lhs op.operand)
      (hrhs : L.HasSlot rhs op.operand) : Fits L ls (.binary op dst lhs rhs)
  | load {ls : List Label} {access : Access} {offset : Nat} {dst addr : Slot}
      (hmemory : L.module.spaceSize .memory ≠ 0) (hdst : L.HasSlot dst .i32)
      (haddr : L.HasSlot addr .i32) : Fits L ls (.load access offset dst addr)
  | store {ls : List Label} {access : Access} {offset : Nat} {addr value : Slot}
      (hmemory : L.module.spaceSize .memory ≠ 0) (haddr : L.HasSlot addr .i32)
      (hvalue : L.HasSlot value .i32) : Fits L ls (.store access offset addr value)
  | memorySize {ls : List Label} {dst : Slot} (hmemory : L.module.spaceSize .memory ≠ 0)
      (hdst : L.HasSlot dst .i32) : Fits L ls (.memorySize dst)
  | memoryGrow {ls : List Label} {dst delta : Slot} (hmemory : L.module.spaceSize .memory ≠ 0)
      (hdst : L.HasSlot dst .i32) (hdelta : L.HasSlot delta .i32) :
      Fits L ls (.memoryGrow dst delta)

/-- Control never goes on to the statement after this one. -/
def Stmt.Diverts : Stmt → Prop
  | .unreachable | .branch _ | .branchTable .. | .ret _ => True
  | _ => False

def Code.layout (code : Code) (m : Module) : Layout where
  module := m.declarations
  locals := code.locals
  result := code.type.result
  slots := code.stackSlots

/-- Code that is well formed in a module. Its end cannot be reached unless the function has no
result. -/
structure Code.Fits (m : Module) (code : Code) : Prop where
  body : ∀ stmt ∈ code.body, stmt.Fits (code.layout m) []
  ending : code.type.result = none ∨ ∃ stmt ∈ code.body, stmt.Diverts
  params : code.type.params <+: code.locals

/-! ## More room for operands -/

variable {L L' : Layout}

namespace Layout

/-- A slot of a smaller layout is one of a larger layout. -/
theorem HasSlot.mono (hle : L.Le L') {slot : Slot} {t : ValueType} (h : L.HasSlot slot t) :
    L'.HasSlot slot t := by
  cases slot with
  | «local» index => simpa only [HasSlot, hle.locals] using h
  | stack lane height => exact ⟨h.1, Nat.lt_of_lt_of_le h.2 (hle.slots t)⟩

/-- What a branch carries goes to a slot that the larger layout has as well. -/
theorem Carries.mono (hle : L.Le L') {l : Label} {carry : Option (Slot × Slot)}
    (h : L.Carries l carry) : L'.Carries l carry := by
  cases carry with
  | none => exact h
  | some c =>
    obtain ⟨t, hresult, hsrc, hplace, hdst⟩ := h
    exact ⟨t, hresult, hsrc.mono hle, hplace, hdst.mono hle⟩

theorem hasSlots_mono (hle : L.Le L') {slots : List Slot} {ts : List ValueType}
    (h : List.Forall₂ L.HasSlot slots ts) : List.Forall₂ L'.HasSlot slots ts :=
  h.imp fun _ _ hs ↦ hs.mono hle

theorem hasSlot?_mono (hle : L.Le L') {slot : Option Slot} {t : Option ValueType}
    (h : Option.Rel L.HasSlot slot t) : Option.Rel L'.HasSlot slot t := by
  cases h with
  | some hs => exact .some (hs.mono hle)
  | none => exact .none

end Layout

/-- A branch leads to the same construct, however much room there is for operands. -/
theorem Target.Fits.mono (hle : L.Le L') {ls : List Label} {target : Target}
    (h : target.Fits L ls) : target.Fits L' ls := by
  cases h with
  | leave hl hkind hcarry => exact .leave hl hkind (hcarry.mono hle)
  | restart hl hkind => exact .restart hl hkind
  | ret hvalue =>
    rw [← hle.result] at hvalue
    exact .ret (Layout.hasSlot?_mono hle hvalue)

/-- Statements that fit a layout fit every larger one, by induction on their structure. The compiler
only finds out at the end of a function how much room it needs. -/
theorem Stmt.Fits.mono (hle : L.Le L') {ls : List Label} {stmt : Stmt} (h : stmt.Fits L ls) :
    stmt.Fits L' ls := by
  have hmodule := hle.module
  induction h with
  | unreachable => exact .unreachable
  | block result base _ ih => exact .block result base ih
  | loop result base _ ih => exact .loop result base ih
  | conditional result base hcond _ _ ihthen ihelse =>
    exact .conditional result base (hcond.mono hle) ihthen ihelse
  | branch htarget => exact .branch (htarget.mono hle)
  | branchIf hcond htarget => exact .branchIf (hcond.mono hle) (htarget.mono hle)
  | branchTable hindex htargets hdefault =>
    exact .branchTable (hindex.mono hle) (fun t ht ↦ (htargets t ht).mono hle)
      (hdefault.mono hle)
  | ret hvalue =>
    rw [← hle.result] at hvalue
    exact .ret (Layout.hasSlot?_mono hle hvalue)
  | call hfunc hargs hresult =>
    exact .call (hmodule ▸ hfunc) (Layout.hasSlots_mono hle hargs)
      (Layout.hasSlot?_mono hle hresult)
  | callIndirect htable htype hindex hargs hresult =>
    exact .callIndirect (hmodule ▸ htable) (hmodule ▸ htype) (hindex.mono hle)
      (Layout.hasSlots_mono hle hargs) (Layout.hasSlot?_mono hle hresult)
  | copy hdst hsrc => exact .copy (hdst.mono hle) (hsrc.mono hle)
  | const hdst => exact .const (hdst.mono hle)
  | globalGet hglobal hdst => exact .globalGet (hmodule ▸ hglobal) (hdst.mono hle)
  | globalSet hglobal hmutable hsrc =>
    exact .globalSet (hmodule ▸ hglobal) hmutable (hsrc.mono hle)
  | select hdst hifFalse hcond =>
    exact .select (hdst.mono hle) (hifFalse.mono hle) (hcond.mono hle)
  | unary hdst hoperand => exact .unary (hdst.mono hle) (hoperand.mono hle)
  | binary hdst hlhs hrhs => exact .binary (hdst.mono hle) (hlhs.mono hle) (hrhs.mono hle)
  | load hmemory hdst haddr => exact .load (hmodule ▸ hmemory) (hdst.mono hle) (haddr.mono hle)
  | store hmemory haddr hvalue =>
    exact .store (hmodule ▸ hmemory) (haddr.mono hle) (hvalue.mono hle)
  | memorySize hmemory hdst => exact .memorySize (hmodule ▸ hmemory) (hdst.mono hle)
  | memoryGrow hmemory hdst hdelta =>
    exact .memoryGrow (hmodule ▸ hmemory) (hdst.mono hle) (hdelta.mono hle)

end WasmEngine
