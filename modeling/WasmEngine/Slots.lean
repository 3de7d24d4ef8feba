import WasmEngine.Code
import WasmEngine.Trap

/-!
# Slots of a call

The storage that one call of a compiled function addresses: its locals, and an array of operands
for each lane. Slots that the code did not ask for do not exist, and using one traps.
-/

namespace WasmEngine

structure Slots where
  locals : Array Value
  lanes : Lanes (Array Value)
deriving DecidableEq, Inhabited

namespace Slots

/-- Locals of the given types at the start of a call: the arguments in order, then zeros. -/
def initialLocals : List ValueType → List Value → List Value
  | [], _ => []
  | t :: ts, [] => .zero t :: initialLocals ts []
  | _ :: ts, v :: vs => v :: initialLocals ts vs

/-- The slots that a call of `code` starts with. All operands are zero. -/
def new (code : Code) (args : List Value) : Slots where
  locals := (initialLocals code.locals args).toArray
  lanes := Lanes.ofFn fun t ↦ Array.replicate (code.stackSlots.get t) (.zero t)

def get? (s : Slots) : Slot → Option Value
  | .local index => s.locals[index]?
  | .stack lane height => (s.lanes.get lane)[height]?

def get (s : Slots) (slot : Slot) : Except Trap Value :=
  match s.get? slot with
  | some v => .ok v
  | none => .error (.badHandle .slot)

def set (s : Slots) (slot : Slot) (v : Value) : Except Trap Slots :=
  match s, slot with
  | ⟨locals, lanes⟩, .local index =>
    if index < locals.size then .ok ⟨locals.setIfInBounds index v, lanes⟩
    else .error (.badHandle .slot)
  | ⟨locals, lanes⟩, .stack lane height =>
    if height < (lanes.get lane).size then
      .ok ⟨locals, lanes.modify lane (·.setIfInBounds height v)⟩
    else .error (.badHandle .slot)

/-- The word in a slot, which must hold a 32-bit integer. -/
def i32 (s : Slots) (slot : Slot) : Except Trap (BitVec 32) := do
  i32Operand (← s.get slot)

def gather (s : Slots) (slots : List Slot) : Except Trap (List Value) := slots.mapM s.get

end Slots

end WasmEngine
