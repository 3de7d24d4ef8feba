import WasmEngine.Instr
import WasmEngine.Type.Encoding

/-!
# Instructions in a binary

An instruction is an opcode byte and its immediates. All immediates are read before anything about
the instruction is checked, so an input that ends inside them is reported as such. Constants of
64 bits, unknown opcodes and reserved bytes other than zero are refused here.
-/

namespace WasmEngine.Reader

def memArg : Reader MemArg := do
  let align ← varuint32
  let offset ← varuint32
  return ⟨align, offset⟩

/-- A byte that is reserved for an index and must be zero. The instruction starts at `start`. -/
def reservedByte (start : Nat) (place : ReservedIndex) : Reader Unit := do
  let b ← byte
  if b ≠ 0 then failAt start (.nonZeroIndex place b.toNat)

/-- The immediates of the instruction with the given opcode, which starts at `start`. -/
def immediates (start : Nat) (opcode : Nat) : Reader Instr :=
  match opcode with
  | 0x00 => return .unreachable
  | 0x01 => return .nop
  | 0x02 => return .block (← blockType)
  | 0x03 => return .loop (← blockType)
  | 0x04 => return .conditional (← blockType)
  | 0x05 => return .otherwise
  | 0x0b => return .close
  | 0x0c => return .br (← varuint32)
  | 0x0d => return .brIf (← varuint32)
  | 0x0e => do
    let depths ← vector varuint32
    let default ← varuint32
    return .brTable depths default
  | 0x0f => return .ret
  | 0x10 => return .call (← varuint32)
  | 0x11 => do
    let type ← varuint32
    reservedByte start .callTable
    return .callIndirect type
  | 0x1a => return .drop
  | 0x1b => return .select
  | 0x20 => return .localGet (← varuint32)
  | 0x21 => return .localSet (← varuint32)
  | 0x22 => return .localTee (← varuint32)
  | 0x23 => return .globalGet (← varuint32)
  | 0x24 => return .globalSet (← varuint32)
  | 0x28 => return .load .word (← memArg)
  | 0x2c => return .load .byteS (← memArg)
  | 0x2d => return .load .byteU (← memArg)
  | 0x2e => return .load .halfS (← memArg)
  | 0x2f => return .load .halfU (← memArg)
  | 0x36 => return .store .word (← memArg)
  | 0x3a => return .store .byteU (← memArg)
  | 0x3b => return .store .halfU (← memArg)
  | 0x3f => do
    reservedByte start .memory
    return .memorySize
  | 0x40 => do
    reservedByte start .memory
    return .memoryGrow
  | 0x41 => return .const (.i32 (BitVec.ofInt 32 (← varint32)))
  | 0x42 => varint64
  | 0x43 => return .const (.f32 (BitVec.ofNat 32 (← fixed 4)))
  | 0x44 => return .const (.f64 (BitVec.ofNat 64 (← fixed 8)))
  | _ =>
    match Operator.ofOpcode opcode with
    | some (.unary op) => return .unary op
    | some (.binary op) => return .binary op
    | none => failAt start (.unsupportedOpcode opcode)

def instr : Reader Instr := do
  let start ← offset
  let opcode ← byte
  immediates start opcode.toNat

end WasmEngine.Reader
