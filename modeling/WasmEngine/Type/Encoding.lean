import WasmEngine.Config
import WasmEngine.Bytes.Vector

/-!
# Types in a binary

Value types, block types and element types are seven-bit tags; the kind of an import or export is
one plain byte. Limits are a flag, a minimum and, when the flag is set, a maximum.
-/

namespace WasmEngine.Reader

def valueTypeOfTag : Int → Option ValueType
  | -1 => some .i32
  | -2 => some .i64
  | -3 => some .f32
  | -4 => some .f64
  | _ => none

def valueType : Reader ValueType := do
  let start ← offset
  let tag ← varint7
  match valueTypeOfTag tag with
  | some t => return t
  | none => failAt start (.invalidValueType tag)

/-- The result of a block: a value type, or none. -/
def blockType : Reader (Option ValueType) := do
  let start ← offset
  let tag ← varint7
  if tag = -0x40 then return none
  match valueTypeOfTag tag with
  | some t => return some t
  | none => failAt start (.invalidBlockType tag)

/-- Tables hold functions and nothing else. -/
def elemType : Reader Unit := do
  let start ← offset
  let tag ← varint7
  if tag = -0x10 then return () else failAt start (.invalidElemType tag)

def externKind : Reader ExternKind := do
  let start ← offset
  let b ← byte
  match b.toNat with
  | 0 => return .func
  | 1 => return .table
  | 2 => return .memory
  | 3 => return .global
  | tag => failAt start (.invalidExternKind tag)

def limits : Reader Limits := do
  let start ← offset
  let hasMax ← varuint1
  let min ← varuint32
  if hasMax then
    let max ← varuint32
    if max < min then failAt start (.malformed .limitsOrder)
    return ⟨min, some max⟩
  return ⟨min, none⟩

/-- A function type has any number of parameters and at most one result. -/
def funcType : Reader FuncType := do
  let start ← offset
  let form ← varint7
  if form ≠ -0x20 then failAt start (.malformed .typeForm)
  let params ← vector valueType
  if ← varuint1 then
    let t ← valueType
    return ⟨params, [t]⟩
  return ⟨params, []⟩

def tableType : Reader Limits := do
  elemType
  limits

/-- A memory's bounds stay within the address space. -/
def memoryType : Reader Limits := do
  let start ← offset
  let l ← limits
  if l.min > maxPages ∨ l.max.any (· > maxPages) then
    failAt start (.limitExceeded .memoryPages maxPages)
  return l

def globalType : Reader GlobalType := do
  let t ← valueType
  let isMutable ← varuint1
  return ⟨t, isMutable⟩

end WasmEngine.Reader
