import WasmEngine.Code.Encoding

/-!
# Sections

The payload of a section is read into the module as decoded so far, and every index, type and
limit in it is checked against what earlier sections declared. An error names the offset of the
entry that caused it.
-/

namespace WasmEngine

inductive SectionId where
  | custom
  | type
  | imports
  | function
  | table
  | memory
  | global
  | exports
  | start
  | element
  | code
  | data
deriving DecidableEq

namespace SectionId

def number : SectionId → Nat
  | custom => 0
  | type => 1
  | imports => 2
  | function => 3
  | table => 4
  | memory => 5
  | global => 6
  | exports => 7
  | start => 8
  | element => 9
  | code => 10
  | data => 11

def ofNumber : Nat → Option SectionId
  | 0 => some custom
  | 1 => some type
  | 2 => some imports
  | 3 => some function
  | 4 => some table
  | 5 => some memory
  | 6 => some global
  | 7 => some exports
  | 8 => some start
  | 9 => some element
  | 10 => some code
  | 11 => some data
  | _ => none

theorem ofNumber_number (id : SectionId) : ofNumber id.number = some id := by
  cases id <;> rfl

end SectionId

structure SectionHeader where
  id : SectionId
  length : Nat
  /-- Offset of the first byte of the payload. -/
  payload : Nat
deriving DecidableEq

/-- Offset of the first byte after the payload. -/
def SectionHeader.endOffset (h : SectionHeader) : Nat := h.payload + h.length

namespace Reader

variable {α : Type}

def sectionHeader : Reader SectionHeader := do
  let start ← offset
  let number ← varuint7
  match SectionId.ofNumber number with
  | none => failAt start (.unknownSection number)
  | some id =>
    let length ← varuint32
    return ⟨id, length, ← offset⟩

/-- Thread a value through `n` entries. -/
def entries (entry : α → Reader α) : Nat → α → Reader α
  | 0, a => return a
  | n + 1, a => do
    let a ← entry a
    entries entry n a

/-- Thread a value through a counted sequence of entries. -/
def counted (entry : α → Reader α) (a : α) : Reader α := do
  let n ← varuint32
  entries entry n a

/-- The one instruction of an initializer that starts at `start`. -/
def initializer (start : Nat) : Reader ConstExpr := do
  let opcode ← byte
  match opcode.toNat with
  | 0x41 => return .value (.i32 (BitVec.ofInt 32 (← varint32)))
  | 0x42 => varint64
  | 0x43 => return .value (.f32 (BitVec.ofNat 32 (← fixed 4)))
  | 0x44 => return .value (.f64 (BitVec.ofNat 64 (← fixed 8)))
  | 0x23 => return .globalGet (← varuint32)
  | _ => failAt start (.malformed .initializer)

/-- An initializer is one constant, or one imported global, and an end. -/
def constExpr : Reader ConstExpr := do
  let start ← offset
  let e ← initializer start
  let last ← byte
  if last ≠ 0x0b then failAt start (.malformed .initializerEnd)
  return e

end Reader

namespace Module

open Reader

variable (m : Module)

def requireType (pos index : Nat) : Reader FuncType :=
  match m.types[index]? with
  | some t => return t
  | none => failAt pos (.indexOutOfRange .type index)

def requireFunc (pos index : Nat) : Reader FuncType :=
  match m.funcType? index with
  | some t => return t
  | none => failAt pos (.indexOutOfRange .func index)

/-- At most one table and one memory, imports included. -/
def checkSingletons (pos : Nat) : Reader Unit := do
  if m.spaceSize .table > 1 then failAt pos (.tooMany .table)
  if m.spaceSize .memory > 1 then failAt pos (.tooMany .memory)

/-- The type of an initializer, which names no global but an imported one. -/
def constExprType (pos : Nat) : ConstExpr → Reader ValueType
  | .value v => return v.type
  | .globalGet index => do
    if index ≥ m.imported.globals then failAt pos (.indexOutOfRange .importedGlobal index)
    match m.globalType? index with
    | some g => return g.type
    | none => failAt pos (.indexOutOfRange .global index)

def checkConstExpr (pos : Nat) (e : ConstExpr) (expected : ValueType) : Reader Unit := do
  let found ← m.constExprType pos e
  if found ≠ expected then failAt pos (.typeMismatch expected found)

/-- What an import that starts at `start` asks for. -/
def importDesc (start : Nat) : Reader ImportDesc := do
  match ← externKind with
  | .func =>
    let index ← varuint32
    let _ ← m.requireType start index
    return .func index
  | .table => return .table (← tableType)
  | .memory => return .memory (← memoryType)
  | .global => return .global (← globalType)

def importEntry : Reader Module := do
  let start ← offset
  let module ← name
  let item ← name
  let desc ← m.importDesc start
  let m := m.pushImport ⟨module, item, desc⟩
  m.checkSingletons start
  return m

def typeSection : Reader Module := return { m with types := ← vector funcType }

def importSection : Reader Module := counted importEntry m

/-- All indices are read before any is checked. -/
def functionSection : Reader Module := do
  let indices ← vector do
    let pos ← offset
    let index ← varuint32
    return (pos, index)
  indices.forM fun (pos, index) ↦ do
    let _ ← m.requireType pos index
  return { m with funcs := indices.map (·.2) }

def tableSection : Reader Module := do
  let start ← offset
  let m := { m with tables := ← vector tableType }
  m.checkSingletons start
  return m

def memorySection : Reader Module := do
  let start ← offset
  let m := { m with memories := ← vector memoryType }
  m.checkSingletons start
  return m

def globalEntry : Reader Module := do
  let type ← globalType
  let pos ← offset
  let init ← constExpr
  m.checkConstExpr pos init type.type
  return { m with globals := m.globals ++ [⟨type, init⟩] }

def globalSection : Reader Module := counted globalEntry m

/-- An export name is used once, and its index exists. -/
def exportEntry : Reader Module := do
  let item ← name
  let pos ← offset
  let kind ← externKind
  let index ← varuint32
  if m.exports.any (·.name = item) then throw (.duplicateExport item)
  if index ≥ m.spaceSize kind then
    failAt pos (.indexOutOfRange (.ofKind kind) index)
  return { m with exports := m.exports ++ [⟨item, kind, index⟩] }

def exportSection : Reader Module := counted exportEntry m

/-- The start function takes nothing and gives nothing. -/
def startSection : Reader Module := do
  let pos ← offset
  let index ← varuint32
  let type ← m.requireFunc pos index
  if type ≠ ⟨[], []⟩ then failAt pos (.malformed .startType)
  return { m with start := some index }

/-- The index of a segment's target, of which only zero is legal, and only if the target exists. -/
def segmentTarget (place : ReservedIndex) (space : IndexSpace) (available : Nat) :
    Reader Unit := do
  let pos ← offset
  let index ← varuint32
  if index ≠ 0 then failAt pos (.nonZeroIndex place index)
  if available = 0 then failAt pos (.indexOutOfRange space index)

def segmentOffset : Reader ConstExpr := do
  let pos ← offset
  let e ← constExpr
  m.checkConstExpr pos e .i32
  return e

def elementEntry : Reader Module := do
  segmentTarget .elementTable .table (m.spaceSize .table)
  let place ← m.segmentOffset
  let funcs ← vector do
    let pos ← offset
    let index ← varuint32
    let _ ← m.requireFunc pos index
    return index
  return { m with elements := m.elements ++ [⟨place, funcs⟩] }

def elementSection : Reader Module := counted elementEntry m

/-- A function body in a frame of its own, whose size precedes it. -/
def codeEntry (config : Config) (typeIndex : Nat) : Reader Code := do
  let size ← varuint32
  let body ← sub size
  within body do
    let start ← offset
    let decls ← vector localDecl
    let type ← m.requireType start typeIndex
    Reader.code config m type decls

def codeEntries (config : Config) : List Nat → Reader (List Code)
  | [] => return []
  | t :: ts => do
    let c ← m.codeEntry config t
    return c :: (← codeEntries config ts)

def codeSection (config : Config) : Reader Module := do
  let bodies ← varuint32
  if bodies ≠ m.funcs.length then throw (.bodyCount m.funcs.length bodies)
  return { m with code := ← m.codeEntries config m.funcs }

def dataEntry : Reader Module := do
  segmentTarget .dataMemory .memory (m.spaceSize .memory)
  let place ← m.segmentOffset
  let bytes ← byteString
  return { m with data := m.data ++ [⟨place, bytes⟩] }

def dataSection : Reader Module := counted dataEntry m

/-- Read the payload of a section. The payload of a custom section is not looked at. -/
def sectionPayload (config : Config) : SectionId → Reader Module
  | .custom => return m
  | .type => m.typeSection
  | .imports => m.importSection
  | .function => m.functionSection
  | .table => m.tableSection
  | .memory => m.memorySection
  | .global => m.globalSection
  | .exports => m.exportSection
  | .start => m.startSection
  | .element => m.elementSection
  | .code => m.codeSection config
  | .data => m.dataSection

end Module

end WasmEngine
