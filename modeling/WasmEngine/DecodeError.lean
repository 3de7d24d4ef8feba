import WasmEngine.Type
import WasmEngine.Text.Quoted

/-!
# Why a binary is refused

A `Fault` is what is wrong, a `DecodeError` also says where. All but four errors are located: they
name the absolute offset, in the whole input, of the byte or entry at fault.
-/

namespace WasmEngine

/-- The index spaces that a binary refers to. -/
inductive IndexSpace where
  | type
  | func
  | table
  | memory
  | global
  | importedGlobal
  | local
deriving DecidableEq

/-- The index space of a kind of item. -/
def IndexSpace.ofKind : ExternKind → IndexSpace
  | .func => func
  | .table => table
  | .memory => memory
  | .global => global

def IndexSpace.name : IndexSpace → String
  | type => "type"
  | func => "function"
  | table => "table"
  | memory => "memory"
  | global => "global"
  | importedGlobal => "imported global"
  | «local» => "local"

/-- Places that reserve an index, of which only zero is legal. -/
inductive ReservedIndex where
  | elementTable
  | dataMemory
  | callTable
  | memory
deriving DecidableEq

def ReservedIndex.name : ReservedIndex → String
  | elementTable => "element segment table"
  | dataMemory => "data segment memory"
  | callTable => "call_indirect table"
  | memory => "memory"

/-- Quantities that a module or its engine bounds. -/
inductive Quota where
  | memoryPages
  | tableElements
  | functionLocals
  | controlNesting
deriving DecidableEq

def Quota.name : Quota → String
  | memoryPages => "memory pages"
  | tableElements => "table elements"
  | functionLocals => "function locals"
  | controlNesting => "control nesting"

/-- Entries that are well delimited but make no sense. -/
inductive Malformation where
  | limitsOrder
  | typeForm
  | initializer
  | initializerEnd
  | startType
deriving DecidableEq

def Malformation.message : Malformation → String
  | limitsOrder => "limits maximum below initial"
  | typeForm => "expected func type form"
  | initializer => "unsupported initializer expression"
  | initializerEnd => "initializer expression must end after one instruction"
  | startType => "start function must have type [] -> []"

inductive Fault where
  | unexpectedEnd
  | badUnsigned (bits : Nat)
  | badSigned (bits : Nat)
  | wideInteger
  | invalidUtf8
  | unknownSection (id : Nat)
  | sectionOrder (id previous : Nat)
  | sectionOverrun (id expectedEnd : Nat)
  | invalidValueType (tag : Int)
  | invalidBlockType (tag : Int)
  | invalidElemType (tag : Int)
  | invalidExternKind (tag : Nat)
  | malformed (m : Malformation)
  | tooMany (kind : ExternKind)
  | nonZeroIndex (place : ReservedIndex) (index : Nat)
  | indexOutOfRange (space : IndexSpace) (index : Nat)
  | unsupportedOpcode (opcode : Nat)
  | typeMismatch (expected found : ValueType)
  | stackUnderflow
  | outsideBlock
  | blockArity (expected found : Nat)
  | elseWithoutIf
  | ifWithoutElse
  | branchDepth (depth : Nat)
  | branchTableArity
  | immutableGlobal (index : Nat)
  | badAlignment (align width : Nat)
  | limitExceeded (quota : Quota) (limit : Nat)
deriving DecidableEq

/-- A seven-bit tag is shown as the byte of its two's complement. -/
def tagText (tag : Int) : String := "0x" ++ Text.hex (tag % 256).toNat

/-- The text of a fault found at `offset`. -/
def Fault.message (offset : Nat) : Fault → String
  | unexpectedEnd => s!"unexpected end of input at offset {offset}"
  | badUnsigned bits => s!"malformed varuint{bits} at offset {offset}"
  | badSigned bits => s!"malformed varint{bits} at offset {offset}"
  | wideInteger => s!"64-bit variable-length integers are not supported (offset {offset})"
  | invalidUtf8 => s!"invalid UTF-8 string at offset {offset}"
  | unknownSection id => s!"unknown section id {id} at offset {offset}"
  | sectionOrder id previous =>
    s!"out-of-order section: id {id} after {previous} at offset {offset}"
  | sectionOverrun id expectedEnd =>
    s!"read past end of section {id}: ended at {offset}, expected {expectedEnd}"
  | invalidValueType tag => s!"invalid value type {tagText tag} at offset {offset}"
  | invalidBlockType tag => s!"invalid block type {tagText tag} at offset {offset}"
  | invalidElemType tag => s!"invalid element type {tagText tag} at offset {offset}"
  | invalidExternKind tag => s!"invalid external kind {tag} at offset {offset}"
  | malformed m => s!"malformed module at offset {offset}: {m.message}"
  | tooMany kind => s!"at most one {kind.name} is allowed (offset {offset})"
  | nonZeroIndex place index =>
    s!"{place.name} index must be zero, found {index} at offset {offset}"
  | indexOutOfRange space index => s!"{space.name} index {index} out of range at offset {offset}"
  | unsupportedOpcode opcode =>
    s!"unsupported opcode 0x{Text.hexPadded 2 opcode} at offset {offset}"
  | typeMismatch expected found =>
    s!"type mismatch at offset {offset}: expected {expected.name}, found {found.name}"
  | stackUnderflow => s!"operand stack underflow at offset {offset}"
  | outsideBlock => s!"operand access outside current block at offset {offset}"
  | blockArity expected found =>
    s!"block at offset {offset} ended with {found} operands, expected {expected}"
  | elseWithoutIf => s!"else without matching if at offset {offset}"
  | ifWithoutElse => s!"if with a result requires an else arm (offset {offset})"
  | branchDepth depth => s!"branch depth {depth} too large at offset {offset}"
  | branchTableArity => s!"br_table targets disagree on result type at offset {offset}"
  | immutableGlobal index => s!"global {index} is immutable (offset {offset})"
  | badAlignment align width =>
    s!"alignment 2^{align} exceeds access width {width} at offset {offset}"
  | limitExceeded quota limit =>
    s!"{quota.name} exceeds configured limit {limit} at offset {offset}"

inductive DecodeError where
  | badMagic
  | badVersion (found : Nat)
  | bodyCount (functions bodies : Nat)
  | duplicateExport (name : String)
  | located (offset : Nat) (fault : Fault)
deriving DecidableEq

def DecodeError.message : DecodeError → String
  | badMagic => "bad magic number"
  | badVersion found => s!"unsupported version 0x{Text.hex found}"
  | bodyCount functions bodies =>
    s!"{functions} function declarations but {bodies} code bodies"
  | duplicateExport name => s!"duplicate export name {Text.quoted name}"
  | located offset fault => fault.message offset

end WasmEngine
