import WasmEngine.Type
import WasmEngine.DecodeError
import WasmEngine.Text.Quoted

/-!
# Failures after decoding

`Trap` ends a call, `RangeError` refuses an operation of the embedder on a memory or table, and
`LinkError` refuses to make an instance of a module. Each has its own text.
-/

namespace WasmEngine

/-- What a handle, an address or a slot refers to. -/
inductive Referent where
  | slot
  | label
  | func
  | untypedFunc
  | global
  | memory
  | table
  | type
  | inst
deriving DecidableEq

def Referent.name : Referent → String
  | slot => "slot"
  | label => "label"
  | func => "function"
  | untypedFunc => "untyped function"
  | global => "global"
  | memory => "memory"
  | table => "table"
  | type => "type"
  | inst => "instance"

inductive Trap where
  | unreachable
  | divideByZero
  | integerOverflow
  | memoryOutOfBounds (addr len : Nat)
  | tableOutOfBounds (index size : Nat)
  | uninitializedElement (index : Nat)
  | indirectCallType (expected found : String)
  | callStackExhausted (depth : Nat)
  | argumentCount (expected found : Nat)
  | argumentType (index : Nat) (expected : ValueType)
  | i64AtBoundary
  | unexpectedHostResult
  | host (message : String)
  | badHandle (what : Referent)
  | operandType (expected : ValueType)
deriving DecidableEq

def Trap.message : Trap → String
  | unreachable => "unreachable executed"
  | divideByZero => "integer divide by zero"
  | integerOverflow => "integer overflow"
  | memoryOutOfBounds addr len => s!"out of bounds memory access: {len} bytes at {addr}"
  | tableOutOfBounds index size => s!"table index {index} out of bounds (size {size})"
  | uninitializedElement index => s!"uninitialized table element {index}"
  | indirectCallType expected found =>
    s!"indirect call signature mismatch: expected {Text.quoted expected}, found {Text.quoted found}"
  | callStackExhausted depth => s!"call stack exhausted at depth {depth}"
  | argumentCount expected found => s!"expected {expected} arguments, got {found}"
  | argumentType index expected => s!"argument {index}: expected {expected.name}"
  | i64AtBoundary => "i64 values cannot cross the host boundary"
  | unexpectedHostResult => "host function result does not match signature"
  | host message => s!"host function failed: {message}"
  | badHandle what => s!"invalid {what.name} handle"
  | operandType expected => s!"operand type confusion: expected {expected.name}"

inductive RangeError where
  | invalidLimits (initial maximum : Nat)
  | growOutOfRange (current delta maximum : Nat)
  | indexOutOfBounds (index len : Nat)
  | untypedFunction
  | badHandle (what : Referent)
deriving DecidableEq

def RangeError.message : RangeError → String
  | invalidLimits initial maximum => s!"initial size {initial} exceeds maximum {maximum}"
  | growOutOfRange current delta maximum =>
    s!"cannot grow from {current} by {delta} (maximum {maximum})"
  | indexOutOfBounds index len => s!"index {index} out of bounds (length {len})"
  | untypedFunction => "only typed functions can be stored in a table"
  | badHandle what => s!"invalid {what.name} handle"

/-- Why a memory or table does not satisfy the limits an import declares. -/
inductive LimitsFault where
  | belowMinimum (current minimum : Nat)
  | noMaximum (declared : Nat)
  | maximumTooLarge (maximum declared : Nat)
  | tooLarge (current declared : Nat)
deriving DecidableEq

def LimitsFault.message : LimitsFault → String
  | belowMinimum current minimum =>
    s!"current size {current} is below the declared minimum {minimum}"
  | noMaximum declared => s!"has no maximum but {declared} is declared"
  | maximumTooLarge maximum declared =>
    s!"maximum {maximum} exceeds the declared maximum {declared}"
  | tooLarge current declared =>
    s!"current size {current} exceeds the declared maximum {declared}"

/-- Why the item supplied for an import does not satisfy it. -/
inductive ImportFault where
  | missing
  | kindMismatch (expected found : ExternKind)
  | signatureMismatch (expected found : String)
  | i64AtBoundary
  | foreignHandle
  | mutableGlobal
  | limits (quota : Quota) (fault : LimitsFault)
deriving DecidableEq

def ImportFault.message (module name : String) : ImportFault → String
  | missing => s!"missing import {module}.{name}"
  | kindMismatch expected found =>
    s!"import {module}.{name}: expected {expected.name}, found {found.name}"
  | signatureMismatch expected found =>
    s!"import {module}.{name}: signature {Text.quoted found} does not match {Text.quoted expected}"
  | i64AtBoundary => s!"import {module}.{name}: i64 cannot cross the host boundary"
  | foreignHandle => s!"import {module}.{name}: handle belongs to a different store"
  | mutableGlobal => s!"import {module}.{name}: mutable globals cannot be imported"
  | limits quota fault => s!"import {module}.{name}: {quota.name} {fault.message}"

inductive SegmentKind where
  | element
  | data
deriving DecidableEq

def SegmentKind.name : SegmentKind → String
  | element => "element"
  | data => "data"

/-- Why a global cannot be given to the embedder. -/
inductive ExportFault where
  | mutableGlobal
  | i64Global
deriving DecidableEq

def ExportFault.message : ExportFault → String
  | mutableGlobal => "mutable globals cannot be exported"
  | i64Global => "i64 globals cannot be exported"

inductive LinkError where
  | missingModule (module : String)
  | badImport (module name : String) (fault : ImportFault)
  | segmentOutOfBounds (kind : SegmentKind) (offset len size : Nat)
  | unrepresentableExport (name : String) (fault : ExportFault)
  | storeLimit (quota : Quota) (limit : Nat)
deriving DecidableEq

def LinkError.message : LinkError → String
  | missingModule module => s!"missing import module {Text.quoted module}"
  | badImport module name fault => fault.message module name
  | segmentOutOfBounds kind offset len size =>
    s!"{kind.name} segment at offset {offset} with length {len} exceeds size {size}"
  | unrepresentableExport name fault => s!"export {Text.quoted name}: {fault.message}"
  | storeLimit quota limit => s!"{quota.name} exceeds store limit {limit}"

end WasmEngine
