import WasmEngine.Host
import WasmEngine.Table

/-!
# Stores

A store owns all functions, tables, memories, globals and instances that an engine has made, and
addresses are indices into its arenas. It also counts the calls in progress and keeps a journal of
the host functions that were entered, in order.

Items are only ever added at the end of an arena. The one exception is a failed instantiation,
which goes back to the mark that was taken before it.
-/

namespace WasmEngine

/-- What the address of a function stands for: code that runs in an instance, or a function of the
host. A host function without a type can only be called by the host. -/
inductive Callable where
  | code (inst : Nat) (code : Code)
  | host (type : Option FuncType) (f : HostFunc)

def Callable.type? : Callable → Option FuncType
  | code _ c => some c.type
  | host type _ => type

structure Global where
  type : GlobalType
  value : Value
deriving DecidableEq, Inhabited

/-- Store addresses of the items of an instance, by index. -/
structure IndexSpaces where
  funcs : Array Nat := #[]
  tables : Array Nat := #[]
  memories : Array Nat := #[]
  globals : Array Nat := #[]
deriving DecidableEq, Inhabited

structure Instance extends IndexSpaces where
  module : Module
  /-- Exported items in the order of their declaration. -/
  exports : List (String × Extern) := []
deriving Inhabited

/-- One entry into a host function. -/
structure HostCall where
  tag : Nat
  args : List Number
deriving DecidableEq

structure Store where
  id : Nat
  config : Config := {}
  funcs : Array Callable := #[]
  tables : Array Table := #[]
  memories : Array Memory := #[]
  globals : Array Global := #[]
  instances : Array Instance := #[]
  /-- Calls in progress. -/
  depth : Nat := 0
  journal : Array HostCall := #[]

namespace Store

/-- Sizes of the arenas at some moment. -/
structure Mark where
  funcs : Nat
  tables : Nat
  memories : Nat
  globals : Nat
  instances : Nat
deriving DecidableEq

variable (s : Store)

def mark : Mark where
  funcs := s.funcs.size
  tables := s.tables.size
  memories := s.memories.size
  globals := s.globals.size
  instances := s.instances.size

/-- Drop everything that was added since the mark. -/
def rollback (m : Mark) : Store :=
  { s with
    funcs := s.funcs.take m.funcs
    tables := s.tables.take m.tables
    memories := s.memories.take m.memories
    globals := s.globals.take m.globals
    instances := s.instances.take m.instances }

variable {arena : Arena}

/-- A reference to an address of this store. -/
def ref (address : Nat) : Ref arena := ⟨s.id, address⟩

/-- The address in this store that a reference stands for, if it is a reference into this store. -/
def resolve (r : Ref arena) : Option Nat := if r.store = s.id then some r.address else none

/-! ### Instances and functions -/

/-- The instance that a reference into this store stands for. -/
def findInstance (i : Ref .inst) : Option Instance := do s.instances[← s.resolve i]?

/-- The exports of an instance, none if it belongs to another store. -/
def exports (i : Ref .inst) : List (String × Extern) :=
  match s.findInstance i with
  | some inst => inst.exports
  | none => []

def exportOf (i : Ref .inst) (name : String) : Option Extern := do
  (← s.findInstance i).exports.lookup name

/-- The number that stands for an exported global of an instance. -/
def globalOf (i : Ref .inst) (name : String) : Option Number := do
  (← s.exportOf i name).global?

/-- The type of a function, if it has one and belongs to this store. -/
def funcType (f : Ref .func) : Option FuncType := do
  (← s.funcs[← s.resolve f]?).type?

/-- Add a host function, with a type or without. -/
def newFunc (type : Option FuncType) (f : HostFunc) : Ref .func × Store :=
  (s.ref s.funcs.size, { s with funcs := s.funcs.push (.host type f) })

/-! ### Memories -/

/-- Limits as an embedder gives them, which must be in order. -/
def checkLimits (initial : Nat) : Option Nat → Except RangeError Limits
  | some maximum =>
    if maximum < initial then .error (.invalidLimits initial maximum)
    else .ok ⟨initial, some maximum⟩
  | none => .ok ⟨initial, none⟩

def newMemory (initial : Nat) (maximum : Option Nat) : Except RangeError (Ref .memory × Store) := do
  let m ← Memory.new (← checkLimits initial maximum) s.config.maxMemoryPages
  return (s.ref s.memories.size, { s with memories := s.memories.push m })

/-- The address of a memory and the memory itself. -/
def memory (m : Ref .memory) : Except RangeError (Nat × Memory) :=
  match s.resolve m with
  | none => .error (.badHandle .memory)
  | some addr =>
    match s.memories[addr]? with
    | none => .error (.badHandle .memory)
    | some mem => .ok (addr, mem)

def setMemory (addr : Nat) (m : Memory) : Store :=
  { s with memories := s.memories.setIfInBounds addr m }

def memorySize (m : Ref .memory) : Except RangeError Nat := do
  return (← s.memory m).2.pages

def memoryMaximum (m : Ref .memory) : Except RangeError (Option Nat) := do
  return (← s.memory m).2.max

def memoryBytes (m : Ref .memory) : Except RangeError Nat := do
  return (← s.memory m).2.bytes.size

def memoryRead (m : Ref .memory) (addr len : Nat) : Except RangeError (Option (List UInt8)) := do
  return (← s.memory m).2.read? addr len

/-- Write bytes if all of them have a place in the memory, and say whether they were written. -/
def memoryWrite (m : Ref .memory) (addr : Nat) (bytes : List UInt8) :
    Except RangeError (Bool × Store) := do
  let (a, mem) ← s.memory m
  if mem.holds addr bytes.length then return (true, s.setMemory a (mem.write addr bytes))
  return (false, s)

def memoryGrow (m : Ref .memory) (delta : Nat) : Except RangeError (Nat × Store) := do
  let (a, mem) ← s.memory m
  let (previous, mem) ← mem.grow delta
  return (previous, s.setMemory a mem)

/-! ### Tables -/

def newTable (initial : Nat) (maximum : Option Nat) : Except RangeError (Ref .table × Store) := do
  let t ← Table.new (← checkLimits initial maximum) s.config.maxTableElements
  return (s.ref s.tables.size, { s with tables := s.tables.push t })

/-- The address of a table and the table itself. -/
def table (t : Ref .table) : Except RangeError (Nat × Table) :=
  match s.resolve t with
  | none => .error (.badHandle .table)
  | some addr =>
    match s.tables[addr]? with
    | none => .error (.badHandle .table)
    | some tab => .ok (addr, tab)

def setTable (addr : Nat) (t : Table) : Store :=
  { s with tables := s.tables.setIfInBounds addr t }

def tableSize (t : Ref .table) : Except RangeError Nat := do
  return (← s.table t).2.size

def tableMaximum (t : Ref .table) : Except RangeError (Option Nat) := do
  return (← s.table t).2.max

def tableGet (t : Ref .table) (index : Nat) : Except RangeError (Option (Ref .func)) := do
  let tab := (← s.table t).2
  match tab.get? index with
  | some slot => return slot.map s.ref
  | none => throw (.indexOutOfBounds index tab.size)

/-- The address of a function that may stand in a table: one of this store, with a type. -/
def elementAddress (f : Ref .func) : Except RangeError Nat :=
  match s.resolve f with
  | none => .error (.badHandle .func)
  | some addr =>
    match s.funcs[addr]? with
    | none => .error (.badHandle .func)
    | some callable =>
      if callable.type?.isSome then .ok addr else .error .untypedFunction

/-- Put a function into a slot of a table, or clear the slot. -/
def tableSet (t : Ref .table) (index : Nat) (f : Option (Ref .func)) :
    Except RangeError Store := do
  if (s.resolve t).isNone then throw (.badHandle .table)
  let slot ← f.mapM s.elementAddress
  let (a, tab) ← s.table t
  return s.setTable a (← tab.set index slot)

def tableGrow (t : Ref .table) (delta : Nat) : Except RangeError (Nat × Store) := do
  let (a, tab) ← s.table t
  let (previous, tab) ← tab.grow delta
  return (previous, s.setTable a tab)

/-! ### Queries -/

/-- The answer and store of an operation that may fail, and then changes nothing. -/
def orUnchanged {α ε : Type} : Except ε (α × Store) → Except ε α × Store
  | .ok (a, s') => (.ok a, s')
  | .error e => (.error e, s)

/-- Carry out a query. -/
def answer : (q : Query) → q.Reply × Store
  | .exports i => (s.exports i, s)
  | .exportOf i name => (s.exportOf i name, s)
  | .funcType f => (s.funcType f, s)
  | .newMemory initial maximum => s.orUnchanged (s.newMemory initial maximum)
  | .memorySize m => (s.memorySize m, s)
  | .memoryMaximum m => (s.memoryMaximum m, s)
  | .memoryRead m addr len => (s.memoryRead m addr len, s)
  | .memoryWrite m addr bytes => s.orUnchanged (s.memoryWrite m addr bytes)
  | .memoryGrow m delta => s.orUnchanged (s.memoryGrow m delta)
  | .newTable initial maximum => s.orUnchanged (s.newTable initial maximum)
  | .tableSize t => (s.tableSize t, s)
  | .tableMaximum t => (s.tableMaximum t, s)
  | .tableGet t index => (s.tableGet t index, s)
  | .tableSet t index f => s.orUnchanged do return ((), ← s.tableSet t index f)
  | .tableGrow t delta => s.orUnchanged (s.tableGrow t delta)

end Store

end WasmEngine
