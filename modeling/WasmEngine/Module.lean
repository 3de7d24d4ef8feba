import WasmEngine.Code

/-!
# Modules

A module declares types, functions, tables, memories and globals, what it imports and exports, and
how its tables and memories are filled when an instance of it is made. Each kind of item has an
index space of its own, in which the imports come first and the definitions follow.
-/

namespace WasmEngine

/-- The initial value of a global, or the place of a segment. -/
inductive ConstExpr where
  | value (v : Value)
  /-- The value of an imported global. -/
  | globalGet (index : Nat)
deriving DecidableEq, Inhabited

inductive ImportDesc where
  | func (type : Nat)
  | table (limits : Limits)
  | memory (limits : Limits)
  | global (type : GlobalType)
deriving DecidableEq, Inhabited

namespace ImportDesc

def kind : ImportDesc → ExternKind
  | func _ => .func
  | table _ => .table
  | memory _ => .memory
  | global _ => .global

def func? : ImportDesc → Option Nat
  | func t => some t
  | _ => none

def table? : ImportDesc → Option Limits
  | table l => some l
  | _ => none

def memory? : ImportDesc → Option Limits
  | memory l => some l
  | _ => none

def global? : ImportDesc → Option GlobalType
  | global t => some t
  | _ => none

end ImportDesc

structure Import where
  module : String
  name : String
  desc : ImportDesc
deriving DecidableEq, Inhabited

structure Export where
  name : String
  kind : ExternKind
  index : Nat
deriving DecidableEq, Inhabited

structure GlobalDecl where
  type : GlobalType
  init : ConstExpr
deriving DecidableEq, Inhabited

/-- Functions that are put into the table from `offset` on. -/
structure ElementSegment where
  offset : ConstExpr
  funcs : List Nat
deriving DecidableEq, Inhabited

/-- Bytes that are put into the memory from `offset` on. -/
structure DataSegment where
  offset : ConstExpr
  bytes : List UInt8
deriving DecidableEq, Inhabited

/-- How many items of each kind are imported, and the types of the functions and of the globals
among them. -/
structure Imported where
  funcs : Nat := 0
  tables : Nat := 0
  memories : Nat := 0
  globals : Nat := 0
  funcTypes : List Nat := []
  globalTypes : List GlobalType := []
deriving DecidableEq, Inhabited

def Imported.push (n : Imported) : ImportDesc → Imported
  | .func t => { n with funcs := n.funcs + 1, funcTypes := n.funcTypes ++ [t] }
  | .table _ => { n with tables := n.tables + 1 }
  | .memory _ => { n with memories := n.memories + 1 }
  | .global t => { n with globals := n.globals + 1, globalTypes := n.globalTypes ++ [t] }

structure Module where
  types : List FuncType := []
  imports : List Import := []
  /-- The imports once more, counted as they are read. -/
  imported : Imported := {}
  /-- The type of each defined function. -/
  funcs : List Nat := []
  tables : List Limits := []
  memories : List Limits := []
  globals : List GlobalDecl := []
  exports : List Export := []
  start : Option Nat := none
  elements : List ElementSegment := []
  /-- The code of each defined function. -/
  code : List Code := []
  data : List DataSegment := []
deriving Inhabited

namespace Module

variable (m : Module)

/-- Add an import to the module and to the index space of its kind. -/
def pushImport (i : Import) : Module :=
  { m with imports := m.imports ++ [i], imported := m.imported.push i.desc }

/-- The type index of a function, by its place in the function index space. -/
def funcTypeIndex? (index : Nat) : Option Nat :=
  if index < m.imported.funcs then m.imported.funcTypes[index]?
  else m.funcs[index - m.imported.funcs]?

def funcType? (index : Nat) : Option FuncType := do
  let t ← m.funcTypeIndex? index
  m.types[t]?

def funcResult? (index : Nat) : Option ValueType := do
  (← m.funcType? index).result

/-- The type of a global, by its place in the global index space. -/
def globalType? (index : Nat) : Option GlobalType :=
  if index < m.imported.globals then m.imported.globalTypes[index]?
  else m.globals[index - m.imported.globals]?.map (·.type)

/-- How many items of a kind the module has, imports included. -/
def spaceSize : ExternKind → Nat
  | .func => m.imported.funcs + m.funcs.length
  | .table => m.imported.tables + m.tables.length
  | .memory => m.imported.memories + m.memories.length
  | .global => m.imported.globals + m.globals.length

end Module

end WasmEngine
