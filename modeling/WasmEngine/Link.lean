import WasmEngine.Store

/-!
# Linking

To make an instance of a module, its imports are resolved, its definitions are added to the store,
its exports are bound, and every segment is checked against the table or memory it goes to. Only
then is a segment written. If any step before that fails, the store goes back to what it was.

A function that has a type links by it and keeps its identity. A host function without a type is
bound to the type of the import, as a new function. Tables and memories are shared, not copied. A
global is imported and exported by value, so it must be immutable.
-/

namespace WasmEngine

abbrev Link := EStateM InstantiationError Store

/-- The contents of segments with the store addresses they go to, ready to be written. -/
structure SegmentPlan where
  /-- Table, first slot, and functions. -/
  elements : List (Nat × Nat × List Nat) := []
  /-- Memory, first byte, and bytes. -/
  data : List (Nat × Nat × List UInt8) := []
deriving DecidableEq

namespace SegmentPlan

def writeElements (s : Store) : Nat × Nat × List Nat → Store
  | (table, index, funcs) => { s with tables := s.tables.modify table (·.write index funcs) }

def writeData (s : Store) : Nat × Nat × List UInt8 → Store
  | (memory, addr, bytes) => { s with memories := s.memories.modify memory (·.write addr bytes) }

/-- Write all segments in order: later ones win where they overlap. -/
def apply (p : SegmentPlan) (s : Store) : Store :=
  p.data.foldl writeData (p.elements.foldl writeElements s)

end SegmentPlan

/-- How an object of the given size and maximum fails to satisfy declared limits, if it does. -/
def limitsFault? (declared : Limits) (current : Nat) (maximum : Option Nat) :
    Option LimitsFault :=
  if current < declared.min then some (.belowMinimum current declared.min)
  else
    match declared.max, maximum with
    | none, _ => none
    | some max, none => some (.noMaximum max)
    | some max, some own =>
      if own > max then some (.maximumTooLarge own max)
      else if current > max then some (.tooLarge current max)
      else none

namespace Link

variable {α : Type}

def refuse (e : LinkError) : Link α := throw (.link e)

/-- Something that decoding has ruled out. -/
def broken (t : Trap) : Link α := throw (.trap t)

def refuseImport (imp : Import) (fault : ImportFault) : Link α :=
  refuse (.badImport imp.module imp.name fault)

/-! ### New items -/

def addFunc (c : Callable) : Link Nat :=
  modifyGet fun s ↦ (s.funcs.size, { s with funcs := s.funcs.push c })

def addTable (t : Table) : Link Nat :=
  modifyGet fun s ↦ (s.tables.size, { s with tables := s.tables.push t })

def addMemory (m : Memory) : Link Nat :=
  modifyGet fun s ↦ (s.memories.size, { s with memories := s.memories.push m })

def addGlobal (g : Global) : Link Nat :=
  modifyGet fun s ↦ (s.globals.size, { s with globals := s.globals.push g })

def addInstance (i : Instance) : Link Nat :=
  modifyGet fun s ↦ (s.instances.size, { s with instances := s.instances.push i })

/-! ### Imports -/

/-- The address of a function that satisfies an import of the expected type. -/
def linkFunc (imp : Import) (expected : FuncType) (addr : Nat) : Link Nat := do
  match (← get).funcs[addr]? with
  | none => broken (.badHandle .func)
  | some (.host none f) =>
    if expected.mentionsI64 then refuseImport imp .i64AtBoundary
    else addFunc (.host (some expected) f)
  | some callable =>
    let found := (callable.type?.map FuncType.signature).getD ""
    if found = expected.signature then return addr
    else refuseImport imp (.signatureMismatch expected.signature found)

/-- A global for an import, with the value that the number stands for. -/
def linkGlobal (imp : Import) (type : GlobalType) (x : Number) : Link Nat := do
  if type.isMutable then refuseImport imp .mutableGlobal
  match x.toValue type.type with
  | .ok v => addGlobal ⟨type, v⟩
  | .error _ => refuseImport imp .i64AtBoundary

def checkLimits (imp : Import) (quota : Quota) (declared : Limits) (current : Nat)
    (maximum : Option Nat) : Link Unit :=
  match limitsFault? declared current maximum with
  | some fault => refuseImport imp (.limits quota fault)
  | none => return ()

/-- The address that an item's reference stands for in this store. -/
def resolve {arena : Arena} (imp : Import) (r : Ref arena) : Link Nat := do
  match (← get).resolve r with
  | some addr => return addr
  | none => refuseImport imp .foreignHandle

/-- The item that is supplied for an import; its kind is as declared. -/
def importedItem (imports : Imports) (imp : Import) : Link Extern := do
  if !imports.hasModule imp.module then refuse (.missingModule imp.module)
  match imports.get? imp.module imp.name with
  | none => refuseImport imp .missing
  | some item =>
    if item.kind ≠ imp.desc.kind then
      refuseImport imp (.kindMismatch imp.desc.kind item.kind)
    return item

/-- Extend the index spaces by one import. -/
def bindImport (m : Module) (imports : Imports) (sp : IndexSpaces) (imp : Import) :
    Link IndexSpaces := do
  match imp.desc, ← importedItem imports imp with
  | .func type, .func f =>
    match m.types[type]? with
    | none => broken (.badHandle .type)
    | some expected =>
      let addr ← resolve imp f
      let addr ← linkFunc imp expected addr
      return { sp with funcs := sp.funcs.push addr }
  | .global type, .global x =>
    let addr ← linkGlobal imp type x
    return { sp with globals := sp.globals.push addr }
  | .memory limits, .memory r =>
    let addr ← resolve imp r
    match (← get).memories[addr]? with
    | none => broken (.badHandle .memory)
    | some mem =>
      checkLimits imp .memoryPages limits mem.pages mem.max
      return { sp with memories := sp.memories.push addr }
  | .table limits, .table r =>
    let addr ← resolve imp r
    match (← get).tables[addr]? with
    | none => broken (.badHandle .table)
    | some tab =>
      checkLimits imp .tableElements limits tab.size tab.max
      return { sp with tables := sp.tables.push addr }
  | _, _ => return sp

/-! ### Definitions -/

def defineFunc (inst : Nat) (sp : IndexSpaces) (code : Code) : Link IndexSpaces := do
  let addr ← addFunc (.code inst code)
  return { sp with funcs := sp.funcs.push addr }

def defineTable (sp : IndexSpaces) (limits : Limits) : Link IndexSpaces := do
  let cap := (← get).config.maxTableElements
  match Table.new limits cap with
  | .error _ => refuse (.storeLimit .tableElements cap)
  | .ok t =>
    let addr ← addTable t
    return { sp with tables := sp.tables.push addr }

def defineMemory (sp : IndexSpaces) (limits : Limits) : Link IndexSpaces := do
  let cap := (← get).config.maxMemoryPages
  match Memory.new limits cap with
  | .error _ => refuse (.storeLimit .memoryPages cap)
  | .ok m =>
    let addr ← addMemory m
    return { sp with memories := sp.memories.push addr }

def globalAt (globals : Array Nat) (index : Nat) : Link Global := do
  match globals[index]? with
  | none => broken (.badHandle .global)
  | some addr =>
    match (← get).globals[addr]? with
    | none => broken (.badHandle .global)
    | some g => return g

/-- The value of an initializer over the globals bound so far. -/
def evalConst (globals : Array Nat) : ConstExpr → Link Value
  | .value v => return v
  | .globalGet index => return (← globalAt globals index).value

def defineGlobal (sp : IndexSpaces) (g : GlobalDecl) : Link IndexSpaces := do
  let v ← evalConst sp.globals g.init
  let addr ← addGlobal ⟨g.type, v⟩
  return { sp with globals := sp.globals.push addr }

/-! ### Exports and segments -/

/-- The address at an index of an index space. -/
def addressIn (space : Array Nat) (what : Referent) (index : Nat) : Link Nat :=
  match space[index]? with
  | some addr => return addr
  | none => broken (.badHandle what)

def exportItem (sp : IndexSpaces) (e : Export) : Link Extern := do
  match e.kind with
  | .func => return .func ((← get).ref (← addressIn sp.funcs .func e.index))
  | .table => return .table ((← get).ref (← addressIn sp.tables .table e.index))
  | .memory => return .memory ((← get).ref (← addressIn sp.memories .memory e.index))
  | .global =>
    let g ← globalAt sp.globals e.index
    if g.type.isMutable then refuse (.unrepresentableExport e.name .mutableGlobal)
    match Number.ofValue g.value with
    | .ok x => return .global x
    | .error _ => refuse (.unrepresentableExport e.name .i64Global)

def bindExport (sp : IndexSpaces) (e : Export) : Link (String × Extern) := do
  return (e.name, ← exportItem sp e)

/-- The place of a segment, an `i32` that is read as unsigned. -/
def segmentOffset (globals : Array Nat) (e : ConstExpr) : Link Nat := do
  match (← evalConst globals e).i32? with
  | some w => return w.toNat
  | none => broken (.operandType .i32)

def checkSegment (kind : SegmentKind) (offset len size : Nat) : Link Unit :=
  if offset + len > size then refuse (.segmentOutOfBounds kind offset len size)
  else return ()

def planElement (sp : IndexSpaces) (seg : ElementSegment) : Link (Nat × Nat × List Nat) := do
  let offset ← segmentOffset sp.globals seg.offset
  let table ← addressIn sp.tables .table 0
  match (← get).tables[table]? with
  | none => broken (.badHandle .table)
  | some t =>
    checkSegment .element offset seg.funcs.length t.size
    let funcs ← seg.funcs.mapM (addressIn sp.funcs .func)
    return (table, offset, funcs)

def planData (sp : IndexSpaces) (seg : DataSegment) : Link (Nat × Nat × List UInt8) := do
  let offset ← segmentOffset sp.globals seg.offset
  let memory ← addressIn sp.memories .memory 0
  match (← get).memories[memory]? with
  | none => broken (.badHandle .memory)
  | some m =>
    checkSegment .data offset seg.bytes.length m.bytes.size
    return (memory, offset, seg.bytes)

/-! ### Instances -/

/-- Add an instance of a module to the store, with its segments planned but not written. -/
def link (m : Module) (imports : Imports) : Link (Nat × SegmentPlan) := do
  let sp ← m.imports.foldlM (bindImport m imports) {}
  let inst ← addInstance { module := m }
  let sp ← m.code.foldlM (defineFunc inst) sp
  let sp ← m.tables.foldlM defineTable sp
  let sp ← m.memories.foldlM defineMemory sp
  let sp ← m.globals.foldlM defineGlobal sp
  let exports ← m.exports.mapM (bindExport sp)
  let elements ← m.elements.mapM (planElement sp)
  let data ← m.data.mapM (planData sp)
  let record : Instance := { toIndexSpaces := sp, module := m, exports }
  modify fun s ↦ { s with instances := s.instances.setIfInBounds inst record }
  return (inst, { elements, data })

/-- Run `x`, and drop what it added to the store if it fails. -/
def restoring (x : Link α) : Link α := fun s ↦
  let mark := s.mark
  match x s with
  | .ok a s' => .ok a s'
  | .error e s' => .error e (s'.rollback mark)

/-- Link an instance and write its segments. Gives the instance, and the address of its start
function if it has one. -/
def prepare (m : Module) (imports : Imports) : Link (Ref .inst × Option Nat) := do
  let (inst, plan) ← restoring (link m imports)
  modify plan.apply
  match (← get).instances[inst]? with
  | none => broken (.badHandle .inst)
  | some record =>
    let start := do record.funcs[← m.start]?
    return ((← get).ref inst, start)

end Link

end WasmEngine
