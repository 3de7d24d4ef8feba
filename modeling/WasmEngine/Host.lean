import WasmEngine.Extern
import WasmEngine.Module

/-!
# Host functions

What a host function does with the store it is called in is a program: a tree of requests to the
store, each with the way to go on for every reply, that ends with a result or a trap. A request
either asks about or changes the store without running code, or calls a function, or makes an
instance of a module, whose start function may run. A host function can thus re-enter compiled
code, and the machine that runs the program runs that code too.

A program keeps the store it runs in: requests are all it can do, and none of them puts another
store in the place of this one. An embedder that hands a host function the store itself, to be
written to at will, has to promise that. What is proved of host functions is proved of those that
keep the promise.
-/

namespace WasmEngine

/-- Why no instance was made of a module. -/
inductive InstantiationError where
  | link (e : LinkError)
  | trap (t : Trap)
deriving DecidableEq

/-- Operations of a store that run no code. -/
inductive Query where
  | exports (i : Ref .inst)
  | exportOf (i : Ref .inst) (name : String)
  | funcType (f : Ref .func)
  | newMemory (initial : Nat) (maximum : Option Nat)
  | memorySize (m : Ref .memory)
  | memoryMaximum (m : Ref .memory)
  | memoryRead (m : Ref .memory) (addr len : Nat)
  | memoryWrite (m : Ref .memory) (addr : Nat) (bytes : List UInt8)
  | memoryGrow (m : Ref .memory) (delta : Nat)
  | newTable (initial : Nat) (maximum : Option Nat)
  | tableSize (t : Ref .table)
  | tableMaximum (t : Ref .table)
  | tableGet (t : Ref .table) (index : Nat)
  | tableSet (t : Ref .table) (index : Nat) (f : Option (Ref .func))
  | tableGrow (t : Ref .table) (delta : Nat)

/-- What a query is answered with. A read outside a memory gives nothing, and a write outside it
gives `false` and changes nothing. -/
abbrev Query.Reply : Query → Type
  | exports _ => List (String × Extern)
  | exportOf _ _ => Option Extern
  | funcType _ => Option FuncType
  | newMemory _ _ => Except RangeError (Ref .memory)
  | memorySize _ => Except RangeError Nat
  | memoryMaximum _ => Except RangeError (Option Nat)
  | memoryRead _ _ _ => Except RangeError (Option (List UInt8))
  | memoryWrite _ _ _ => Except RangeError Bool
  | memoryGrow _ _ => Except RangeError Nat
  | newTable _ _ => Except RangeError (Ref .table)
  | tableSize _ => Except RangeError Nat
  | tableMaximum _ => Except RangeError (Option Nat)
  | tableGet _ _ => Except RangeError (Option (Ref .func))
  | tableSet _ _ _ => Except RangeError Unit
  | tableGrow _ _ => Except RangeError Nat

inductive HostProgram where
  | done (result : Except Trap (Option Number))
  | query (q : Query) (next : q.Reply → HostProgram)
  | call (f : Ref .func) (args : List Number) (next : Except Trap (Option Number) → HostProgram)
  | callValues (f : Ref .func) (args : List Value)
      (next : Except Trap (Option Value) → HostProgram)
  | instantiate (m : Module) (imports : Imports)
      (next : Except InstantiationError (Ref .inst) → HostProgram)
  | newFunc (type : Option FuncType) (tag : Nat)
      (body : Option (Ref .inst) → List Number → HostProgram) (next : Ref .func → HostProgram)

/-- A function of the host: what it does when it is called from an instance, or from outside of
any, with some arguments. The tag tells host functions apart in the journal of a store. -/
structure HostFunc where
  tag : Nat
  body : Option (Ref .inst) → List Number → HostProgram

end WasmEngine
