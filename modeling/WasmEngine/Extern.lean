import WasmEngine.Number

/-!
# Items that cross a border

Functions, tables, memories and instances live in a store, and outside of it a reference stands for
each: the store's identity and an address in it. A global crosses as a host number. Imports are
items under a module name and an item name; of several definitions of one name the last counts.
-/

namespace WasmEngine

/-- The parts of a store that references point into. -/
inductive Arena where
  | func
  | table
  | memory
  | inst
deriving DecidableEq

structure Ref (arena : Arena) where
  store : Nat
  address : Nat
deriving DecidableEq

/-- An importable or exported item. -/
inductive Extern where
  | func (f : Ref .func)
  | table (t : Ref .table)
  | memory (m : Ref .memory)
  | global (x : Number)
deriving DecidableEq

namespace Extern

def kind : Extern → ExternKind
  | func _ => .func
  | table _ => .table
  | memory _ => .memory
  | global _ => .global

def func? : Extern → Option (Ref .func)
  | func f => some f
  | _ => none

def table? : Extern → Option (Ref .table)
  | table t => some t
  | _ => none

def memory? : Extern → Option (Ref .memory)
  | memory m => some m
  | _ => none

def global? : Extern → Option Number
  | global x => some x
  | _ => none

end Extern

structure Imports where
  /-- Module names that are known, whether or not an item stands under them. -/
  modules : List String := []
  /-- Items by module and name, the latest first. -/
  items : List ((String × String) × Extern) := []
deriving Inhabited

namespace Imports

def hasModule (i : Imports) (module : String) : Bool := i.modules.contains module

def get? (i : Imports) (module name : String) : Option Extern := i.items.lookup (module, name)

def define (i : Imports) (module name : String) (item : Extern) : Imports where
  modules := module :: i.modules
  items := ((module, name), item) :: i.items

/-- Define every item of a list under one module name, which is known from then on. -/
def defineAll (i : Imports) (module : String) (items : List (String × Extern)) : Imports :=
  items.foldl (fun i (name, item) ↦ i.define module name item)
    { i with modules := module :: i.modules }

end Imports

end WasmEngine
