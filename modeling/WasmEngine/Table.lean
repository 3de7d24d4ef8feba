import WasmEngine.Memory

/-!
# Function tables

A table is an array of slots, each empty or holding the address of a function. Like a memory it can
grow up to its limit, and growth appends empty slots.
-/

namespace WasmEngine

structure Table where
  slots : Array (Option Nat)
  /-- The declared maximum, in elements. -/
  max : Option Nat
  /-- The most elements that the table may grow to. -/
  limit : Nat
deriving DecidableEq, Inhabited

namespace Table

/-- A table of the least size that its limits allow, under a cap on elements. -/
def new (l : Limits) (cap : Nat) : Except RangeError Table :=
  let limit := effectiveLimit l cap
  if l.min > limit then .error (.invalidLimits l.min limit)
  else .ok { slots := Array.replicate l.min none, max := l.max, limit }

variable (t : Table)

def size : Nat := t.slots.size

/-- The slot at an index, if the table has it. -/
def get? (index : Nat) : Option (Option Nat) := t.slots[index]?

def set (index : Nat) (slot : Option Nat) : Except RangeError Table :=
  if index < t.size then .ok { t with slots := t.slots.setIfInBounds index slot }
  else .error (.indexOutOfBounds index t.size)

/-- The size before growth by `delta` slots, and the table after it. -/
def grow (delta : Nat) : Except RangeError (Nat × Table) :=
  if t.size + delta ≤ t.limit then
    .ok (t.size, { t with slots := t.slots ++ Array.replicate delta none })
  else .error (.growOutOfRange t.size delta t.limit)

/-- Put functions into the slots from `index` on. -/
def write (index : Nat) (funcs : List Nat) : Table :=
  { t with slots := overlay t.slots index (funcs.map some) }

end Table

end WasmEngine
