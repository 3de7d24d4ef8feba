import WasmEngine.DecodeError

/-!
# Reading bytes

A cursor is the bytes still to be read together with the absolute offset of the first of them in
the whole input. A reader takes a cursor and gives a result, or an error, and always the cursor it
stopped at: a failed read may have consumed bytes, and the offset it reached is observable.

The fixed-width reads are all or nothing. They fail, without moving, when too few bytes are left.
-/

namespace WasmEngine

structure Cursor where
  offset : Nat
  rest : List UInt8
deriving DecidableEq

namespace Cursor

def ofBytes (bytes : List UInt8) : Cursor := ⟨0, bytes⟩

def remaining (c : Cursor) : Nat := c.rest.length

def isEnd (c : Cursor) : Bool := c.rest.isEmpty

/-- The cursor `n` bytes further on. -/
def advance (c : Cursor) (n : Nat) : Cursor := ⟨c.offset + n, c.rest.drop n⟩

/-- The same position, bounded to the next `n` bytes. -/
def bounded (c : Cursor) (n : Nat) : Cursor := ⟨c.offset, c.rest.take n⟩

end Cursor

abbrev Reader := EStateM DecodeError Cursor

/-- The number whose base-256 digits, lowest first, are the given bytes. -/
def littleEndian : List UInt8 → Nat
  | [] => 0
  | b :: bs => b.toNat + 256 * littleEndian bs

namespace Reader

variable {α : Type}

/-- Absolute offset of the next byte. -/
def offset : Reader Nat := do return (← get).offset

def failAt (offset : Nat) (fault : Fault) : Reader α := throw (.located offset fault)

/-- The input ends here although more was expected. -/
def endOfInput : Reader α := fun c ↦ .error (.located c.offset .unexpectedEnd) c

/-- The next byte, left where it is. -/
def peek : Reader UInt8 := fun c ↦
  match c.rest with
  | [] => endOfInput c
  | b :: _ => .ok b c

def byte : Reader UInt8 := fun c ↦
  match c.rest with
  | [] => endOfInput c
  | b :: bs => .ok b ⟨c.offset + 1, bs⟩

/-- The next `n` bytes, all of them or none. -/
def bytes (n : Nat) : Reader (List UInt8) := fun c ↦
  if n ≤ c.remaining then .ok (c.rest.take n) (c.advance n) else endOfInput c

def skip (n : Nat) : Reader Unit := do
  let _ ← bytes n

/-- A cursor over the next `n` bytes, which are passed over. -/
def sub (n : Nat) : Reader Cursor := do
  let c ← get
  let _ ← bytes n
  return c.bounded n

/-- The unsigned number in the next `n` bytes, the lowest byte first. -/
def fixed (n : Nat) : Reader Nat := return littleEndian (← bytes n)

/-- Run a reader over the cursor `sub` and stay where this one is. -/
def within (sub : Cursor) (r : Reader α) : Reader α := fun c ↦
  match r sub with
  | .ok a _ => .ok a c
  | .error e _ => .error e c

/-- `n` items, one after the other. -/
def repeated (item : Reader α) : Nat → Reader (List α)
  | 0 => return []
  | n + 1 => do
    let a ← item
    return a :: (← repeated item n)

end Reader

end WasmEngine
