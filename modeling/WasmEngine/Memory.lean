import WasmEngine.Bytes.Cursor
import WasmEngine.Config
import WasmEngine.Instr
import WasmEngine.Trap

/-!
# Linear memory

A memory is an array of bytes, a whole number of pages long, that can grow up to a limit: its
declared maximum, or the engine's cap where that is lower. Growth appends zero bytes and moves
nothing. Words are stored with the lowest byte first. An access that does not lie wholly inside the
memory traps and changes nothing; its address is a natural number and never wraps.
-/

namespace WasmEngine

structure Memory where
  bytes : Array UInt8
  /-- The declared maximum, in pages. -/
  max : Option Nat
  /-- The most pages that the memory may grow to. -/
  limit : Nat
deriving DecidableEq, Inhabited

/-- Write bytes into an array from an index on. Bytes beyond its end are dropped. -/
def overlay {α : Type} (a : Array α) (index : Nat) : List α → Array α
  | [] => a
  | b :: bs => overlay (a.setIfInBounds index b) (index + 1) bs

@[simp] theorem size_overlay {α : Type} (a : Array α) (index : Nat) (bs : List α) :
    (overlay a index bs).size = a.size := by
  induction bs generalizing a index with
  | nil => rfl
  | cons b bs ih => simp [overlay, ih]

/-- The lower of a declared maximum and a cap. -/
def effectiveLimit (l : Limits) (cap : Nat) : Nat := min (l.max.getD cap) cap

/-- The word that a load gives for the number in the bytes it reads. -/
def Access.extend (n : Nat) : Access → BitVec 32
  | word => BitVec.ofNat 32 n
  | byteS => (BitVec.ofNat 8 n).signExtend 32
  | byteU => (BitVec.ofNat 8 n).zeroExtend 32
  | halfS => (BitVec.ofNat 16 n).signExtend 32
  | halfU => (BitVec.ofNat 16 n).zeroExtend 32

/-- The lowest `n` bytes of a word, lowest first. -/
def lowBytes (w : BitVec 32) : Nat → List UInt8
  | 0 => []
  | n + 1 => UInt8.ofNat w.toNat :: lowBytes (w >>> 8) n

namespace Memory

/-- A memory of the least size that its limits allow, under a cap on pages. -/
def new (l : Limits) (cap : Nat) : Except RangeError Memory :=
  let limit := effectiveLimit l cap
  if l.min > limit then .error (.invalidLimits l.min limit)
  else .ok { bytes := Array.replicate (l.min * pageSize) 0, max := l.max, limit }

variable (m : Memory)

def pages : Nat := m.bytes.size / pageSize

/-- The size before growth by `delta` pages, and the memory after it. -/
def grow (delta : Nat) : Except RangeError (Nat × Memory) :=
  if m.pages + delta ≤ m.limit then
    .ok (m.pages, { m with bytes := m.bytes ++ Array.replicate (delta * pageSize) 0 })
  else .error (.growOutOfRange m.pages delta m.limit)

/-- Whether `len` bytes from `addr` on lie inside the memory. -/
def holds (addr len : Nat) : Bool := addr + len ≤ m.bytes.size

/-- The `len` bytes from `addr` on, if all of them exist. -/
def read? (addr len : Nat) : Option (List UInt8) :=
  if m.holds addr len then some (m.bytes.extract addr (addr + len)).toList else none

def write (addr : Nat) (bytes : List UInt8) : Memory :=
  { m with bytes := overlay m.bytes addr bytes }

def load (access : Access) (addr : Nat) : Except Trap (BitVec 32) :=
  match m.read? addr access.width with
  | some bytes => .ok (access.extend (littleEndian bytes))
  | none => .error (.memoryOutOfBounds addr access.width)

def store (access : Access) (addr : Nat) (value : BitVec 32) : Except Trap Memory :=
  if m.holds addr access.width then .ok (m.write addr (lowBytes value access.width))
  else .error (.memoryOutOfBounds addr access.width)

end Memory

end WasmEngine
