import WasmEngine.Bytes.Cursor

/-!
# Variable-length integers

An integer is written in groups of seven bits, the lowest group first, one group to a byte. Every
byte but the last has its high bit set. A 32-bit integer takes at most five bytes, of which the
fifth carries four bits: an unsigned reader wants the rest of it clear, a signed one wants it to
repeat the sign. Shorter forms may be padded up to five bytes.

A malformed integer is reported at the offset where it starts, and the reader stops after the byte
that showed it. Integers of 1 and 7 bits are read as 32-bit integers and then checked.
-/

namespace WasmEngine.Reader

/-- The seven payload bits of a byte. -/
def group (b : UInt8) : Nat := b.toNat % 128

/-- Whether another byte of the same integer follows. -/
def continues (b : UInt8) : Bool := 128 ≤ b.toNat

/-- What is left of an unsigned integer that started at `start` when at most `n + 1` bytes of it
are to come. The last byte that may come is the fifth, which carries four bits. -/
def unsignedTail (start : Nat) : Nat → Reader Nat
  | 0 => do
    let b ← byte
    if b.toNat < 16 then return b.toNat else failAt start (.badUnsigned 32)
  | n + 1 => do
    let b ← byte
    if continues b then return group b + 128 * (← unsignedTail start n) else return group b

/-- An unsigned integer below `2 ^ 32`. -/
def varuint32 : Reader Nat := do
  let start ← offset
  unsignedTail start 4

/-- The value of the last group of a signed integer: its highest bit is the sign. -/
def signedGroup (b : UInt8) : Int := if 64 ≤ group b then group b - 128 else group b

/-- What is left of a signed integer. Its fifth byte must repeat the sign in the unused bits. -/
def signedTail (start : Nat) : Nat → Reader Int
  | 0 => do
    let b ← byte
    if b.toNat < 8 ∨ (120 ≤ b.toNat ∧ b.toNat < 128) then return signedGroup b
    else failAt start (.badSigned 32)
  | n + 1 => do
    let b ← byte
    if continues b then return group b + 128 * (← signedTail start n) else return signedGroup b

/-- A signed integer from `-2 ^ 31` up to but not including `2 ^ 31`. -/
def varint32 : Reader Int := do
  let start ← offset
  signedTail start 4

def varuint1 : Reader Bool := do
  let start ← offset
  match ← varuint32 with
  | 0 => return false
  | 1 => return true
  | _ => failAt start (.badUnsigned 1)

def varuint7 : Reader Nat := do
  let start ← offset
  let n ← varuint32
  if n < 128 then return n else failAt start (.badUnsigned 7)

def varint7 : Reader Int := do
  let start ← offset
  let i ← varint32
  if -64 ≤ i ∧ i < 64 then return i else failAt start (.badSigned 7)

/-- Integers of 64 bits are refused before a byte of them is read. -/
def varint64 {α : Type} : Reader α := do failAt (← offset) .wideInteger

end WasmEngine.Reader
