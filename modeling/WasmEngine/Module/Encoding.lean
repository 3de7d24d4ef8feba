import WasmEngine.Module.Section

/-!
# Modules in a binary

A binary is a magic number, a version, and sections in ascending order of their numbers, with
custom sections anywhere between. A section's payload may be followed by padding up to its declared
end, but its entries must not reach beyond that end.
-/

namespace WasmEngine

/-- The bytes `\0asm`, read as a little-endian number. -/
def magic : Nat := 0x6d736100

def version : Nat := 1

namespace Reader

def preamble : Reader Unit := do
  let m ← fixed 4
  if m ≠ magic then throw .badMagic
  let v ← fixed 4
  if v ≠ version then throw (.badVersion v)

/-- Go to the declared end of a section whose entries have been read. -/
def finishSection (h : SectionHeader) : Reader Unit := do
  let pos ← offset
  if pos > h.endOffset then failAt pos (.sectionOverrun h.id.number h.endOffset)
  if pos < h.endOffset then skip (h.endOffset - pos)

/-- One section. `previous` is the number of the last section that was not custom, or zero. -/
def oneSection (config : Config) (previous : Nat) (m : Module) : Reader (Nat × Module) := do
  let start ← offset
  let h ← sectionHeader
  if h.id = .custom then
    skip h.length
    return (previous, m)
  if h.id.number ≤ previous then failAt start (.sectionOrder h.id.number previous)
  let m ← m.sectionPayload config h.id
  finishSection h
  return (h.id.number, m)

/-- Sections up to the end of the input. Each takes a byte at least, so no more are left than there
are bytes; `n` is the number of those. -/
def allSections (config : Config) : Nat → Nat → Module → Reader Module
  | 0, _, m => return m
  | n + 1, previous, m => do
    if (← get).isEnd then return m
    let (previous, m) ← oneSection config previous m
    allSections config n previous m

/-- A whole module. Each function that it declares must have a body. -/
def module (config : Config) : Reader Module := do
  preamble
  let m ← allSections config (← get).remaining 0 {}
  if m.funcs.length ≠ m.code.length then
    throw (.bodyCount m.funcs.length m.code.length)
  return m

end Reader

namespace Module

/-- Decode and compile a binary under the limits of `config`. -/
def decode (config : Config) (bytes : List UInt8) : Except DecodeError Module :=
  match (Reader.module config).run (.ofBytes bytes) with
  | .ok m _ => .ok m
  | .error e _ => .error e

/-- Whether a binary is a module. -/
def isValid (config : Config) (bytes : List UInt8) : Bool := (decode config bytes).isOk

end Module

end WasmEngine
