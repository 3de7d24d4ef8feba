/-!
# Limits of an engine

The bounds that decoding, instantiation and execution keep to, whatever a module asks for.
-/

namespace WasmEngine

/-- Bytes in one page of memory. -/
def pageSize : Nat := 65536

/-- The most pages that 32-bit addresses reach. -/
def maxPages : Nat := 65536

structure Config where
  /-- Calls nested more deeply than this exhaust the call stack. -/
  maxCallDepth : Nat := 256
  /-- The most parameters and locals of one function. -/
  maxFunctionLocals : Nat := 50000
  /-- The deepest nesting of blocks, loops and conditionals in one function. -/
  maxControlDepth : Nat := 1024
  /-- The most pages of any memory, whatever maximum it declares. -/
  maxMemoryPages : Nat := maxPages
  /-- The most elements of any table. -/
  maxTableElements : Nat := 10000000
deriving DecidableEq, Inhabited

/-- A configuration with the given cap on memory, itself capped by the address space. -/
def Config.withMemoryPages (c : Config) (pages : Nat) : Config :=
  { c with maxMemoryPages := min pages maxPages }

end WasmEngine
