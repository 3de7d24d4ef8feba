import WasmEngine.Bytes.Varint

/-!
# Counted sequences

A vector is a count and that many items; a byte string is a vector of bytes, and a name a byte
string that holds UTF-8. A huge count does no harm: reading stops at the first item that is not
there.
-/

namespace WasmEngine.Reader

variable {α : Type}

def vector (item : Reader α) : Reader (List α) := do
  let n ← varuint32
  repeated item n

def byteString : Reader (List UInt8) := do
  let n ← varuint32
  bytes n

/-- The text whose UTF-8 encoding is the given bytes, if there is one. -/
def decodeUtf8 (bs : List UInt8) : Option String := String.fromUTF8? ⟨bs.toArray⟩

/-- A name; bad UTF-8 is reported where the count of its bytes starts. -/
def name : Reader String := do
  let start ← offset
  let bs ← byteString
  match decodeUtf8 bs with
  | some s => return s
  | none => failAt start .invalidUtf8

end WasmEngine.Reader
