import WasmEngine.Trap
import WasmEngine.Value

/-!
# Host numbers

Values cross the border between compiled code and its host as numbers in the IEEE 754 double
format, kept here as bit patterns. A finite pattern denotes a dyadic rational: a sign, a natural
significand and a power of two. Conversions are exact integer arithmetic on those parts.

A 32-bit integer crosses by value. Coming back, a number is truncated toward zero and reduced
modulo `2 ^ 32`; what is not finite becomes zero. A single-precision value is widened exactly, and
a number is rounded to the nearest single, ties to even. A NaN keeps its sign and the high bits of
its payload, and becomes quiet, whenever it changes width. Integers of 64 bits do not cross at all.
-/

namespace WasmEngine

structure Number where
  bits : BitVec 64
deriving DecidableEq, Inhabited

/-- A binary interchange format: widths of the fraction and of the exponent. -/
structure FloatFormat where
  fractionBits : Nat
  exponentBits : Nat

namespace FloatFormat

def single : FloatFormat := ⟨23, 8⟩

def double : FloatFormat := ⟨52, 11⟩

variable (f : FloatFormat)

/-- The exponent field of infinities and NaNs. -/
def topExponent : Nat := 1 <<< f.exponentBits - 1

/-- The exponent of two that belongs to the lowest bit of a subnormal. -/
def minExponent : Int := 2 - (1 <<< (f.exponentBits - 1) : Nat) - f.fractionBits

end FloatFormat

/-- What a bit pattern denotes. -/
inductive Datum where
  /-- Sign and payload. -/
  | nan (negative : Bool) (payload : Nat)
  | infinity (negative : Bool)
  /-- `± significand * 2 ^ exponent`. -/
  | finite (negative : Bool) (significand : Nat) (exponent : Int)
deriving DecidableEq

namespace FloatFormat

variable (f : FloatFormat)

/-- Read a bit pattern of the format. -/
def decode (bits : Nat) : Datum :=
  let fraction := bits % 1 <<< f.fractionBits
  let exponent := bits >>> f.fractionBits % 1 <<< f.exponentBits
  let negative := bits >>> (f.fractionBits + f.exponentBits) % 2 = 1
  if exponent = f.topExponent then
    if fraction = 0 then .infinity negative else .nan negative fraction
  else if exponent = 0 then .finite negative fraction f.minExponent
  else .finite negative (1 <<< f.fractionBits + fraction) (f.minExponent + (exponent - 1 : Nat))

/-- Divide by `2 ^ n` and round to the nearest integer, a tie to the even one. -/
def roundShift (a n : Nat) : Nat :=
  let q := a >>> n
  let r := a % 1 <<< n
  if 2 * r > 1 <<< n ∨ (2 * r = 1 <<< n ∧ q % 2 = 1) then q + 1 else q

/-- The pattern without sign of the format's value nearest to `a * 2 ^ e`. A significand that
rounds up to the next power of two carries into the exponent field, and one beyond the largest
finite value gives infinity. -/
def encodeMagnitude (a : Nat) (e : Int) : Nat :=
  if a = 0 then 0
  else
    let lowest := max (e + a.log2 - f.fractionBits) f.minExponent
    let significand :=
      if lowest ≤ e then a <<< (e - lowest).toNat else roundShift a (lowest - e).toNat
    let bits := (lowest - f.minExponent).toNat <<< f.fractionBits + significand
    min bits (f.topExponent <<< f.fractionBits)

/-- Write a datum in the format. A NaN is given the quiet bit, and its payload is cut or padded at
the low end from `width` bits. -/
def encode (width : Nat) (d : Datum) : Nat :=
  let signed (negative : Bool) (magnitude : Nat) : Nat :=
    if negative then 1 <<< (f.fractionBits + f.exponentBits) + magnitude else magnitude
  match d with
  | .nan negative payload =>
    let quiet := 1 <<< (f.fractionBits - 1)
    let kept := payload <<< f.fractionBits >>> width
    signed negative (f.topExponent <<< f.fractionBits + (kept ||| quiet))
  | .infinity negative => signed negative (f.topExponent <<< f.fractionBits)
  | .finite negative a e => signed negative (f.encodeMagnitude a e)

end FloatFormat

namespace Number

def datum (x : Number) : Datum := FloatFormat.double.decode x.bits.toNat

/-- The number that equals an integer, which is exact below `2 ^ 53`. -/
def ofInt (i : Int) : Number :=
  ⟨BitVec.ofNat 64 (FloatFormat.double.encode 52 (.finite (i < 0) i.natAbs 0))⟩

/-- Widen a single-precision pattern. -/
def ofSingle (bits : BitVec 32) : Number :=
  ⟨BitVec.ofNat 64 (FloatFormat.double.encode 23 (FloatFormat.single.decode bits.toNat))⟩

/-- The single-precision pattern nearest to a number. -/
def toSingle (x : Number) : BitVec 32 :=
  BitVec.ofNat 32 (FloatFormat.single.encode 52 x.datum)

/-- The integer part of `a * 2 ^ e`. -/
def truncate (a : Nat) (e : Int) : Nat :=
  if 0 ≤ e then a <<< e.toNat else a >>> (-e).toNat

/-- The word congruent, modulo `2 ^ 32`, to the number truncated toward zero. -/
def toInt32 (x : Number) : BitVec 32 :=
  match x.datum with
  | .finite negative a e =>
    let n : Int := truncate a e
    BitVec.ofInt 32 (if negative then -n else n)
  | _ => 0

/-- The value of type `t` that a number from the host stands for. -/
def toValue (x : Number) : ValueType → Except Trap Value
  | .i32 => .ok (.i32 x.toInt32)
  | .i64 => .error .i64AtBoundary
  | .f32 => .ok (.f32 x.toSingle)
  | .f64 => .ok (.f64 x.bits)

/-- The number that the host sees for a value. -/
def ofValue : Value → Except Trap Number
  | .i32 v => .ok (ofInt v.toInt)
  | .i64 _ => .error .i64AtBoundary
  | .f32 v => .ok (ofSingle v)
  | .f64 v => .ok ⟨v⟩

end Number

end WasmEngine
