import Mathlib.Data.Int.ModEq
import Mathlib.Data.Rat.Floor
import Mathlib.Tactic.FieldSimp
import Mathlib.Tactic.Linarith
import Mathlib.Tactic.NormNum
import Mathlib.Tactic.Positivity
import Mathlib.Tactic.Ring
import WasmEngine.Number

/-!
# Integers across the border

A finite number is the rational `± significand * 2 ^ exponent` that its fields spell,
`Number.value`. Against that reading, `toInt32` is the integer part modulo `2 ^ 32`, and every word
is a number whose integer part it is again, since a significand of 53 bits has room for it.

A host has no integers beyond `2 ^ 53` to compute with. It wraps a number by operations on numbers:
cut off the fraction, take the remainder by `2 ^ 32`, add `2 ^ 32` to a negative remainder, and
cast. `ExactArithmetic` is what those operations must satisfy, and `wrapped_eq_toInt32` says that
they arrive at the same word: each intermediate result is a number, so none of them is rounded.
-/

namespace WasmEngine

/-! ## Truncation -/

/-- The integer part of a rational, cut off toward zero. -/
def towardZero (q : ℚ) : ℤ := if 0 ≤ q then ⌊q⌋ else ⌈q⌉

@[simp] theorem towardZero_intCast (n : ℤ) : towardZero n = n := by
  simp [towardZero]

theorem towardZero_neg (q : ℚ) : towardZero (-q) = -towardZero q := by
  unfold towardZero
  obtain hneg | rfl | hpos := lt_trichotomy q 0
  · rw [if_pos (by linarith), if_neg (by linarith), Int.floor_neg]
  · simp
  · rw [if_neg (by linarith), if_pos hpos.le, Int.ceil_neg]

/-- Division of integers toward zero is division of rationals cut off. -/
theorem towardZero_div (n : ℤ) (d : ℕ) : towardZero ((n : ℚ) / d) = n.tdiv d := by
  have hnat (k : ℕ) : towardZero ((k : ℚ) / d) = (k : ℤ).tdiv d := by
    have hnonneg : (0 : ℚ) ≤ (k : ℚ) / d := by positivity
    have hfloor := Rat.floor_intCast_div_natCast k d
    rw [towardZero, if_pos hnonneg, Int.tdiv_eq_ediv_of_nonneg (Int.natCast_nonneg k)]
    simpa using hfloor
  obtain ⟨k, rfl | rfl⟩ := n.eq_nat_or_neg
  · simpa using hnat k
  · rw [Int.cast_neg, neg_div, towardZero_neg, Int.neg_tdiv]
    simpa using hnat k

namespace Number

/-! ## The fields of a number -/

variable (x : Number)

def isNegative : Bool := x.bits.msb

def exponentField : ℕ := (x.bits.extractLsb' 52 11).toNat

def mantissaField : ℕ := (x.bits.extractLsb' 0 52).toNat

/-- All numbers are finite but the infinities and NaNs, whose exponent field is full. -/
def IsFinite : Prop := x.exponentField ≠ 2047

instance : Decidable x.IsFinite := inferInstanceAs (Decidable (_ ≠ _))

/-- The mantissa with the bit that a number other than a subnormal has in front of it. -/
def significand : ℕ := if x.exponentField = 0 then x.mantissaField else 2 ^ 52 + x.mantissaField

/-- The power of two that the lowest bit of the mantissa stands for. -/
def exponent : ℤ := if x.exponentField = 0 then -1074 else x.exponentField - 1075

/-- The rational that a finite number is. -/
def value : ℚ := (if x.isNegative then -1 else 1) * (x.significand * 2 ^ x.exponent)

/-- The number is finite and equal to a rational. -/
def Denotes (q : ℚ) : Prop := x.IsFinite ∧ x.value = q

variable {x}

theorem mantissaField_lt : x.mantissaField < 2 ^ 52 := (x.bits.extractLsb' 0 52).isLt

theorem significand_lt : x.significand < 2 ^ 53 := by
  have hmantissa := x.mantissaField_lt
  unfold significand
  split <;> omega

theorem exponentField_eq : x.exponentField = x.bits.toNat / 2 ^ 52 % 2048 := by
  rw [exponentField, BitVec.extractLsb'_toNat, Nat.shiftRight_eq_div_pow]

theorem mantissaField_eq : x.mantissaField = x.bits.toNat % 2 ^ 52 := by
  rw [mantissaField, BitVec.extractLsb'_toNat, Nat.shiftRight_zero]

theorem isNegative_eq : x.isNegative = decide (x.bits.toNat / 2 ^ 63 % 2 = 1) := by
  have hlt := x.bits.isLt
  rw [isNegative, BitVec.msb_eq_decide, decide_eq_decide]
  omega

theorem topExponent_double : FloatFormat.double.topExponent = 2047 := rfl

theorem minExponent_double : FloatFormat.double.minExponent = -1074 := rfl

/-- Decoding a number looks at its fields. -/
theorem datum_eq : x.datum =
    if x.exponentField = 2047 then
      if x.mantissaField = 0 then .infinity x.isNegative else .nan x.isNegative x.mantissaField
    else .finite x.isNegative x.significand x.exponent := by
  have hfraction : x.bits.toNat % 1 <<< 52 = x.mantissaField := mantissaField_eq.symm
  have hexponent : x.bits.toNat >>> 52 % 1 <<< 11 = x.exponentField := by
    rw [exponentField_eq, Nat.shiftRight_eq_div_pow]
    rfl
  have hsign : decide (x.bits.toNat >>> (52 + 11) % 2 = 1) = x.isNegative := by
    rw [isNegative_eq, Nat.shiftRight_eq_div_pow]
  simp only [datum, FloatFormat.decode, topExponent_double, minExponent_double]
  simp only [FloatFormat.double, hfraction, hexponent, significand, exponent]
  split
  · split
    · exact congrArg Datum.infinity hsign
    · exact congrArg (Datum.nan · _) hsign
  · split
    · exact congrArg (Datum.finite · _ _) hsign
    · rw [Datum.finite.injEq]
      exact ⟨hsign, rfl, by omega⟩

/-- The integer part of a dyadic rational is what its significand comes to once it is shifted. -/
theorem towardZero_mul_zpow (a : ℕ) (e : ℤ) : towardZero (a * 2 ^ e) = truncate a e := by
  unfold truncate
  split
  · rename_i he
    obtain ⟨k, rfl⟩ := Int.eq_ofNat_of_zero_le he
    have hcast : (a : ℚ) * 2 ^ (k : ℤ) = ((a <<< k : ℕ) : ℤ) := by
      rw [Nat.shiftLeft_eq, zpow_natCast]
      push_cast
      rfl
    rw [hcast, towardZero_intCast, Int.toNat_natCast]
  · rename_i he
    obtain ⟨k, hk⟩ := Int.eq_ofNat_of_zero_le (show 0 ≤ -e by omega)
    obtain rfl : e = -k := by omega
    have hcast : (a : ℚ) * 2 ^ (-k : ℤ) = ((a : ℤ) : ℚ) / (2 ^ k : ℕ) := by
      rw [zpow_neg, zpow_natCast, ← div_eq_mul_inv]
      push_cast
      rfl
    rw [hcast, towardZero_div, neg_neg, Int.toNat_natCast, Nat.shiftRight_eq_div_pow,
      Int.tdiv_eq_ediv_of_nonneg (Int.natCast_nonneg a)]
    rfl

theorem towardZero_value : towardZero x.value =
    if x.isNegative then -(truncate x.significand x.exponent : ℤ)
    else truncate x.significand x.exponent := by
  unfold value
  split
  · rw [neg_one_mul, towardZero_neg, towardZero_mul_zpow]
  · rw [one_mul, towardZero_mul_zpow]

theorem toInt32_of_isFinite (h : x.IsFinite) :
    x.toInt32 = BitVec.ofInt 32 (towardZero x.value) := by
  rw [toInt32, datum_eq, if_neg h, towardZero_value]

theorem toInt32_of_not_isFinite (h : ¬x.IsFinite) : x.toInt32 = 0 := by
  have hdatum := datum_eq (x := x)
  rw [if_pos (not_not.mp h)] at hdatum
  unfold toInt32
  split at hdatum <;> rw [hdatum]

/-! ## Integers as numbers -/

/-- A number is made of its fields. -/
theorem fields_ofNat {s : Bool} {e m : ℕ} (he : e < 2048) (hm : m < 2 ^ 52) :
    let x : Number := ⟨BitVec.ofNat 64 ((if s then 2 ^ 63 else 0) + (e * 2 ^ 52 + m))⟩
    x.isNegative = s ∧ x.exponentField = e ∧ x.mantissaField = m := by
  intro x
  rw [isNegative_eq, exponentField_eq, mantissaField_eq]
  simp only [x, BitVec.toNat_ofNat]
  cases s <;> simp <;> omega

/-- Below `2 ^ 53` a significand is shifted up until its highest bit is in front of the mantissa. -/
theorem encodeMagnitude_eq {a : ℕ} (hpos : 0 < a) (hlt : a < 2 ^ 53) :
    FloatFormat.double.encodeMagnitude a 0 =
      (1023 + a.log2) * 2 ^ 52 + (a * 2 ^ (52 - a.log2) - 2 ^ 52) ∧
    2 ^ 52 ≤ a * 2 ^ (52 - a.log2) ∧ a * 2 ^ (52 - a.log2) < 2 ^ 53 := by
  have hlog : a.log2 ≤ 52 := Nat.lt_succ_iff.mp ((Nat.log2_lt hpos.ne').mpr hlt)
  have hlow : 2 ^ 52 ≤ a * 2 ^ (52 - a.log2) := by
    calc 2 ^ 52 = 2 ^ a.log2 * 2 ^ (52 - a.log2) := by rw [← pow_add]; congr 1; omega
      _ ≤ a * 2 ^ (52 - a.log2) := Nat.mul_le_mul_right _ (Nat.log2_self_le hpos.ne')
  have hhigh : a * 2 ^ (52 - a.log2) < 2 ^ 53 := by
    calc a * 2 ^ (52 - a.log2) < 2 ^ (a.log2 + 1) * 2 ^ (52 - a.log2) :=
          Nat.mul_lt_mul_of_pos_right Nat.lt_log2_self (by positivity)
      _ = 2 ^ 53 := by rw [← pow_add]; congr 1; omega
  refine ⟨?_, hlow, hhigh⟩
  have hlowest : max ((0 : ℤ) + a.log2 - 52) (-1074) = a.log2 - 52 := by omega
  have hshift : ((0 : ℤ) - (a.log2 - 52)).toNat = 52 - a.log2 := by omega
  have hfield : ((a.log2 : ℤ) - 52 - -1074).toNat = 1022 + a.log2 := by omega
  simp only [FloatFormat.encodeMagnitude, topExponent_double, minExponent_double]
  simp only [FloatFormat.double, Nat.cast_ofNat, hlowest, hshift, hfield]
  rw [if_neg hpos.ne', if_pos (by omega), Nat.shiftLeft_eq, Nat.shiftLeft_eq, Nat.shiftLeft_eq]
  omega

theorem ofInt_eq (i : ℤ) : ofInt i = ⟨BitVec.ofNat 64 ((if decide (i < 0) then 2 ^ 63 else 0) +
    FloatFormat.double.encodeMagnitude i.natAbs 0)⟩ := by
  unfold ofInt FloatFormat.encode
  dsimp only
  by_cases hi : i < 0 <;> simp [hi, FloatFormat.double]

/-- Integers below `2 ^ 53` are numbers. -/
theorem ofInt_denotes {i : ℤ} (hi : i.natAbs < 2 ^ 53) : (ofInt i).Denotes i := by
  have hsign : (if decide (i < 0) then -1 else 1 : ℚ) * i.natAbs = i := by
    obtain hneg | hnonneg := lt_or_ge i 0
    · rw [if_pos (decide_eq_true hneg), neg_one_mul, ← Int.cast_natCast, ← Int.cast_neg,
        Int.ofNat_natAbs_of_nonpos hneg.le, neg_neg]
    · rw [if_neg (by simpa using hnonneg), one_mul, ← Int.cast_natCast,
        Int.natAbs_of_nonneg hnonneg]
  obtain hzero | hpos := Nat.eq_zero_or_pos i.natAbs
  · obtain rfl := Int.natAbs_eq_zero.mp hzero
    obtain ⟨hneg, he, hm⟩ := fields_ofNat (s := false) (e := 0) (m := 0) (by decide) (by decide)
    have hbits : ofInt 0 = ⟨BitVec.ofNat 64 ((if false then 2 ^ 63 else 0) + (0 * 2 ^ 52 + 0))⟩ :=
      rfl
    rw [hbits]
    simp only [Denotes, IsFinite, value, significand, he, hm]
    norm_num
  · obtain ⟨hmagnitude, hlow, hhigh⟩ := encodeMagnitude_eq hpos hi
    have hlog : i.natAbs.log2 ≤ 52 := Nat.lt_succ_iff.mp ((Nat.log2_lt hpos.ne').mpr hi)
    rw [ofInt_eq, hmagnitude]
    obtain ⟨hneg, he, hm⟩ := fields_ofNat (s := decide (i < 0)) (e := 1023 + i.natAbs.log2)
      (m := i.natAbs * 2 ^ (52 - i.natAbs.log2) - 2 ^ 52) (by omega) (by omega)
    have hnormal : ¬1023 + i.natAbs.log2 = 0 := by omega
    simp only [Denotes, IsFinite, value, significand, exponent, hneg, he, hm, if_neg hnormal]
    refine ⟨by omega, ?_⟩
    -- The shift of the significand and the exponent cancel out.
    calc (if decide (i < 0) then -1 else 1 : ℚ) *
          ((2 ^ 52 + (i.natAbs * 2 ^ (52 - i.natAbs.log2) - 2 ^ 52) : ℕ) *
            2 ^ (((1023 + i.natAbs.log2 : ℕ) : ℤ) - 1075)) =
        (if decide (i < 0) then -1 else 1 : ℚ) *
          (i.natAbs * (2 ^ ((52 - i.natAbs.log2 : ℕ) : ℤ) *
            2 ^ (((1023 + i.natAbs.log2 : ℕ) : ℤ) - 1075))) := by
          rw [Nat.add_sub_cancel' hlow]
          push_cast
          rw [zpow_natCast, mul_assoc]
      _ = (if decide (i < 0) then -1 else 1 : ℚ) * i.natAbs := by
          rw [← zpow_add₀ (by norm_num), show ((52 - i.natAbs.log2 : ℕ) : ℤ) +
            (((1023 + i.natAbs.log2 : ℕ) : ℤ) - 1075) = 0 by omega, zpow_zero, mul_one]
      _ = i := hsign

/-- What is left of a number without its fraction is a number again. -/
theorem exists_denotes_towardZero (h : x.IsFinite) :
    ∃ y : Number, y.Denotes (towardZero x.value) := by
  by_cases hexponent : 0 ≤ x.exponent
  · -- The number has no fraction.
    refine ⟨x, h, ?_⟩
    obtain ⟨k, hk⟩ := Int.eq_ofNat_of_zero_le hexponent
    have hint : x.value = ((if x.isNegative then -1 else 1) * (x.significand * 2 ^ k) : ℤ) := by
      rw [value, hk, zpow_natCast]
      push_cast
      rfl
    rw [hint, towardZero_intCast]
  · refine ⟨ofInt (towardZero x.value), ofInt_denotes ?_⟩
    have hle : truncate x.significand x.exponent ≤ x.significand := by
      rw [truncate, if_neg hexponent, Nat.shiftRight_eq_div_pow]
      exact Nat.div_le_self _ _
    have hlt := x.significand_lt
    rw [towardZero_value]
    split <;> omega

end Number

/-- A word is determined by what it is congruent to. -/
theorem eq_ofInt_iff {w : BitVec 32} {i : ℤ} :
    w = BitVec.ofInt 32 i ↔ w.toInt ≡ i [ZMOD 2 ^ 32] := by
  rw [← BitVec.toInt_inj, BitVec.toInt_ofInt]
  constructor
  · intro h
    rw [h]
    exact Int.bmod_emod
  · intro h
    calc w.toInt = w.toInt.bmod (2 ^ 32) := w.toInt_bmod_cancel.symm
      _ = (w.toInt % (2 ^ 32 : ℕ)).bmod (2 ^ 32) := (Int.emod_bmod _ _).symm
      _ = (i % (2 ^ 32 : ℕ)).bmod (2 ^ 32) := congrArg (Int.bmod · _) h
      _ = i.bmod (2 ^ 32) := Int.emod_bmod _ _

/-! ## Arithmetic on numbers -/

/-- Operations on numbers that give the exact result whenever that is a number: cutting off the
fraction, the remainder with the sign of the dividend, and addition. Rounding is left open. -/
structure ExactArithmetic where
  trunc : Number → Number
  rem : Number → Number → Number
  add : Number → Number → Number
  trunc_denotes {x y : Number} {p : ℚ} : x.Denotes p → y.Denotes (towardZero p) →
    (trunc x).Denotes (towardZero p)
  rem_denotes {x y z : Number} {p q : ℚ} : x.Denotes p → y.Denotes q → q ≠ 0 →
    z.Denotes (p - q * towardZero (p / q)) → (rem x y).Denotes (p - q * towardZero (p / q))
  add_denotes {x y z : Number} {p q : ℚ} : x.Denotes p → y.Denotes q → z.Denotes (p + q) →
    (add x y).Denotes (p + q)

namespace Number

open Classical in
/-- The number equal to a rational, where there is one. -/
noncomputable def exactly (q : ℚ) : Number :=
  if h : ∃ x : Number, x.Denotes q then h.choose else ⟨0⟩

theorem Denotes.exactly {x : Number} {q : ℚ} (h : x.Denotes q) : (Number.exactly q).Denotes q := by
  have hex : ∃ x : Number, x.Denotes q := ⟨x, h⟩
  rw [Number.exactly, dif_pos hex]
  exact hex.choose_spec

/-- The word nearest to a number without its fraction, read without sign; zero for a NaN. -/
def saturated (x : Number) : BitVec 32 :=
  if x.IsFinite then BitVec.ofInt 32 (max 0 (min (towardZero x.value) (2 ^ 32 - 1)))
  else if x.isNegative ∨ x.mantissaField ≠ 0 then 0
  else BitVec.allOnes 32

end Number

namespace ExactArithmetic

noncomputable instance : Inhabited ExactArithmetic where
  default :=
    { trunc x := Number.exactly (towardZero x.value)
      rem x y := Number.exactly (x.value - y.value * towardZero (x.value / y.value))
      add x y := Number.exactly (x.value + y.value)
      trunc_denotes := by
        rintro x y p ⟨-, rfl⟩ hy
        exact hy.exactly
      rem_denotes := by
        rintro x y z p q ⟨-, rfl⟩ ⟨-, rfl⟩ - hz
        exact hz.exactly
      add_denotes := by
        rintro x y z p q ⟨-, rfl⟩ ⟨-, rfl⟩ hz
        exact hz.exactly }

variable (A : ExactArithmetic)

/-- The remainder that is not negative. -/
def euclideanRem (x y : Number) : Number :=
  if (A.rem x y).value < 0 then A.add (A.rem x y) y else A.rem x y

/-- A number wrapped to a word by arithmetic on numbers only. -/
def wrapped (x : Number) : BitVec 32 :=
  if x.IsFinite then (A.euclideanRem (A.trunc x) (.ofInt 4294967296)).saturated else 0

variable {A}

theorem euclideanRem_denotes {x : Number} {n : ℤ} (hx : x.Denotes n) :
    (A.euclideanRem x (.ofInt 4294967296)).Denotes (n % 4294967296 : ℤ) := by
  have hmodulus : (Number.ofInt 4294967296).Denotes (4294967296 : ℤ) :=
    Number.ofInt_denotes (by decide)
  have hlt := Int.tmod_lt_of_pos n (show (0 : ℤ) < 4294967296 by decide)
  have hgt := Int.lt_tmod_of_pos n (show (0 : ℤ) < 4294967296 by decide)
  have hemod : n.tmod 4294967296 = n % 4294967296 ∨
      n.tmod 4294967296 = n % 4294967296 - 4294967296 := by
    rw [Int.tmod_eq_emod]
    split <;> simp
  have hrem : (A.rem x (.ofInt 4294967296)).Denotes (n.tmod 4294967296 : ℤ) := by
    have hexact : (n : ℚ) - (4294967296 : ℤ) * towardZero ((n : ℚ) / (4294967296 : ℤ)) =
        (n.tmod 4294967296 : ℤ) := by
      rw [show ((n : ℚ) / (4294967296 : ℤ)) = n / (4294967296 : ℕ) by norm_num, towardZero_div,
        Int.tmod_def]
      push_cast
      rfl
    rw [← hexact]
    refine A.rem_denotes hx hmodulus (by norm_num) (z := .ofInt (n.tmod 4294967296)) ?_
    rw [hexact]
    exact Number.ofInt_denotes (by omega)
  unfold euclideanRem
  rw [hrem.2]
  split
  · rename_i hneg
    have hneg : n.tmod 4294967296 < 0 := by exact_mod_cast hneg
    have hsum : ((n.tmod 4294967296 : ℤ) : ℚ) + (4294967296 : ℤ) = (n % 4294967296 : ℤ) := by
      rw [← Int.cast_add, show n.tmod 4294967296 + 4294967296 = n % 4294967296 by omega]
    rw [← hsum]
    refine A.add_denotes hrem hmodulus (z := .ofInt (n % 4294967296)) ?_
    rw [hsum]
    exact Number.ofInt_denotes (by omega)
  · rename_i hneg
    have hnonneg : 0 ≤ n.tmod 4294967296 := by exact_mod_cast not_lt.mp hneg
    have hsame : n.tmod 4294967296 = n % 4294967296 := by omega
    rwa [hsame] at hrem

/-- Wrapping by arithmetic on numbers is wrapping by arithmetic on integers: no step of it rounds,
and the last one does not saturate. -/
theorem wrapped_eq_toInt32 (x : Number) : A.wrapped x = x.toInt32 := by
  unfold wrapped
  split
  · rename_i hx
    obtain ⟨y, hy⟩ := Number.exists_denotes_towardZero hx
    obtain ⟨hfinite, hvalue⟩ := A.euclideanRem_denotes (A.trunc_denotes ⟨hx, rfl⟩ hy)
    have hlow := Int.emod_nonneg (towardZero x.value) (show (4294967296 : ℤ) ≠ 0 by decide)
    have hhigh := Int.emod_lt_of_pos (towardZero x.value) (show (0 : ℤ) < 4294967296 by decide)
    have hclamp : max 0 (min (towardZero x.value % 4294967296) (2 ^ 32 - 1)) =
        towardZero x.value % 4294967296 := by omega
    rw [Number.toInt32_of_isFinite hx, Number.saturated, if_pos hfinite, hvalue,
      towardZero_intCast, hclamp, eq_ofInt_iff]
    calc (BitVec.ofInt 32 (towardZero x.value % 4294967296)).toInt
        ≡ towardZero x.value % 4294967296 [ZMOD 2 ^ 32] := eq_ofInt_iff.mp rfl
      _ ≡ towardZero x.value [ZMOD 2 ^ 32] := Int.mod_modEq _ _
  · rename_i hx
    exact (Number.toInt32_of_not_isFinite hx).symm

end ExactArithmetic

/-! ## The coercion -/

/-- Coming in, a number that is not finite becomes zero, and any other becomes the one word
congruent modulo `2 ^ 32` to its integer part; exact arithmetic on numbers arrives at the same word.
Going out, a word becomes the number equal to it, and so comes back as itself. -/
theorem integer_coercion_exact :
    (∀ x : Number, ¬x.IsFinite → x.toInt32 = 0) ∧
    (∀ x : Number, x.IsFinite → ∀ w : BitVec 32,
      w = x.toInt32 ↔ w.toInt ≡ towardZero x.value [ZMOD 2 ^ 32]) ∧
    (∀ (A : ExactArithmetic) (x : Number), A.wrapped x = x.toInt32) ∧
    ∀ v : BitVec 32, ∃ x, Number.ofValue (.i32 v) = .ok x ∧ x.Denotes v.toInt ∧
      x.toValue .i32 = .ok (.i32 v) := by
  refine ⟨fun x ↦ Number.toInt32_of_not_isFinite, ?_,
    fun A x ↦ A.wrapped_eq_toInt32 x, ?_⟩
  · intro x hx w
    rw [Number.toInt32_of_isFinite hx]
    exact eq_ofInt_iff
  · intro v
    have hlow := BitVec.le_two_mul_toInt (x := v)
    have hhigh := BitVec.two_mul_toInt_lt (x := v)
    have hdenotes : (Number.ofInt v.toInt).Denotes v.toInt := Number.ofInt_denotes (by omega)
    refine ⟨_, rfl, hdenotes, ?_⟩
    rw [Number.toValue, Number.toInt32_of_isFinite hdenotes.1, hdenotes.2, towardZero_intCast,
      BitVec.ofInt_toInt]

/-- Infinity becomes zero, and `-4294967297.5` becomes minus one. -/
theorem coercion_of_extremes :
    (⟨0x7ff0000000000000⟩ : Number).toInt32 = 0 ∧
    towardZero (⟨0xc1f0000000180000⟩ : Number).value = -4294967297 ∧
    (-1 : BitVec 32) = (⟨0xc1f0000000180000⟩ : Number).toInt32 := by
  have hpart : towardZero (⟨0xc1f0000000180000⟩ : Number).value = -4294967297 := by
    rw [Number.towardZero_value]
    decide +kernel
  refine ⟨integer_coercion_exact.1 _ (by decide +kernel), hpart, ?_⟩
  rw [integer_coercion_exact.2.1 _ (by decide +kernel), hpart]
  decide

end WasmEngine
