import Mathlib.Data.Int.ModEq
import WasmEngine.Operator
import WasmEngine.Proofs.Effects

/-!
# Integer operators on readings

A word of 32 bits can be read as a signed and as an unsigned number. What the operators do is said
here on these readings and on single bits, without any operation on words: results modulo `2 ^ 32`,
orders, a quotient that is rounded toward zero, floor division by powers of two, places that bits
move to, and numbers of bits. Each of these conditions fixes at most one word, and an operator gives
that word. Where there is none, it traps: a divisor is zero, or a quotient is `2 ^ 31`.
-/

namespace WasmEngine

/-! ## Conditions on a result -/

/-- The word is one if the condition holds and zero if it does not. -/
def Truth (r : BitVec 32) (p : Prop) : Prop := (p → r = 1) ∧ (¬p → r = 0)

/-- A quotient rounded toward zero and what remains: nothing, or a rest of the dividend's sign. -/
structure Truncates (a b q r : Int) : Prop where
  sum : a = b * q + r
  small : r.natAbs < b.natAbs
  sign : r = 0 ∨ r.sign = a.sign

/-- The first `n` of 32 bits are clear, and so many only. -/
structure ClearBits (bit : Nat → Bool) (n : Nat) : Prop where
  le : n ≤ 32
  clear : ∀ i < n, bit i = false
  next : n < 32 → bit n = true

def UnaryOp.Means (op : UnaryOp) (a r : BitVec 32) : Prop :=
  match op with
  | eqz => Truth r (a.toInt = 0)
  | clz => ClearBits a.getMsbD r.toNat
  | ctz => ClearBits a.getLsbD r.toNat
  | popcnt => r.toNat = (List.range 32).countP a.getLsbD

def BinaryOp.Means (op : BinaryOp) (a b r : BitVec 32) : Prop :=
  match op with
  | eq => Truth r (a.toInt = b.toInt)
  | ne => Truth r (a.toInt ≠ b.toInt)
  | ltS => Truth r (a.toInt < b.toInt)
  | ltU => Truth r (a.toNat < b.toNat)
  | gtS => Truth r (a.toInt > b.toInt)
  | gtU => Truth r (a.toNat > b.toNat)
  | leS => Truth r (a.toInt ≤ b.toInt)
  | leU => Truth r (a.toNat ≤ b.toNat)
  | geS => Truth r (a.toInt ≥ b.toInt)
  | geU => Truth r (a.toNat ≥ b.toNat)
  | add => r.toInt ≡ a.toInt + b.toInt [ZMOD 2 ^ 32]
  | sub => r.toInt ≡ a.toInt - b.toInt [ZMOD 2 ^ 32]
  | mul => r.toInt ≡ a.toInt * b.toInt [ZMOD 2 ^ 32]
  | divS => ∃ rest, Truncates a.toInt b.toInt r.toInt rest
  | divU => ∃ rest, a.toNat = b.toNat * r.toNat + rest ∧ rest < b.toNat
  | remS => ∃ quotient, Truncates a.toInt b.toInt quotient r.toInt
  | remU => ∃ quotient, a.toNat = b.toNat * quotient + r.toNat ∧ r.toNat < b.toNat
  | and => ∀ i < 32, r.getLsbD i = (a.getLsbD i && b.getLsbD i)
  | or => ∀ i < 32, r.getLsbD i = (a.getLsbD i || b.getLsbD i)
  | xor => ∀ i < 32, r.getLsbD i = (a.getLsbD i ^^ b.getLsbD i)
  | shl => r.toInt ≡ a.toInt * 2 ^ (b.toNat % 32) [ZMOD 2 ^ 32]
  | shrS => r.toInt = a.toInt.fdiv (2 ^ (b.toNat % 32))
  | shrU => r.toNat = a.toNat / 2 ^ (b.toNat % 32)
  | rotl => ∀ i < 32, r.getLsbD ((i + b.toNat % 32) % 32) = a.getLsbD i
  | rotr => ∀ i < 32, r.getLsbD i = a.getLsbD ((i + b.toNat % 32) % 32)

/-! ## Words that a condition fixes -/

section Words

variable {a b r x : BitVec 32}

/-- A comparison gives one or zero. -/
theorem ofBool32_eq_iff {c : Bool} {p : Prop} (h : c = true ↔ p) : ofBool32 c = r ↔ Truth r p := by
  rw [Truth, ← h]
  cases c with
  | true => exact ⟨fun hr ↦ ⟨fun _ ↦ hr.symm, fun hc ↦ absurd rfl hc⟩, fun hr ↦ (hr.1 rfl).symm⟩
  | false =>
    exact ⟨fun hr ↦ ⟨fun hc ↦ Bool.noConfusion hc, fun _ ↦ hr.symm⟩, fun hr ↦ (hr.2 nofun).symm⟩

/-- Signed readings that are congruent belong to one word. -/
theorem eq_iff_modEq {n : Int} (h : x.toInt ≡ n [ZMOD 2 ^ 32]) :
    x = r ↔ r.toInt ≡ n [ZMOD 2 ^ 32] := by
  constructor
  · rintro rfl
    exact h
  · intro hr
    have hmod : x.toInt % 2 ^ 32 = r.toInt % 2 ^ 32 := h.trans hr.symm
    have hx := x.toInt_lt
    have hx' := x.le_toInt
    have hr := r.toInt_lt
    have hr' := r.le_toInt
    exact BitVec.eq_of_toInt_eq (by omega)

theorem bmod_modEq (n : Int) : n.bmod (2 ^ 32) ≡ n [ZMOD 2 ^ 32] := Int.bmod_emod

theorem eq_iff_toNat {n : Nat} (h : x.toNat = n) : x = r ↔ r.toNat = n := by
  rw [← h, ← BitVec.toNat_inj, eq_comm]

theorem eq_iff_toInt {n : Int} (h : x.toInt = n) : x = r ↔ r.toInt = n := by
  rw [← h, ← BitVec.toInt_inj, eq_comm]

/-- Words are told apart by their bits. -/
theorem eq_iff_getLsbD {bit : Nat → Bool} (h : ∀ i < 32, x.getLsbD i = bit i) :
    x = r ↔ ∀ i < 32, r.getLsbD i = bit i := by
  constructor
  · rintro rfl
    exact h
  · intro hr
    exact BitVec.eq_of_getLsbD_eq fun i hi ↦ (h i hi).trans (hr i hi).symm

end Words

/-! ## Counts of bits -/

/-- Clear bits can be counted in one way only. -/
theorem ClearBits.unique {bit : Nat → Bool} {m n : Nat} (hm : ClearBits bit m)
    (hn : ClearBits bit n) : m = n := by
  have hle : ∀ {m n : Nat}, ClearBits bit m → ClearBits bit n → ¬m < n := by
    intro m n hm hn hlt
    have hset := hm.next (Nat.lt_of_lt_of_le hlt hn.le)
    rw [hn.clear m hlt] at hset
    cases hset
  exact Nat.le_antisymm (Nat.le_of_not_lt (hle hn hm)) (Nat.le_of_not_lt (hle hm hn))

theorem clearBits_ctz (a : BitVec 32) : ClearBits a.getLsbD a.ctz.toNat where
  le := by
    have hle : a.reverse.clz ≤ 32 := BitVec.clz_le
    exact BitVec.le_def.mp hle
  clear i hi := BitVec.getLsbD_false_of_lt_ctz hi
  next hlt := by
    have hne : a ≠ 0#32 := BitVec.ctz_lt_iff_ne_zero.mp (BitVec.lt_def.mpr hlt)
    exact BitVec.getLsbD_true_ctz_of_ne_zero hne

/-- The bits of a word in reverse order, from which the leading ones are counted. -/
theorem getLsbD_reverse_eq (a : BitVec 32) : a.reverse.getLsbD = a.getMsbD := by
  funext i
  exact BitVec.getLsbD_reverse

theorem clearBits_clz (a : BitVec 32) : ClearBits a.getMsbD a.clz.toNat := by
  rw [← getLsbD_reverse_eq, BitVec.clz_eq_reverse_ctz]
  exact clearBits_ctz a.reverse

/-- Bits that are set, counted from the lowest up to a place. -/
theorem cpopNatRec_eq_countP (a : BitVec 32) (n : Nat) :
    a.cpopNatRec n 0 = (List.range n).countP a.getLsbD := by
  induction n with
  | zero => rfl
  | succ n ih =>
    rw [BitVec.cpopNatRec_succ, BitVec.cpopNatRec_eq, ih, List.range_succ, List.countP_append]
    cases h : a.getLsbD n <;> simp [h]

/-- An operator on one word gives what it means, one case for each. -/
theorem UnaryOp.apply_eq_iff (op : UnaryOp) (a r : BitVec 32) : op.apply a = r ↔ op.Means a r := by
  cases op with
  | eqz => exact ofBool32_eq_iff (by rw [beq_iff_eq, ← BitVec.toInt_inj]; rfl)
  | clz =>
    refine ⟨fun h ↦ h ▸ clearBits_clz a, fun h ↦ ?_⟩
    exact BitVec.eq_of_toNat_eq ((clearBits_clz a).unique h)
  | ctz =>
    refine ⟨fun h ↦ h ▸ clearBits_ctz a, fun h ↦ ?_⟩
    exact BitVec.eq_of_toNat_eq ((clearBits_ctz a).unique h)
  | popcnt => exact eq_iff_toNat ((BitVec.toNat_cpop a).trans (cpopNatRec_eq_countP a 32))

/-! ## Division -/

/-- Quotient and remainder that truncate towards zero are determined by the dividend and the
divisor. -/
theorem truncates_iff {a b q r : Int} :
    Truncates a b q r ↔ b ≠ 0 ∧ a.tdiv b = q ∧ a.tmod b = r := by
  constructor
  · rintro ⟨hsum, hsmall, hsign⟩
    have hb : b ≠ 0 := by omega
    refine ⟨hb, ?_⟩
    -- The rest has the sign of the dividend, so its sign is known on either side of zero.
    obtain ha | ha := Int.le_total 0 a
    · have hr : 0 ≤ r := by
        obtain rfl | hsign := hsign
        · exact Int.le_refl 0
        · exact Int.sign_nonneg_iff.mp (hsign ▸ Int.sign_nonneg_iff.mpr ha)
      exact (Int.tdiv_tmod_unique ha hb).mpr ⟨by omega, hr, by omega⟩
    · have hr : r ≤ 0 := by
        obtain rfl | hsign := hsign
        · exact Int.le_refl 0
        · exact Int.sign_nonpos_iff.mp (hsign ▸ Int.sign_nonpos_iff.mpr ha)
      exact (Int.tdiv_tmod_unique' ha hb).mpr ⟨by omega, by omega, hr⟩
  · rintro ⟨hb, rfl, rfl⟩
    refine ⟨(Int.mul_tdiv_add_tmod a b).symm, ?_, ?_⟩
    · rw [Int.natAbs_tmod]
      exact Nat.mod_lt _ (Int.natAbs_pos.mpr hb)
    · rw [Int.sign_tmod]
      split
      · rename_i hdvd
        exact .inl (Int.tmod_eq_zero_of_dvd hdvd)
      · exact .inr rfl

/-- So are those of natural numbers. -/
theorem leaves_iff {a b q r : Nat} :
    a = b * q + r ∧ r < b ↔ 0 < b ∧ a / b = q ∧ a % b = r := by
  constructor
  · rintro ⟨hsum, hsmall⟩
    have hb : 0 < b := Nat.zero_lt_of_lt hsmall
    exact ⟨hb, (Nat.div_mod_unique hb).mpr ⟨by omega, hsmall⟩⟩
  · rintro ⟨hb, rfl, rfl⟩
    exact ⟨(Nat.div_add_mod a b).symm, Nat.mod_lt a hb⟩

section Division

variable {a b q r : BitVec 32}

theorem toInt_eq_zero_iff : b.toInt = 0 ↔ b = 0 := BitVec.toInt_inj (y := 0#32)

theorem toNat_eq_zero_iff : b.toNat = 0 ↔ b = 0 := BitVec.toNat_inj (y := 0#32)

theorem toInt_eq_intMin_iff : a.toInt = -2 ^ 31 ↔ a = BitVec.intMin 32 :=
  BitVec.toInt_inj (y := BitVec.intMin 32)

theorem toInt_eq_neg_one_iff : b.toInt = -1 ↔ b = -1 := BitVec.toInt_inj (y := -1)

/-- The one quotient that no word has for its reading. -/
theorem tdiv_ne_toInt (ha : a = BitVec.intMin 32) (hb : b = -1) (q : BitVec 32) :
    a.toInt.tdiv b.toInt ≠ q.toInt := by
  have htdiv : (BitVec.intMin 32).toInt.tdiv (-1 : BitVec 32).toInt = 2 ^ 31 := by decide
  have hlt := q.toInt_lt
  rw [ha, hb, htdiv]
  omega

/-- The one signed quotient that is no word is `2 ^ 31`, which no word denotes. -/
theorem divS_eq_ok_iff :
    BinaryOp.divS.apply a b = .ok q ↔ b.toInt ≠ 0 ∧ a.toInt.tdiv b.toInt = q.toInt := by
  rw [ne_eq, toInt_eq_zero_iff]
  simp only [BinaryOp.apply]
  split
  · rename_i hb
    exact iff_of_false nofun fun h ↦ h.1 hb
  · rename_i hb
    split
    · rename_i hoverflow
      exact iff_of_false nofun fun h ↦ tdiv_ne_toInt hoverflow.1 hoverflow.2 q h.2
    · rename_i hfits
      have hsdiv := BitVec.toInt_sdiv_of_ne_or_ne a b (Decidable.not_and_iff_not_or_not.mp hfits)
      rw [← hsdiv, BitVec.toInt_inj, Except.ok.injEq]
      exact (and_iff_right hb).symm

/-- The remainder always is a word, even where the quotient is not. -/
theorem remS_eq_ok_iff :
    BinaryOp.remS.apply a b = .ok r ↔ b.toInt ≠ 0 ∧ a.toInt.tmod b.toInt = r.toInt := by
  rw [ne_eq, toInt_eq_zero_iff, ← BitVec.toInt_srem, BitVec.toInt_inj]
  simp only [BinaryOp.apply]
  split <;> simp_all

theorem divU_eq_ok_iff :
    BinaryOp.divU.apply a b = .ok q ↔ 0 < b.toNat ∧ a.toNat / b.toNat = q.toNat := by
  rw [Nat.pos_iff_ne_zero, ne_eq, toNat_eq_zero_iff, ← BitVec.toNat_udiv, BitVec.toNat_inj]
  simp only [BinaryOp.apply]
  split <;> simp_all

theorem remU_eq_ok_iff :
    BinaryOp.remU.apply a b = .ok r ↔ 0 < b.toNat ∧ a.toNat % b.toNat = r.toNat := by
  rw [Nat.pos_iff_ne_zero, ne_eq, toNat_eq_zero_iff, ← BitVec.toNat_umod, BitVec.toNat_inj]
  simp only [BinaryOp.apply]
  split <;> simp_all

end Division

/-! ## Rotation -/

section Rotation

variable {a r : BitVec 32} {d : Nat}

/-- Rotation moves bits around a circle of 32 places. -/
theorem getLsbD_rotateRight_mod (hd : d < 32) {i : Nat} (hi : i < 32) :
    (a.rotateRight d).getLsbD i = a.getLsbD ((i + d) % 32) := by
  rw [BitVec.getLsbD_rotateRight, Nat.mod_eq_of_lt hd]
  by_cases hlow : i < 32 - d
  · rw [decide_eq_true hlow, Nat.mod_eq_of_lt (by omega), Nat.add_comm d i]
    rfl
  · have hwrap : (i + d) % 32 = i - (32 - d) := by omega
    rw [decide_eq_false hlow, decide_eq_true hi, hwrap]
    rfl

theorem getLsbD_rotateLeft_mod (hd : d < 32) {i : Nat} (hi : i < 32) :
    (a.rotateLeft d).getLsbD ((i + d) % 32) = a.getLsbD i := by
  rw [BitVec.getLsbD_rotateLeft, Nat.mod_eq_of_lt hd]
  by_cases hhigh : i < 32 - d
  · have hplace : (i + d) % 32 = i + d := Nat.mod_eq_of_lt (by omega)
    rw [hplace, decide_eq_false (by omega), decide_eq_true (by omega), Nat.add_sub_cancel]
    rfl
  · have hplace : (i + d) % 32 = i + d - 32 := by omega
    have hback : 32 - d + (i + d - 32) = i := by omega
    rw [hplace, decide_eq_true (by omega), hback]
    rfl

/-- Where the bits of a rotated word come from. -/
theorem rotateLeft_eq_iff (hd : d < 32) :
    a.rotateLeft d = r ↔ ∀ i < 32, r.getLsbD ((i + d) % 32) = a.getLsbD i := by
  constructor
  · rintro rfl i hi
    exact getLsbD_rotateLeft_mod hd hi
  · intro hr
    apply BitVec.eq_of_getLsbD_eq
    intro j hj
    -- Every place is the one that some bit moves to.
    obtain ⟨i, hi, rfl⟩ : ∃ i < 32, (i + d) % 32 = j := ⟨(j + (32 - d)) % 32, by omega, by omega⟩
    rw [getLsbD_rotateLeft_mod hd hi, hr i hi]

end Rotation

/-! ## All operators -/

theorem distance_lt (b : BitVec 32) : b.toNat % 32 < 32 := Nat.mod_lt _ (by decide)

theorem toNat_modEq_toInt (a : BitVec 32) : (a.toNat : Int) ≡ a.toInt [ZMOD 2 ^ 32] := by
  rw [BitVec.toInt_eq_toNat_bmod]
  exact (bmod_modEq _).symm

/-- A shift to the left multiplies, and drops what does not fit. -/
theorem shl_modEq (a : BitVec 32) (d : Nat) : (a <<< d).toInt ≡ a.toInt * 2 ^ d [ZMOD 2 ^ 32] := by
  have hshift : (a <<< d).toInt = ((a.toNat : Int) * 2 ^ d).bmod (2 ^ 32) := by
    rw [BitVec.toInt_shiftLeft, Nat.shiftLeft_eq]
    push_cast
    rfl
  rw [hshift]
  exact (bmod_modEq _).trans ((toNat_modEq_toInt a).mul_right _)

/-- An arithmetic shift to the right divides and rounds down. -/
theorem toInt_sshiftRight_eq_fdiv (a : BitVec 32) (d : Nat) :
    (a.sshiftRight d).toInt = a.toInt.fdiv (2 ^ d) := by
  have hpow : (0 : Int) ≤ 2 ^ d := Int.pow_nonneg (by decide)
  rw [BitVec.toInt_sshiftRight, Int.shiftRight_eq_div_pow, Int.fdiv_eq_ediv_of_nonneg _ hpow]
  push_cast
  rfl

/-- An operator on two words gives what it means, one case for each. -/
theorem BinaryOp.apply_eq_ok_iff (op : BinaryOp) (a b r : BitVec 32) :
    op.apply a b = .ok r ↔ op.Means a b r := by
  have hok {x : BitVec 32} {p : Prop} (h : x = r ↔ p) :
      (.ok x : Except Trap (BitVec 32)) = .ok r ↔ p := Except.ok.injEq x r ▸ h
  cases op with
  | eq => exact hok (ofBool32_eq_iff (by rw [beq_iff_eq, BitVec.toInt_inj]))
  | ne => exact hok (ofBool32_eq_iff (by rw [bne_iff_ne, ne_eq, ne_eq, BitVec.toInt_inj]))
  | ltS => exact hok (ofBool32_eq_iff BitVec.slt_iff_toInt_lt)
  | ltU => exact hok (ofBool32_eq_iff BitVec.ult_iff_toNat_lt)
  | gtS => exact hok (ofBool32_eq_iff BitVec.slt_iff_toInt_lt)
  | gtU => exact hok (ofBool32_eq_iff BitVec.ult_iff_toNat_lt)
  | leS => exact hok (ofBool32_eq_iff BitVec.sle_iff_toInt_le)
  | leU => exact hok (ofBool32_eq_iff BitVec.ule_iff_toNat_le)
  | geS => exact hok (ofBool32_eq_iff BitVec.sle_iff_toInt_le)
  | geU => exact hok (ofBool32_eq_iff BitVec.ule_iff_toNat_le)
  | add => exact hok (eq_iff_modEq (BitVec.toInt_add a b ▸ bmod_modEq _))
  | sub => exact hok (eq_iff_modEq (BitVec.toInt_sub (x := a) (y := b) ▸ bmod_modEq _))
  | mul => exact hok (eq_iff_modEq (BitVec.toInt_mul a b ▸ bmod_modEq _))
  | divS =>
    simp only [divS_eq_ok_iff, Means, truncates_iff]
    exact ⟨fun h ↦ ⟨_, h.1, h.2, rfl⟩, fun ⟨_, hb, hq, _⟩ ↦ ⟨hb, hq⟩⟩
  | remS =>
    simp only [remS_eq_ok_iff, Means, truncates_iff]
    exact ⟨fun h ↦ ⟨_, h.1, rfl, h.2⟩, fun ⟨_, hb, _, hr⟩ ↦ ⟨hb, hr⟩⟩
  | divU =>
    simp only [divU_eq_ok_iff, Means, leaves_iff]
    exact ⟨fun h ↦ ⟨_, h.1, h.2, rfl⟩, fun ⟨_, hb, hq, _⟩ ↦ ⟨hb, hq⟩⟩
  | remU =>
    simp only [remU_eq_ok_iff, Means, leaves_iff]
    exact ⟨fun h ↦ ⟨_, h.1, rfl, h.2⟩, fun ⟨_, hb, _, hr⟩ ↦ ⟨hb, hr⟩⟩
  | and => exact hok (eq_iff_getLsbD fun i _ ↦ BitVec.getLsbD_and)
  | or => exact hok (eq_iff_getLsbD fun i _ ↦ BitVec.getLsbD_or)
  | xor => exact hok (eq_iff_getLsbD fun i _ ↦ BitVec.getLsbD_xor)
  | shl => exact hok (eq_iff_modEq (shl_modEq a _))
  | shrS => exact hok (eq_iff_toInt (toInt_sshiftRight_eq_fdiv a _))
  | shrU => exact hok (eq_iff_toNat (by rw [BitVec.toNat_ushiftRight, Nat.shiftRight_eq_div_pow]))
  | rotl => exact hok (rotateLeft_eq_iff (distance_lt b))
  | rotr => exact hok (eq_iff_getLsbD fun _ hi ↦ getLsbD_rotateRight_mod (distance_lt b) hi)

/-- Only divisions trap: by zero, and the signed one if its quotient is no word. -/
theorem BinaryOp.apply_eq_error_iff (op : BinaryOp) (a b : BitVec 32) (t : Trap) :
    op.apply a b = .error t ↔
      (t = .divideByZero ∧ op ∈ [divS, divU, remS, remU] ∧ b.toInt = 0) ∨
        (t = .integerOverflow ∧ op = divS ∧ a.toInt = -2 ^ 31 ∧ b.toInt = -1) := by
  rw [toInt_eq_zero_iff, toInt_eq_intMin_iff, toInt_eq_neg_one_iff]
  cases op with
  | divS =>
    simp only [apply]
    split
    · rename_i hb
      subst hb
      simp [eq_comm]
    · rename_i hb
      split
      · rename_i hoverflow
        simp [hoverflow, eq_comm]
      · rename_i hfits
        refine iff_of_false nofun ?_
        rintro (⟨-, -, hzero⟩ | ⟨-, -, hoverflow⟩)
        · exact hb hzero
        · exact hfits hoverflow
  | divU | remS | remU =>
    simp only [apply]
    split
    · rename_i hb
      simp [hb, eq_comm]
    · rename_i hb
      refine iff_of_false nofun ?_
      rintro (⟨-, -, hzero⟩ | ⟨-, hop, -⟩)
      · exact hb hzero
      · cases hop
  | _ => simp [apply]

theorem BinaryOp.eval_i32 (op : BinaryOp) (a b : BitVec 32) :
    op.eval (.i32 a) (.i32 b) = (op.apply a b).map .i32 := by
  have heval : op.eval (.i32 a) (.i32 b) = op.apply a b >>= fun r ↦ pure (Value.i32 r) := rfl
  rw [heval]
  cases op.apply a b <;> rfl

theorem BinaryOp.eval_eq_ok_iff (op : BinaryOp) (a b r : BitVec 32) :
    op.eval (.i32 a) (.i32 b) = .ok (.i32 r) ↔ op.Means a b r := by
  rw [eval_i32, ← apply_eq_ok_iff]
  cases op.apply a b <;> simp [Except.map]

/-- On two words, every operator gives the one word that has the required readings or bits, and
gives none where there is none. That is so for a zero divisor, and for the signed quotient `2 ^ 31`.
The two results of a division belong together, and the two rotations undo each other. -/
structure ExactOn (a b : BitVec 32) : Prop where
  unary : ∀ op : UnaryOp, ∃ r, op.eval (.i32 a) = .ok (.i32 r) ∧ ∀ r', op.Means a r' ↔ r' = r
  binary : ∀ (op : BinaryOp) (r : BitVec 32),
    op.eval (.i32 a) (.i32 b) = .ok (.i32 r) ↔ op.Means a b r
  trap : ∀ (op : BinaryOp) (t : Trap), op.eval (.i32 a) (.i32 b) = .error t ↔
    (t = .divideByZero ∧ op ∈ [.divS, .divU, .remS, .remU] ∧ b.toInt = 0) ∨
      (t = .integerOverflow ∧ op = .divS ∧ a.toInt = -2 ^ 31 ∧ b.toInt = -1)
  signed : ∀ q r : BitVec 32, Truncates a.toInt b.toInt q.toInt r.toInt ↔
    BinaryOp.divS.eval (.i32 a) (.i32 b) = .ok (.i32 q) ∧
      BinaryOp.remS.eval (.i32 a) (.i32 b) = .ok (.i32 r)
  unsigned : ∀ q r : BitVec 32, a.toNat = b.toNat * q.toNat + r.toNat ∧ r.toNat < b.toNat ↔
    BinaryOp.divU.eval (.i32 a) (.i32 b) = .ok (.i32 q) ∧
      BinaryOp.remU.eval (.i32 a) (.i32 b) = .ok (.i32 r)
  rotation : ∀ r : BitVec 32, BinaryOp.rotl.eval (.i32 a) (.i32 b) = .ok (.i32 r) ↔
    BinaryOp.rotr.eval (.i32 r) (.i32 b) = .ok (.i32 a)

theorem exactOn (a b : BitVec 32) : ExactOn a b where
  unary op := ⟨op.apply a, rfl, fun r ↦ by rw [← op.apply_eq_iff, eq_comm]⟩
  binary op r := op.eval_eq_ok_iff a b r
  trap op t := by
    rw [← op.apply_eq_error_iff, op.eval_i32]
    exact except_map_eq_error
  signed q r := by
    simp only [BinaryOp.eval_eq_ok_iff, ← BinaryOp.apply_eq_ok_iff, divS_eq_ok_iff, remS_eq_ok_iff,
      truncates_iff]
    tauto
  unsigned q r := by
    simp only [BinaryOp.eval_eq_ok_iff, ← BinaryOp.apply_eq_ok_iff, divU_eq_ok_iff, remU_eq_ok_iff,
      leaves_iff]
    tauto
  rotation r := by
    simp only [BinaryOp.eval_eq_ok_iff, BinaryOp.Means]
    exact forall₂_congr fun i _ ↦ eq_comm

/-- The operators are exact on all words. In zero all 32 bits count as leading and as trailing, and
the least word leaves no remainder by minus one, although it has no quotient. -/
theorem operators_exact :
    (∀ a b : BitVec 32, ExactOn a b) ∧
    UnaryOp.clz.eval (.i32 0) = .ok (.i32 32) ∧ UnaryOp.ctz.eval (.i32 0) = .ok (.i32 32) ∧
    BinaryOp.remS.eval (.i32 (.intMin 32)) (.i32 (-1)) = .ok (.i32 0) :=
  ⟨exactOn, by decide +kernel, by decide +kernel, by decide +kernel⟩

end WasmEngine
