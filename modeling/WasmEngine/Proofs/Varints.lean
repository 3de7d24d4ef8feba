import Mathlib.Data.Nat.Digits.Lemmas
import WasmEngine.Proofs.Grammar

/-!
# Integers of variable length

What the readers of 32-bit integers accept, in terms of the number that the bytes stand for. The
payloads of `k` bytes are `7 * k` bits, the lowest first. An unsigned reader takes them as a natural
number, a signed one as a number in two's complement. Both accept just the numbers that fit 32 bits,
in one to five bytes of which all but the last say that another follows. Whatever else is there, the
input ends too early or the integer is malformed, and no more than five bytes are read to find out.

The readers never compare a number with a bound. They look at the unused bits of a fifth byte, and
what is shown here is that this comes to the same.

A decoder need not have numbers at all. It can collect the payloads in a word of 32 bits, each of
them shifted to its place, and test single bits of a byte. `unsignedWord_eq` and `signedWord_eq` say
that such a loop reads the same bytes, fails alike and ends with the word of the same number.
-/

namespace WasmEngine.Reader

/-- The first `k` bytes are those of one integer: each but the last says that another follows. -/
def Delimited (k : Nat) (bs : List UInt8) : Prop :=
  ∃ init last rest, bs = init ++ last :: rest ∧ init.length + 1 = k ∧
    (∀ b ∈ init, continues b = true) ∧ continues last = false

/-- The input ends before the integer does, and before it is too long. -/
def Unfinished (bs : List UInt8) : Prop := bs.length < 5 ∧ ∀ b ∈ bs, continues b = true

def payload (bs : List UInt8) : Nat := Nat.ofDigits 128 (bs.map group)

/-- The payloads of the bytes as one number in two's complement. -/
def signedPayload (bs : List UInt8) : Int := (BitVec.ofNat (7 * bs.length) (payload bs)).toInt

/-- The first `k` bytes are an integer of at most five bytes with the value `v`, which fits. -/
def Accepts {α : Type} (value : List UInt8 → α) (Fits : α → Prop) (bs : List UInt8) (k : Nat)
    (v : α) : Prop :=
  1 ≤ k ∧ k ≤ 5 ∧ Delimited k bs ∧ value (bs.take k) = v ∧ Fits v

/-- The reader takes the integer at the front of its input, whatever follows it, and fails if there
is none. -/
structure Exact {α : Type} (r : Reader α) (value : List UInt8 → α) (Fits : α → Prop)
    (fault : Fault) : Prop where
  ok : ∀ c v c', r.run c = .ok v c' ↔ ∃ k, Accepts value Fits c.rest k v ∧ c' = c.advance k
  unfinished : ∀ c pos c', r.run c = .error (.located pos .unexpectedEnd) c' ↔
    Unfinished c.rest ∧ pos = c.offset + c.remaining ∧ c' = c.advance c.remaining
  malformed : ∀ c, (¬∃ k v, Accepts value Fits c.rest k v) → ¬Unfinished c.rest →
    r.run c = .error (.located c.offset fault) (c.advance 5)
  bounded : ∀ c, ∃ k ≤ 5, (∃ v, r.run c = .ok v (c.advance k)) ∨
    ∃ e, r.run c = .error e (c.advance k)

/-- The number `n` in `k` bytes, of which all but the last say that another follows. -/
def padded : Nat → Nat → List UInt8
  | 0, _ => []
  | 1, n => [UInt8.ofNat (n % 128)]
  | k + 2, n => UInt8.ofNat (n % 128 + 128) :: padded (k + 1) (n / 128)

/-! ## Payloads -/

section Payload

variable {init : List UInt8} {last : UInt8}

theorem group_lt (b : UInt8) : group b < 128 := Nat.mod_lt _ (by decide)

theorem payload_lt (bs : List UInt8) : payload bs < 128 ^ bs.length := by
  have hdigits : ∀ d ∈ bs.map group, d < 128 := by
    intro d hd
    obtain ⟨b, -, rfl⟩ := List.mem_map.mp hd
    exact group_lt b
  simpa [payload] using Nat.ofDigits_lt_base_pow_length (by decide) hdigits

theorem payload_concat (init : List UInt8) (last : UInt8) :
    payload (init ++ [last]) = payload init + 128 ^ init.length * group last := by
  simp [payload, Nat.ofDigits_append]

/-- The digits of a number in a byte string, the last of them counted as `top`. -/
theorem base128_eq (init : List UInt8) (top : Int) :
    Grammar.base128 init top = payload init + 128 ^ init.length * top := by
  induction init with
  | nil => simp [Grammar.base128, payload]
  | cons b init ih =>
    rw [Grammar.base128, ih]
    simp only [payload, List.map_cons, Nat.ofDigits_cons, List.length_cons, pow_succ]
    push_cast
    ring

/-- Two's complement: the highest bit of the last payload is the sign. -/
theorem signedPayload_concat (init : List UInt8) (last : UInt8) :
    signedPayload (init ++ [last]) = payload init + 128 ^ init.length * signedGroup last := by
  have hinit := payload_lt init
  have hgroup := group_lt last
  have hpow : 2 ^ (7 * (init ++ [last]).length) = 128 ^ init.length * 128 := by
    rw [pow_mul, List.length_append, List.length_singleton, pow_succ]
    norm_num
  have hlt : payload (init ++ [last]) < 2 ^ (7 * (init ++ [last]).length) := by
    rw [hpow, payload_concat]
    nlinarith
  rw [signedPayload, BitVec.toInt_eq_toNat_cond, BitVec.toNat_ofNat, Nat.mod_eq_of_lt hlt, hpow,
    payload_concat]
  unfold signedGroup
  by_cases hsign : 64 ≤ group last
  · rw [if_neg (by nlinarith), if_pos hsign]
    push_cast
    ring
  · rw [if_pos (by nlinarith), if_neg hsign]
    push_cast
    ring

/-- Four bits of a fifth byte are used: with the others clear, the number is below `2 ^ 32`. -/
theorem payload_fits_iff (hlast : continues last = false) :
    init.length < 4 ∨ (init.length = 4 ∧ last.toNat < 16) ↔
      init.length ≤ 4 ∧ payload (init ++ [last]) < 2 ^ 32 := by
  have hinit := payload_lt init
  have hgroup := group_eq_toNat hlast
  have hlt := continues_eq_false.mp hlast
  rw [payload_concat, hgroup]
  generalize init.length = n at *
  by_cases hn : n ≤ 4
  · interval_cases n <;> omega
  · omega

/-- Where the other bits of a fifth byte repeat the sign, the number has 32 bits. -/
theorem signedPayload_fits_iff (hlast : continues last = false) :
    init.length < 4 ∨ (init.length = 4 ∧ (last.toNat < 8 ∨ 120 ≤ last.toNat)) ↔
      init.length ≤ 4 ∧ -2 ^ 31 ≤ signedPayload (init ++ [last]) ∧
        signedPayload (init ++ [last]) < 2 ^ 31 := by
  have hinit := payload_lt init
  have hgroup := group_eq_toNat hlast
  have hlt := continues_eq_false.mp hlast
  rw [signedPayload_concat]
  unfold signedGroup
  rw [hgroup]
  generalize init.length = n at *
  by_cases hn : n ≤ 4
  · interval_cases n <;> split <;> omega
  · omega

end Payload

/-! ## Endings -/

section Endings

variable {α : Type} {value : List UInt8 → α} {Fits : α → Prop} {fault : Fault} {r : Reader α}

theorem Delimited.not_unfinished {k : Nat} {bs : List UInt8} (h : Delimited k bs) :
    ¬Unfinished bs := by
  obtain ⟨init, last, rest, rfl, -, -, hlast⟩ := h
  rintro ⟨-, hall⟩
  have := hall last (by simp)
  simp [hlast] at this

theorem run_byte_bind_nil {β : Type} (f : UInt8 → Reader β) (pos : Nat) :
    (byte >>= f).run ⟨pos, []⟩ = .error (.located pos .unexpectedEnd) ⟨pos, []⟩ := rfl

theorem run_byte_bind_cons {β : Type} (f : UInt8 → Reader β) (pos : Nat) (b : UInt8)
    (bs : List UInt8) : (byte >>= f).run ⟨pos, b :: bs⟩ = (f b).run ⟨pos + 1, bs⟩ := rfl

theorem advance_succ (pos : Nat) (b : UInt8) (bs : List UInt8) (k : Nat) :
    (⟨pos + 1, bs⟩ : Cursor).advance k = (⟨pos, b :: bs⟩ : Cursor).advance (k + 1) := by
  simp only [Cursor.advance, List.drop_succ_cons, Cursor.mk.injEq, and_true]
  omega

/-- A reader that takes one byte after the other, as long as they say that another follows, and
stops after `n + 1` of them. -/
theorem tail_cases {start : Nat} (tail : Nat → Reader α) {legal : UInt8 → Prop}
    [DecidablePred legal] {final single : UInt8 → α} {join : UInt8 → α → α}
    (hzero : tail 0 = byte >>= fun b ↦
      if legal b then pure (final b) else failAt start fault)
    (hsucc : ∀ n, tail (n + 1) = byte >>= fun b ↦
      if continues b then tail n >>= fun a ↦ pure (join b a) else pure (single b))
    (n : Nat) (c : Cursor) :
    (c.remaining ≤ n ∧ (∀ b ∈ c.rest, continues b = true) ∧
      (tail n).run c = .error (.located (c.offset + c.remaining) .unexpectedEnd)
        (c.advance c.remaining)) ∨
    (∃ v k, k ≤ n + 1 ∧ (tail n).run c = .ok v (c.advance k)) ∨
    (n < c.remaining ∧ (tail n).run c = .error (.located start fault) (c.advance (n + 1))) := by
  obtain ⟨pos, rest⟩ := c
  induction n generalizing pos rest with
  | zero =>
    rw [hzero]
    cases rest with
    | nil =>
      rw [run_byte_bind_nil]
      exact .inl ⟨Nat.le_refl 0, by simp, rfl⟩
    | cons b bs =>
      rw [run_byte_bind_cons, run_ite]
      by_cases hlegal : legal b
      · rw [if_pos hlegal]
        exact .inr (.inl ⟨final b, 1, Nat.le_refl 1, rfl⟩)
      · rw [if_neg hlegal]
        exact .inr (.inr ⟨Nat.succ_pos _, rfl⟩)
  | succ n ih =>
    rw [hsucc]
    cases rest with
    | nil =>
      rw [run_byte_bind_nil]
      exact .inl ⟨Nat.zero_le _, by simp, rfl⟩
    | cons b bs =>
      rw [run_byte_bind_cons, run_ite]
      by_cases hb : continues b
      · rw [if_pos hb, EStateM.run_bind]
        obtain ⟨hle, hall, hrun⟩ | ⟨v, k, hk, hrun⟩ | ⟨hlt, hrun⟩ := ih (pos + 1) bs
        · rw [hrun]
          refine .inl ⟨Nat.succ_le_succ hle, List.forall_mem_cons.mpr ⟨hb, hall⟩, ?_⟩
          rw [advance_succ pos b]
          simp only [Cursor.remaining, List.length_cons, Nat.add_assoc, Nat.add_comm 1]
        · rw [hrun, advance_succ pos b]
          exact .inr (.inl ⟨join b v, k + 1, Nat.succ_le_succ hk, rfl⟩)
        · rw [hrun, advance_succ pos b]
          exact .inr (.inr ⟨Nat.succ_lt_succ hlt, rfl⟩)
      · rw [if_neg hb]
        exact .inr (.inl ⟨single b, 1, Nat.succ_le_succ (Nat.zero_le _), rfl⟩)

/-- What the bytes of an integer stand for, if its reader is exact for a grammar of them. -/
theorem accepts_iff {G : Grammar α} (hr : Reads r G)
    (hG : ∀ v bs, G v bs ↔ ∃ init last, bs = init ++ [last] ∧
      (∀ b ∈ init, continues b = true) ∧ continues last = false ∧ init.length ≤ 4 ∧
      value bs = v ∧ Fits v) (c : Cursor) (v : α) (c' : Cursor) :
    r.run c = .ok v c' ↔ ∃ k, Accepts value Fits c.rest k v ∧ c' = c.advance k := by
  rw [hr c v c']
  constructor
  · rintro ⟨bs, hspelled, hspans⟩
    obtain ⟨init, last, rfl, hinit, hlast, hlength, hv, hfits⟩ := (hG v bs).mp hspelled
    have htake : c.rest.take (init.length + 1) = init ++ [last] := by
      rw [hspans.1, List.take_left' (by simp)]
    refine ⟨init.length + 1, ⟨by omega, by omega, ?_, htake ▸ hv, hfits⟩, ?_⟩
    · exact ⟨init, last, c'.rest, by simp [hspans.1], rfl, hinit, hlast⟩
    · simpa using hspans.eq_advance
  · rintro ⟨k, ⟨-, hk, ⟨init, last, rest, hrest, rfl, hinit, hlast⟩, hv, hfits⟩, rfl⟩
    have htake : c.rest.take (init.length + 1) = init ++ [last] := by
      rw [hrest, List.append_cons, List.take_left' (by simp)]
    refine ⟨init ++ [last], (hG v _).mpr ⟨init, last, rfl, hinit, hlast, by omega, htake ▸ hv,
      hfits⟩, Cursor.spans_iff.mpr ⟨⟨rest, by simp [hrest]⟩, by simp⟩⟩

/-- The two halves of exactness: what is accepted, and how the reader ends otherwise. -/
theorem exact_of_cases (hfault : fault ≠ .unexpectedEnd)
    (hok : ∀ c v c', r.run c = .ok v c' ↔ ∃ k, Accepts value Fits c.rest k v ∧ c' = c.advance k)
    (hcases : ∀ c : Cursor,
      (c.remaining ≤ 4 ∧ (∀ b ∈ c.rest, continues b = true) ∧
        r.run c = .error (.located (c.offset + c.remaining) .unexpectedEnd)
          (c.advance c.remaining)) ∨
      (∃ v k, k ≤ 5 ∧ r.run c = .ok v (c.advance k)) ∨
      (4 < c.remaining ∧ r.run c = .error (.located c.offset fault) (c.advance 5))) :
    Exact r value Fits fault where
  ok := hok
  unfinished c pos c' := by
    obtain ⟨hle, hall, hrun⟩ | ⟨v, k, -, hrun⟩ | ⟨hlt, hrun⟩ := hcases c
    · have hunfinished : Unfinished c.rest := ⟨Nat.lt_succ_of_le hle, hall⟩
      simp [hrun, hunfinished, eq_comm]
    · obtain ⟨_, ⟨-, -, hdelimited, -⟩, -⟩ := (hok c v _).mp hrun
      simp [hrun, hdelimited.not_unfinished]
    · have hlong : ¬Unfinished c.rest := fun h ↦ Nat.not_lt_of_le hlt h.1
      simp [hrun, hlong, hfault]
  malformed c hnone hfinished := by
    obtain ⟨hle, hall, -⟩ | ⟨v, k, -, hrun⟩ | ⟨-, hrun⟩ := hcases c
    · exact absurd ⟨Nat.lt_succ_of_le hle, hall⟩ hfinished
    · obtain ⟨k, haccepts, -⟩ := (hok c v _).mp hrun
      exact absurd ⟨k, v, haccepts⟩ hnone
    · exact hrun
  bounded c := by
    obtain ⟨hle, -, hrun⟩ | ⟨v, k, hk, hrun⟩ | ⟨-, hrun⟩ := hcases c
    · exact ⟨c.remaining, by omega, .inr ⟨_, hrun⟩⟩
    · exact ⟨k, hk, .inl ⟨v, hrun⟩⟩
    · exact ⟨5, Nat.le_refl 5, .inr ⟨_, hrun⟩⟩

end Endings

/-! ## The two readers -/

theorem varuint32_exact : Exact varuint32 payload (· < 2 ^ 32) (.badUnsigned 32) := by
  refine exact_of_cases nofun (accepts_iff varuint32_reads fun v bs ↦ ?_) fun c ↦
    tail_cases (unsignedTail c.offset) rfl (fun _ ↦ rfl) 4 c
  constructor
  · rintro ⟨init, last, rfl, hinit, hlast, hlegal, hv⟩
    obtain ⟨hlength, hfits⟩ := (payload_fits_iff hlast).mp hlegal
    have hvalue : payload (init ++ [last]) = v := by
      rw [payload_concat, group_eq_toNat hlast]
      simp only [base128_eq] at hv
      exact_mod_cast hv.symm
    exact ⟨init, last, rfl, hinit, hlast, hlength, hvalue, hvalue ▸ hfits⟩
  · rintro ⟨init, last, rfl, hinit, hlast, hlength, rfl, hfits⟩
    refine ⟨init, last, rfl, hinit, hlast, (payload_fits_iff hlast).mpr ⟨hlength, hfits⟩, ?_⟩
    rw [base128_eq, payload_concat, group_eq_toNat hlast]
    push_cast
    rfl

theorem varint32_exact :
    Exact varint32 signedPayload (fun i ↦ -2 ^ 31 ≤ i ∧ i < 2 ^ 31) (.badSigned 32) := by
  refine exact_of_cases nofun (accepts_iff varint32_reads fun v bs ↦ ?_) fun c ↦
    tail_cases (signedTail c.offset) rfl (fun _ ↦ rfl) 4 c
  constructor
  · rintro ⟨init, last, rfl, hinit, hlast, hlegal, rfl⟩
    obtain ⟨hlength, hfits⟩ := (signedPayload_fits_iff hlast).mp hlegal
    rw [base128_eq, ← signedPayload_concat]
    exact ⟨init, last, rfl, hinit, hlast, hlength, rfl, hfits⟩
  · rintro ⟨init, last, rfl, hinit, hlast, hlength, rfl, hfits⟩
    refine ⟨init, last, rfl, hinit, hlast, (signedPayload_fits_iff hlast).mpr ⟨hlength, hfits⟩, ?_⟩
    rw [base128_eq, signedPayload_concat]

/-! ## Words of 32 bits -/

def payloadWord (b : UInt8) : BitVec 32 := (b &&& 0x7f).toBitVec.setWidth 32

/-- Read an integer into a word, in at most `n` rounds. The payload of each byte is shifted to its
place. A byte that is shifted by 28 is the fifth and has to be `legal`, and the last byte may have
bits above the payloads to `finish`. -/
def wordLoop (start : Nat) (fault : Fault) (legal : UInt8 → Bool)
    (finish : UInt8 → Nat → BitVec 32 → BitVec 32) : Nat → BitVec 32 → Nat → Reader (BitVec 32)
  | 0, _, _ => endOfInput
  | n + 1, word, shift => do
    let b ← byte
    if shift = 28 ∧ legal b = false then failAt start fault
    let word := word ||| payloadWord b <<< shift
    if b &&& 0x80 = 0 then return finish b (shift + 7) word
    else wordLoop start fault legal finish n word (shift + 7)

/-- The unused bits of a fifth byte repeat its sign bit, and no byte follows. -/
def signExtends (b : UInt8) : Bool :=
  b &&& 0x80 = 0 && ((b &&& 0x08 = 0 && b &&& 0x70 = 0) || (b &&& 0x08 ≠ 0 && b &&& 0x70 = 0x70))

/-- Repeat the sign of the last byte in all bits from `shift` on. -/
def fillSign (b : UInt8) (shift : Nat) (word : BitVec 32) : BitVec 32 :=
  if shift < 32 ∧ b &&& 0x40 ≠ 0 then word ||| BitVec.allOnes 32 <<< shift else word

def unsignedWord (n : Nat) : Reader (BitVec 32) := do
  wordLoop (← offset) (.badUnsigned 32) (fun b ↦ b &&& 0xf0 = 0) (fun _ _ word ↦ word) n 0 0

def signedWord (n : Nat) : Reader (BitVec 32) := do
  wordLoop (← offset) (.badSigned 32) signExtends fillSign n 0 0

/-! ### Bits of a byte -/

theorem forall_byte {p : UInt8 → Prop} (h : ∀ i : Fin 256, p (UInt8.ofFin i)) (b : UInt8) :
    p b := by
  simpa using h b.toFin

theorem payloadWord_eq : ∀ b, payloadWord b = BitVec.ofNat 32 (group b) :=
  forall_byte (by decide +kernel)

theorem and_high_eq_zero : ∀ b : UInt8, b &&& 0x80 = 0 ↔ continues b = false :=
  forall_byte (by decide +kernel)

theorem and_unused_eq_zero : ∀ b : UInt8, b &&& 0xf0 = 0 ↔ b.toNat < 16 :=
  forall_byte (by decide +kernel)

theorem signExtends_iff :
    ∀ b, signExtends b = true ↔ b.toNat < 8 ∨ (120 ≤ b.toNat ∧ b.toNat < 128) :=
  forall_byte (by decide +kernel)

theorem signedGroup_word : ∀ b, BitVec.ofInt 32 (signedGroup b) =
    if b &&& 0x40 = 0 then payloadWord b else payloadWord b ||| BitVec.allOnes 32 <<< 7 :=
  forall_byte (by decide +kernel)

/-- Of a fifth byte, the word has no room for the bits that repeat the sign. -/
theorem signedGroup_word_shift :
    ∀ b, BitVec.ofInt 32 (signedGroup b) <<< 28 = payloadWord b <<< 28 :=
  forall_byte (by decide +kernel)

/-- Seven bits and what is shifted past them have no bit in common. -/
theorem ofNat_or_shift {g : Nat} (hg : g < 128) (w : BitVec 32) :
    BitVec.ofNat 32 g ||| w <<< 7 = BitVec.ofNat 32 g + 128#32 * w := by
  have hdisjoint : BitVec.ofNat 32 g &&& w <<< 7 = 0 := by
    apply BitVec.eq_of_getLsbD_eq
    intro i hi
    rw [BitVec.getLsbD_and, BitVec.getLsbD_shiftLeft, BitVec.getLsbD_ofNat]
    by_cases hlow : i < 7
    · simp [hlow]
    · have hpow : 2 ^ 7 ≤ 2 ^ i := Nat.pow_le_pow_right (by decide) (Nat.le_of_not_lt hlow)
      simp [Nat.testBit_lt_two_pow (hg.trans_le hpow)]
  rw [← BitVec.add_eq_or_of_and_eq_zero _ _ hdisjoint, BitVec.shiftLeft_eq_mul_twoPow,
    BitVec.mul_comm]
  rfl

/-! ### The loops -/

section WordLoop

variable {α : Type} {start : Nat} {fault : Fault} {legal : UInt8 → Bool} {Legal : UInt8 → Prop}
  [DecidablePred Legal] {final single : UInt8 → α} {join : UInt8 → α → α}

/-- A reader of numbers and the loop that reads words go through the same bytes. When `n + 1` more
of them may come, the loop has the payloads before them in its word, and what the reader gives is
still to be shifted past those. -/
theorem wordLoop_eq (tail : Nat → Reader α) (toWord : α → BitVec 32)
    (finish : UInt8 → Nat → BitVec 32 → BitVec 32)
    (hzero : tail 0 = byte >>= fun b ↦ if Legal b then pure (final b) else failAt start fault)
    (hsucc : ∀ n, tail (n + 1) = byte >>= fun b ↦
      if continues b then tail n >>= fun a ↦ pure (join b a) else pure (single b))
    (hlegal : ∀ b, legal b = true ↔ Legal b) (hlast : ∀ b, Legal b → continues b = false)
    (hfinal : ∀ b word, Legal b →
      finish b 35 (word ||| payloadWord b <<< 28) = word ||| toWord (final b) <<< 28)
    (hsingle : ∀ b word shift, shift + 7 < 32 → finish b (shift + 7)
      (word ||| payloadWord b <<< shift) = word ||| toWord (single b) <<< shift)
    (hjoin : ∀ b a, toWord (join b a) = payloadWord b ||| toWord a <<< 7)
    {n : Nat} (hn : n ≤ 4) (extra : Nat) (word : BitVec 32) :
    wordLoop start fault legal finish (n + 1 + extra) word (7 * (4 - n)) =
      (fun a ↦ word ||| toWord a <<< (7 * (4 - n))) <$> tail n := by
  induction n generalizing word with
  | zero =>
    rw [hzero, map_bind, Nat.add_comm (0 + 1) extra, wordLoop]
    refine bind_congr fun b ↦ ?_
    by_cases hb : Legal b
    · have hlow := (and_high_eq_zero b).mpr (hlast b hb)
      simp [hb, (hlegal b).mpr hb, hlow, hfinal]
    · have hfalse : legal b = false := Bool.eq_false_iff.mpr (mt (hlegal b).mp hb)
      simp only [hfalse, hb]
      rfl
  | succ n ih =>
    have hshift : 7 * (4 - (n + 1)) + 7 = 7 * (4 - n) := by omega
    rw [hsucc, map_bind, Nat.add_right_comm, wordLoop]
    refine bind_congr fun b ↦ ?_
    rw [if_neg (by omega)]
    by_cases hb : continues b
    · have hhigh : ¬b &&& 0x80 = 0 := by simp [and_high_eq_zero, hb]
      have hword (a : α) : word ||| payloadWord b <<< (7 * (4 - (n + 1))) |||
          toWord a <<< (7 * (4 - n)) = word ||| toWord (join b a) <<< (7 * (4 - (n + 1))) := by
        rw [hjoin, BitVec.shiftLeft_or_distrib, ← BitVec.shiftLeft_add, Nat.add_comm 7, hshift,
          BitVec.or_assoc]
      rw [if_pos hb, if_neg hhigh, hshift, ih (by omega), map_bind]
      simp only [map_pure, ← hword]
      exact map_eq_pure_bind _ _
    · have hlow := (and_high_eq_zero b).mpr (Bool.eq_false_iff.mpr hb)
      rw [if_neg hb, if_pos hlow, map_pure, hsingle b word _ (by omega)]

end WordLoop

/-- Reading an unsigned integer into a word comes to the word of the number, and five rounds are
enough for it. -/
theorem unsignedWord_eq {n : Nat} (hn : 5 ≤ n) :
    unsignedWord n = BitVec.ofNat 32 <$> varuint32 := by
  obtain ⟨extra, rfl⟩ := Nat.exists_eq_add_of_le hn
  have hlegal (b : UInt8) : decide (b &&& 0xf0 = 0) = true ↔ b.toNat < 16 :=
    decide_eq_true_iff.trans (and_unused_eq_zero b)
  have hlast (b : UInt8) (hb : b.toNat < 16) : continues b = false :=
    continues_eq_false.mpr (hb.trans (by decide))
  have hfinal (b : UInt8) (word : BitVec 32) (hb : b.toNat < 16) :
      word ||| payloadWord b <<< 28 = word ||| BitVec.ofNat 32 b.toNat <<< 28 := by
    rw [payloadWord_eq, group_eq_toNat (hlast b hb)]
  have hsingle (b : UInt8) (word : BitVec 32) (shift : Nat) (_ : shift + 7 < 32) :
      word ||| payloadWord b <<< shift = word ||| BitVec.ofNat 32 (group b) <<< shift := by
    rw [payloadWord_eq]
  have hjoin (b : UInt8) (a : Nat) :
      BitVec.ofNat 32 (group b + 128 * a) = payloadWord b ||| BitVec.ofNat 32 a <<< 7 := by
    rw [payloadWord_eq, ofNat_or_shift (group_lt b), BitVec.ofNat_add, BitVec.ofNat_mul]
  rw [unsignedWord, varuint32, map_bind]
  refine bind_congr fun start ↦ ?_
  have hloop := wordLoop_eq (unsignedTail start) (BitVec.ofNat 32) (fun _ _ word ↦ word) rfl
    (fun _ ↦ rfl) hlegal hlast hfinal hsingle hjoin (Nat.le_refl 4) extra 0
  simpa using hloop

/-- Reading a signed integer into a word comes to the word of the number in two's complement. -/
theorem signedWord_eq {n : Nat} (hn : 5 ≤ n) : signedWord n = BitVec.ofInt 32 <$> varint32 := by
  obtain ⟨extra, rfl⟩ := Nat.exists_eq_add_of_le hn
  have hlast (b : UInt8) (hb : b.toNat < 8 ∨ (120 ≤ b.toNat ∧ b.toNat < 128)) :
      continues b = false :=
    continues_eq_false.mpr (by omega)
  have hfinal (b : UInt8) (word : BitVec 32) :
      fillSign b 35 (word ||| payloadWord b <<< 28) =
        word ||| BitVec.ofInt 32 (signedGroup b) <<< 28 := by
    rw [signedGroup_word_shift]
    rfl
  have hsingle (b : UInt8) (word : BitVec 32) (shift : Nat) (h : shift + 7 < 32) :
      fillSign b (shift + 7) (word ||| payloadWord b <<< shift) =
        word ||| BitVec.ofInt 32 (signedGroup b) <<< shift := by
    rw [signedGroup_word, fillSign]
    by_cases hsign : b &&& 0x40 = 0
    · rw [if_pos hsign, if_neg fun hfill ↦ hfill.2 hsign]
    · rw [if_neg hsign, if_pos ⟨h, hsign⟩, BitVec.shiftLeft_or_distrib, ← BitVec.shiftLeft_add,
        BitVec.or_assoc, Nat.add_comm 7]
  have hjoin (b : UInt8) (i : Int) :
      BitVec.ofInt 32 (group b + 128 * i) = payloadWord b ||| BitVec.ofInt 32 i <<< 7 := by
    rw [payloadWord_eq, ofNat_or_shift (group_lt b), BitVec.ofInt_add, BitVec.ofInt_mul]
    rfl
  rw [signedWord, varint32, map_bind]
  refine bind_congr fun start ↦ ?_
  have hloop := wordLoop_eq (signedTail start) (BitVec.ofInt 32) fillSign rfl (fun _ ↦ rfl)
    signExtends_iff hlast (fun b word _ ↦ hfinal b word) hsingle hjoin (Nat.le_refl 4) extra 0
  simpa using hloop

/-! ## Padding -/

section Padding

variable {k n : Nat} {rest : List UInt8}

theorem length_padded (k n : Nat) : (padded k n).length = k := by
  fun_induction padded k n with
  | case1 => rfl
  | case2 => rfl
  | case3 k n ih => rw [List.length_cons, ih]

theorem padded_delimited (hk : 1 ≤ k) : Delimited k (padded k n ++ rest) := by
  fun_induction padded k n with
  | case1 => exact absurd hk (by decide)
  | case2 n =>
    refine ⟨[], UInt8.ofNat (n % 128), rest, rfl, rfl, by simp, continues_eq_false.mpr ?_⟩
    rw [UInt8.toNat_ofNat']
    omega
  | case3 k n ih =>
    obtain ⟨init, last, rest, heq, hlength, hinit, hlast⟩ := ih (by omega)
    refine ⟨_ :: init, last, rest, congrArg _ heq, by simp [hlength],
      List.forall_mem_cons.mpr ⟨?_, hinit⟩, hlast⟩
    have hbyte : n % 128 + 128 < 2 ^ 8 := by omega
    rw [continues, UInt8.toNat_ofNat', Nat.mod_eq_of_lt hbyte]
    simp

theorem payload_padded (hn : n < 128 ^ k) : payload (padded k n) = n := by
  fun_induction padded k n with
  | case1 n =>
    rw [pow_zero, Nat.lt_one_iff] at hn
    rw [hn]
    rfl
  | case2 n =>
    have hgroup : group (UInt8.ofNat (n % 128)) = n := by
      rw [group, UInt8.toNat_ofNat']
      omega
    simp [payload, hgroup]
  | case3 k n ih =>
    have hgroup : group (UInt8.ofNat (n % 128 + 128)) = n % 128 := by
      rw [group, UInt8.toNat_ofNat']
      omega
    have hrest := ih (Nat.div_lt_of_lt_mul (by rwa [pow_succ' 128 (k + 1)] at hn))
    rw [payload, List.map_cons, Nat.ofDigits_cons, hgroup, ← payload, hrest]
    exact Nat.mod_add_div n 128

/-- An exact reader takes back any padding of a number that fits. -/
theorem Exact.run_padded {α : Type} {r : Reader α} {value : List UInt8 → α} {Fits : α → Prop}
    {fault : Fault} {v : α} (hr : Exact r value Fits fault) (hlow : 1 ≤ k) (hhigh : k ≤ 5)
    (hv : value (padded k n) = v) (hfits : Fits v) (pos : Nat) (rest : List UInt8) :
    r.run ⟨pos, padded k n ++ rest⟩ = .ok v ⟨pos + k, rest⟩ := by
  have htake : (padded k n ++ rest).take k = padded k n :=
    List.take_left' (length_padded k n)
  refine (hr.ok _ _ _).mpr
    ⟨k, ⟨hlow, hhigh, padded_delimited hlow, htake.symm ▸ hv, hfits⟩, ?_⟩
  rw [Cursor.advance, List.drop_left' (length_padded k n)]

end Padding

/-- Two's complement in `k` bytes loses nothing of a number that has `7 * k` bits. -/
theorem signedPayload_padded {k : Nat} {i : Int} (hk : 1 ≤ k) (hlow : -2 ^ (7 * k - 1) ≤ i)
    (hhigh : i < 2 ^ (7 * k - 1)) :
    signedPayload (padded k (BitVec.ofInt (7 * k) i).toNat) = i := by
  have hlt : (BitVec.ofInt (7 * k) i).toNat < 128 ^ k := by
    have := (BitVec.ofInt (7 * k) i).isLt
    rwa [pow_mul] at this
  rw [signedPayload, payload_padded hlt, length_padded, BitVec.ofNat_toNat, BitVec.setWidth_eq]
  exact BitVec.toInt_ofInt_eq_self (by omega) hlow hhigh

/-- The readers of 32-bit integers accept just the numbers that fit, in one to five bytes that
delimit themselves, and say how anything else falls short. So each number can be read back from
every form of it, however it is padded and whatever follows. -/
theorem varint_readers_exact :
    Exact varuint32 payload (· < 2 ^ 32) (.badUnsigned 32) ∧
    Exact varint32 signedPayload (fun i ↦ -2 ^ 31 ≤ i ∧ i < 2 ^ 31) (.badSigned 32) ∧
    (∀ k n pos rest, 1 ≤ k → k ≤ 5 → n < 128 ^ k → n < 2 ^ 32 →
      varuint32.run ⟨pos, padded k n ++ rest⟩ = .ok n ⟨pos + k, rest⟩) ∧
    ∀ k i pos rest, 1 ≤ k → k ≤ 5 → -2 ^ (7 * k - 1) ≤ i → i < 2 ^ (7 * k - 1) →
      -2 ^ 31 ≤ i → i < 2 ^ 31 →
      varint32.run ⟨pos, padded k (BitVec.ofInt (7 * k) i).toNat ++ rest⟩ =
        .ok i ⟨pos + k, rest⟩ := by
  refine ⟨varuint32_exact, varint32_exact, ?_, ?_⟩
  · intro k n pos rest hk hk' hn hfits
    exact varuint32_exact.run_padded hk hk' (payload_padded hn) hfits pos rest
  · intro k i pos rest hk hk' hlow hhigh hmin hmax
    exact varint32_exact.run_padded hk hk' (signedPayload_padded hk hlow hhigh) ⟨hmin, hmax⟩ pos
      rest

/-- Minus one in five bytes, of which the last repeats the sign, and the same bytes with a last one
that does not. -/
theorem varint_readers_exact_minus_one :
    padded 5 (BitVec.ofInt 35 (-1)).toNat = [0xff, 0xff, 0xff, 0xff, 0x7f] ∧
    varint32.run ⟨7, padded 5 (BitVec.ofInt 35 (-1)).toNat ++ [0x2a]⟩ = .ok (-1) ⟨12, [0x2a]⟩ ∧
    varint32.run ⟨7, [0xff, 0xff, 0xff, 0xff, 0x4f, 0x2a]⟩ =
      .error (.located 7 (.badSigned 32)) ⟨12, [0x2a]⟩ := by
  obtain ⟨-, -, -, hpadded⟩ := varint_readers_exact
  refine ⟨by decide, ?_, rfl⟩
  exact hpadded 5 (-1) 7 [0x2a] (by decide) (by decide) (by decide) (by decide) (by decide)
    (by decide)

end WasmEngine.Reader
