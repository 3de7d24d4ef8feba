import Mathlib.Data.Nat.Digits.Lemmas
import WasmEngine.Machine.Activation
import WasmEngine.Proofs.IntegerOperators
import WasmEngine.Proofs.Segments

/-!
# Accesses to a memory

A memory is an array of bytes, and an access of `n` bytes works on those from its address on. A load
gives the number whose digits to base 256 they are, lowest first, extended to a word with or without
its sign. A store replaces them by the lowest bytes of a word and leaves all others as they were. So
what a load gives after a store is known whatever the two have in common: it is read off the array
in which some bytes are those of the word.

Addresses are numbers and are never reduced. That of a load or store of compiled code is the sum of
an unsigned word and an offset, and the access has to lie inside the memory from there on.
-/

namespace WasmEngine

/-! ## Bytes and numbers -/

/-- The byte at a place of a word, the lowest at place zero. -/
def byteOf (w : BitVec 32) (i : Nat) : UInt8 := .ofNat (w.toNat / 256 ^ i)

/-- The number that the `n` bytes from an address on stand for, the lowest first. -/
def numberAt (byte : Nat → UInt8) (addr n : Nat) : Nat :=
  Nat.ofDigits 256 ((List.range n).map fun i ↦ (byte (addr + i)).toNat)

/-- Bytes of which those of a word took the place of `n` from an address on. -/
def overlaid (byte : Nat → UInt8) (addr n : Nat) (w : BitVec 32) (k : Nat) : UInt8 :=
  if addr ≤ k ∧ k < addr + n then byteOf w (k - addr) else byte k

/-- The word is a number below `256 ^ width` read as unsigned, or in two's complement. -/
def Access.Extends (access : Access) (n : Nat) (w : BitVec 32) : Prop :=
  match access with
  | word | byteU | halfU => w.toNat = n
  | byteS | halfS =>
    w.toInt = if 2 * n < 256 ^ access.width then (n : Int) else n - 256 ^ access.width

instance (access : Access) (n : Nat) (w : BitVec 32) : Decidable (access.Extends n w) :=
  match access with
  | .word | .byteU | .halfU => inferInstanceAs (Decidable (w.toNat = n))
  | .byteS => inferInstanceAs (Decidable (w.toInt = ite (2 * n < 256 ^ 1) (n : Int) (n - 256 ^ 1)))
  | .halfS => inferInstanceAs (Decidable (w.toInt = ite (2 * n < 256 ^ 2) (n : Int) (n - 256 ^ 2)))

/-- The byte at an address, zero if there is none. -/
def Memory.byte (m : Memory) (k : Nat) : UInt8 := m.bytes[k]?.getD 0

/-- Bytes in memory are the digits of a number, the lowest first. -/
theorem littleEndian_eq (bs : List UInt8) :
    littleEndian bs = Nat.ofDigits 256 (bs.map UInt8.toNat) := by
  induction bs with
  | nil => rfl
  | cons b bs ih => rw [littleEndian, ih, List.map_cons, Nat.ofDigits_cons]

theorem byteOf_succ (w : BitVec 32) (i : Nat) : byteOf w (i + 1) = byteOf (w >>> 8) i := by
  have hshift : (w >>> 8).toNat = w.toNat / 256 := by
    rw [BitVec.toNat_ushiftRight, Nat.shiftRight_eq_div_pow]
  rw [byteOf, byteOf, hshift, Nat.div_div_eq_div_mul, Nat.pow_succ']

/-- The bytes of a word, by their places. -/
theorem lowBytes_eq (w : BitVec 32) (n : Nat) : lowBytes w n = (List.range n).map (byteOf w) := by
  induction n generalizing w with
  | zero => rfl
  | succ n ih =>
    have hzero : byteOf w 0 = UInt8.ofNat w.toNat := by rw [byteOf, Nat.pow_zero, Nat.div_one]
    rw [lowBytes, ih, List.range_succ_eq_map, List.map_cons, List.map_map, hzero]
    congr 1
    exact List.map_congr_left fun i _ ↦ (byteOf_succ w i).symm

/-- A word that is cut to some bytes is known up to a power of 256. -/
theorem littleEndian_lowBytes (w : BitVec 32) (n : Nat) :
    littleEndian (lowBytes w n) = w.toNat % 256 ^ n := by
  induction n generalizing w with
  | zero => rw [Nat.pow_zero, Nat.mod_one]; rfl
  | succ n ih =>
    have hlow : (UInt8.ofNat w.toNat).toNat = w.toNat % 256 := UInt8.toNat_ofNat'
    have hshift : (w >>> 8).toNat = w.toNat / 256 := by
      rw [BitVec.toNat_ushiftRight, Nat.shiftRight_eq_div_pow]
    rw [lowBytes, littleEndian, ih, hlow, hshift, Nat.pow_succ', Nat.mod_mul]

/-- Some bytes stand for a number below a power of 256. -/
theorem numberAt_lt (byte : Nat → UInt8) (addr n : Nat) : numberAt byte addr n < 256 ^ n := by
  have hlt : ∀ d ∈ (List.range n).map fun i ↦ (byte (addr + i)).toNat, d < 256 := by
    intro d hd
    obtain ⟨i, -, rfl⟩ := List.mem_map.mp hd
    exact (byte (addr + i)).toNat_lt
  have hdigits := Nat.ofDigits_lt_base_pow_length (by decide) hlt
  rwa [List.length_map, List.length_range] at hdigits

/-- A number only depends on its own bytes. -/
theorem numberAt_congr {byte byte' : Nat → UInt8} {addr n : Nat}
    (h : ∀ i < n, byte (addr + i) = byte' (addr + i)) :
    numberAt byte addr n = numberAt byte' addr n := by
  rw [numberAt, numberAt]
  congr 1
  apply List.map_congr_left
  intro i hi
  rw [h i (List.mem_range.mp hi)]

/-- The number that a narrow word stands for in two's complement. -/
theorem toInt_signExtend_ofNat {v n : Nat} (hv : v ≤ 32) (hn : n < 2 ^ v) :
    ((BitVec.ofNat v n).signExtend 32).toInt = if 2 * n < 2 ^ v then (n : Int) else n - 2 ^ v := by
  rw [BitVec.toInt_signExtend_of_le hv, BitVec.toInt_eq_toNat_cond, BitVec.toNat_ofNat,
    Nat.mod_eq_of_lt hn]
  push_cast
  rfl

/-- A number is extended to the one word that reads as the number. -/
theorem Access.extend_eq_iff {access : Access} {n : Nat} (hn : n < 256 ^ access.width)
    {w : BitVec 32} : access.extend n = w ↔ access.Extends n w := by
  cases access with
  | word => exact eq_iff_toNat (Nat.mod_eq_of_lt hn)
  | byteU =>
    refine eq_iff_toNat ?_
    simp only [width] at hn
    rw [extend, BitVec.toNat_setWidth, BitVec.toNat_ofNat]
    omega
  | halfU =>
    refine eq_iff_toNat ?_
    simp only [width] at hn
    rw [extend, BitVec.toNat_setWidth, BitVec.toNat_ofNat]
    omega
  | byteS => exact eq_iff_toInt (toInt_signExtend_ofNat (v := 8) (by decide) hn)
  | halfS => exact eq_iff_toInt (toInt_signExtend_ofNat (v := 16) (by decide) hn)

/-! ## Loads and stores -/

namespace Memory

variable {m m' : Memory} {access : Access} {addr : Nat} {value : BitVec 32}

theorem holds_iff {len : Nat} : m.holds addr len = true ↔ addr + len ≤ m.bytes.size :=
  decide_eq_true_iff

theorem getElem?_eq_byte {k : Nat} (h : k < m.bytes.size) : m.bytes[k]? = some (m.byte k) := by
  rw [byte, Array.getElem?_eq_getElem h, Option.getD_some]

/-- Bytes are read one by one if all of them are there. -/
theorem read?_eq_some {n : Nat} (h : addr + n ≤ m.bytes.size) :
    m.read? addr n = some ((List.range n).map fun i ↦ m.byte (addr + i)) := by
  rw [read?, if_pos (holds_iff.mpr h), Option.some.injEq]
  apply List.ext_getElem?
  intro i
  rw [Array.getElem?_toList, Array.getElem?_extract, List.getElem?_map]
  by_cases hi : i < n
  · rw [List.getElem?_range hi, if_pos (by omega), getElem?_eq_byte (by omega)]
    rfl
  · rw [List.getElem?_eq_none (by simpa using hi), if_neg (by omega)]
    rfl

/-- A load that lies inside the memory gives the number in its bytes. -/
theorem load_of_room (h : addr + access.width ≤ m.bytes.size) :
    m.load access addr = .ok (access.extend (numberAt m.byte addr access.width)) := by
  rw [load, read?_eq_some h]
  simp only [littleEndian_eq, List.map_map]
  rfl

theorem load_of_no_room (h : ¬addr + access.width ≤ m.bytes.size) :
    m.load access addr = .error (.memoryOutOfBounds addr access.width) := by
  rw [load, read?, if_neg (mt holds_iff.mp h)]

theorem load_eq_ok_iff {w : BitVec 32} :
    m.load access addr = .ok w ↔ addr + access.width ≤ m.bytes.size ∧
      access.Extends (numberAt m.byte addr access.width) w := by
  by_cases h : addr + access.width ≤ m.bytes.size
  · rw [load_of_room h, Except.ok.injEq, Access.extend_eq_iff (numberAt_lt _ _ _),
      and_iff_right h]
  · rw [load_of_no_room h]
    exact iff_of_false nofun fun hroom ↦ h hroom.1

theorem load_eq_error_iff {e : Trap} :
    m.load access addr = .error e ↔
      m.bytes.size < addr + access.width ∧ e = .memoryOutOfBounds addr access.width := by
  by_cases h : addr + access.width ≤ m.bytes.size
  · rw [load_of_room h]
    exact iff_of_false nofun fun hout ↦ Nat.not_le_of_lt hout.1 h
  · rw [load_of_no_room h, Except.error.injEq, and_iff_right (Nat.lt_of_not_le h), eq_comm]

/-- The second memory is the first one with bytes of a word from an address on. -/
structure Stored (m : Memory) (addr n : Nat) (value : BitVec 32) (m' : Memory) : Prop where
  max : m'.max = m.max
  limit : m'.limit = m.limit
  size : m'.bytes.size = m.bytes.size
  bytes : ∀ k < m.bytes.size, m'.byte k = overlaid m.byte addr n value k

/-- Where the bytes of a memory are known, the memory is. -/
theorem Stored.unique {n : Nat} {m₁ m₂ : Memory} (h₁ : m.Stored addr n value m₁)
    (h₂ : m.Stored addr n value m₂) : m₁ = m₂ := by
  have hbytes : m₁.bytes = m₂.bytes := by
    apply Array.ext_getElem?
    intro k
    by_cases hk : k < m.bytes.size
    · rw [getElem?_eq_byte (h₁.size ▸ hk), getElem?_eq_byte (h₂.size ▸ hk), h₁.bytes k hk,
        h₂.bytes k hk]
    · rw [Array.getElem?_eq_none (by rw [h₁.size]; omega),
        Array.getElem?_eq_none (by rw [h₂.size]; omega)]
  obtain ⟨_, _, _⟩ := m₁
  obtain ⟨_, _, _⟩ := m₂
  obtain rfl := hbytes
  obtain rfl := h₁.max.trans h₂.max.symm
  obtain rfl := h₁.limit.trans h₂.limit.symm
  rfl

/-- A write that lies inside the memory replaces its own bytes and no others. -/
theorem stored_write {n : Nat} (h : addr + n ≤ m.bytes.size) :
    m.Stored addr n value (m.write addr (lowBytes value n)) where
  max := rfl
  limit := rfl
  size := size_overlay _ _ _
  bytes k hk := by
    have hlength : (lowBytes value n).length = n := by simp [lowBytes_eq]
    rw [byte, overlaid, write]
    split
    · rename_i hreach
      have hplace : (lowBytes value n)[k - addr]? = some (byteOf value (k - addr)) := by
        rw [lowBytes_eq, List.getElem?_map, List.getElem?_range (by omega)]
        rfl
      rw [overlay_of_reaches (by rw [hlength]; exact h) hreach.1 hplace, Option.getD_some]
    · rename_i hreach
      rw [overlay_of_not_reaches (by rw [Reaches, hlength]; exact hreach), byte]

/-- A store is possible just where all its bytes are. -/
theorem store_eq_ok_iff :
    m.store access addr value = .ok m' ↔
      addr + access.width ≤ m.bytes.size ∧ m.Stored addr access.width value m' := by
  rw [store, except_ite_eq_ok, holds_iff]
  refine and_congr_right fun hroom ↦ ?_
  exact ⟨fun heq ↦ heq ▸ stored_write hroom, fun hstored ↦ hstored.unique (stored_write hroom)⟩

theorem store_eq_error_iff {e : Trap} :
    m.store access addr value = .error e ↔
      m.bytes.size < addr + access.width ∧ e = .memoryOutOfBounds addr access.width := by
  rw [store, except_ite_eq_error, holds_iff, Nat.not_le]

/-- A load after a store reads new bytes where it overlaps the store, and old ones elsewhere. -/
theorem Stored.load_eq_ok_iff {n : Nat} (h : m.Stored addr n value m') {access' : Access}
    {addr' : Nat} {w : BitVec 32} :
    m'.load access' addr' = .ok w ↔ addr' + access'.width ≤ m.bytes.size ∧
      access'.Extends (numberAt (overlaid m.byte addr n value) addr' access'.width) w := by
  rw [Memory.load_eq_ok_iff, h.size]
  refine and_congr_right fun hroom ↦ ?_
  rw [numberAt_congr fun i hi ↦ h.bytes (addr' + i) (by omega)]

/-- What was stored is found again, cut to its width. -/
theorem numberAt_overlaid (byte : Nat → UInt8) (addr n : Nat) (value : BitVec 32) :
    numberAt (overlaid byte addr n value) addr n = value.toNat % 256 ^ n := by
  rw [← littleEndian_lowBytes, littleEndian_eq, lowBytes_eq, List.map_map, numberAt]
  congr 1
  apply List.map_congr_left
  intro i hi
  have hlt := List.mem_range.mp hi
  rw [overlaid, if_pos (by omega), Nat.add_sub_cancel_left]
  rfl

end Memory

/-! ## Compiled code -/

/-- The first memory of an instance, with its address. Code of the instance works on no other. -/
def Store.FirstMemory (s : Store) (inst x : Nat) (m : Memory) : Prop :=
  ∃ i, s.instances[inst]? = some i ∧ i.memories[0]? = some x ∧ s.memories[x]? = some m

namespace Store.FirstMemory

variable {s : Store} {inst x : Nat} {m : Memory}

theorem run_memoryAddress (h : s.FirstMemory inst x m) :
    (Exec.memoryAddress inst).run s = .ok x s := by
  obtain ⟨i, hi, hx, -⟩ := h
  have hinst : (Exec.instanceAt inst).run s = .ok i s := by simp [Exec.instanceAt, hi]
  simp [Exec.memoryAddress, hinst, hx]

theorem memory (h : s.FirstMemory inst x m) : s.memories[x]? = some m := by
  obtain ⟨-, -, -, hm⟩ := h
  exact hm

theorem run_memoryAt (h : s.FirstMemory inst x m) : (Exec.memoryAt x).run s = .ok m s := by
  simp [Exec.memoryAt, h.memory]

/-- Code of an instance loads from the first memory of the instance. -/
theorem run_load (h : s.FirstMemory inst x m) (access : Access) (addr : Nat) :
    (Exec.load inst access addr).run s = (ofExcept (m.load access addr) : Exec _).run s := by
  simp [Exec.load, h.run_memoryAddress, h.run_memoryAt]

/-- A store of code changes this memory in the store and nothing else. -/
theorem run_store_of_room (h : s.FirstMemory inst x m) {access : Access} {addr : Nat}
    (hroom : addr + access.width ≤ m.bytes.size) (value : BitVec 32) :
    (Exec.store inst access addr value).run s =
      .ok () (s.setMemory x (m.write addr (lowBytes value access.width))) := by
  have hset := setIfInBounds_eq_modify (g := (·.write addr (lowBytes value access.width))) h.memory
  simp [Exec.store, h.run_memoryAddress, h.run_memoryAt, Memory.holds_iff.mpr hroom, setMemory,
    hset]

/-- A store that does not fit traps and changes nothing. -/
theorem run_store_of_no_room (h : s.FirstMemory inst x m) {access : Access} {addr : Nat}
    (hroom : ¬addr + access.width ≤ m.bytes.size) (value : BitVec 32) :
    (Exec.store inst access addr value).run s =
      .error (.memoryOutOfBounds addr access.width) s := by
  have hholds : m.holds addr access.width = false := decide_eq_false hroom
  simp [Exec.store, h.run_memoryAddress, h.run_memoryAt, hholds, run_throw_eq_error]

end Store.FirstMemory

namespace Activation

variable {s : Store} {a : Activation} {x : Nat} {m : Memory} {base value : BitVec 32}
  {access : Access} {offset : Nat} {dst src : Slot}

theorem run_i32 (h : a.slots.i32 src = .ok base) : (a.i32 src).run s = .ok base s := by
  rw [i32, h]
  rfl

/-- A load of compiled code reads from the base, as an unsigned number, plus the offset. -/
theorem run_exec_load (h : s.FirstMemory a.inst x m) (hbase : a.slots.i32 src = .ok base) :
    (a.exec (.load access offset dst src)).run s =
      (do
        let w ← ofExcept (m.load access (base.toNat + offset))
        return .next (← a.set dst (.i32 w)) : Exec (Action Activation Suspended)).run s := by
  simp only [exec, effectiveAddress, EStateM.run_bind, run_i32 hbase, h.run_load]

theorem run_exec_store (hbase : a.slots.i32 dst = .ok base) (hvalue : a.slots.i32 src = .ok value) :
    (a.exec (.store access offset dst src)).run s =
      (do
        Exec.store a.inst access (base.toNat + offset) value
        return .next a : Exec (Action Activation Suspended)).run s := by
  simp only [exec, effectiveAddress, EStateM.run_bind, run_i32 hbase, run_i32 hvalue]

end Activation

/-! ## Exact accesses -/

/-- Loads and stores at an address are possible just where all their bytes are, and fail otherwise
with the address and the width. A store changes its own bytes only, and a load after it reads the
bytes as they are then. -/
structure Memory.ExactAccess (m : Memory) (access : Access) (addr : Nat) : Prop where
  load_ok : ∀ w, m.load access addr = .ok w ↔ addr + access.width ≤ m.bytes.size ∧
    access.Extends (numberAt m.byte addr access.width) w
  load_error : ∀ e, m.load access addr = .error e ↔
    m.bytes.size < addr + access.width ∧ e = .memoryOutOfBounds addr access.width
  store_ok : ∀ value m', m.store access addr value = .ok m' ↔
    addr + access.width ≤ m.bytes.size ∧ m.Stored addr access.width value m'
  store_error : ∀ value e, m.store access addr value = .error e ↔
    m.bytes.size < addr + access.width ∧ e = .memoryOutOfBounds addr access.width
  load_after : ∀ {value m'}, m.store access addr value = .ok m' → ∀ access' addr' w,
    m'.load access' addr' = .ok w ↔ addr' + access'.width ≤ m.bytes.size ∧
      access'.Extends (numberAt (overlaid m.byte addr access.width value) addr' access'.width) w
  load_back : ∀ {value m'}, m.store access addr value = .ok m' → ∀ w,
    m'.load access addr = .ok w ↔ access.Extends (value.toNat % 256 ^ access.width) w

/-- Compiled code that runs on a memory accesses the sum of its base, read as unsigned, and its
offset. It goes on with what is there, or traps and changes nothing. -/
structure Activation.ExactAccess (s : Store) (a : Activation) (x : Nat) (m : Memory)
    (access : Access) (offset : Nat) (dst src : Slot) : Prop where
  load_ok : ∀ base, a.slots.i32 src = .ok base →
    base.toNat + offset + access.width ≤ m.bytes.size →
    ∃ w, access.Extends (numberAt m.byte (base.toNat + offset) access.width) w ∧
      (a.exec (.load access offset dst src)).run s =
        (do return .next (← a.set dst (.i32 w)) : Exec (Action Activation Suspended)).run s
  load_error : ∀ base, a.slots.i32 src = .ok base →
    m.bytes.size < base.toNat + offset + access.width →
    (a.exec (.load access offset dst src)).run s =
      .error (.memoryOutOfBounds (base.toNat + offset) access.width) s
  store_ok : ∀ base value, a.slots.i32 dst = .ok base → a.slots.i32 src = .ok value →
    base.toNat + offset + access.width ≤ m.bytes.size →
    ∃ m', m.Stored (base.toNat + offset) access.width value m' ∧
      (a.exec (.store access offset dst src)).run s = .ok (.next a) (s.setMemory x m')
  store_error : ∀ base value, a.slots.i32 dst = .ok base → a.slots.i32 src = .ok value →
    m.bytes.size < base.toNat + offset + access.width →
    (a.exec (.store access offset dst src)).run s =
      .error (.memoryOutOfBounds (base.toNat + offset) access.width) s

theorem Memory.exactAccess (m : Memory) (access : Access) (addr : Nat) :
    m.ExactAccess access addr where
  load_ok _ := load_eq_ok_iff
  load_error _ := load_eq_error_iff
  store_ok _ _ := store_eq_ok_iff
  store_error _ _ := store_eq_error_iff
  load_after h _ _ _ := (store_eq_ok_iff.mp h).2.load_eq_ok_iff
  load_back h w := by
    obtain ⟨hroom, hstored⟩ := store_eq_ok_iff.mp h
    rw [hstored.load_eq_ok_iff, numberAt_overlaid, and_iff_right hroom]

theorem Activation.exactAccess {s : Store} {a : Activation} {x : Nat} {m : Memory}
    (hm : s.FirstMemory a.inst x m) (access : Access) (offset : Nat) (dst src : Slot) :
    ExactAccess s a x m access offset dst src where
  load_ok base hbase h := by
    refine ⟨_, (Access.extend_eq_iff (numberAt_lt _ _ _)).mp rfl, ?_⟩
    rw [run_exec_load hm hbase, Memory.load_of_room h]
    rfl
  load_error base hbase h := by
    rw [run_exec_load hm hbase, Memory.load_of_no_room (Nat.not_le_of_lt h)]
    rfl
  store_ok base value hbase hvalue h := by
    refine ⟨_, Memory.stored_write h, ?_⟩
    rw [run_exec_store hbase hvalue, EStateM.run_bind, hm.run_store_of_room h]
    rfl
  store_error base value hbase hvalue h := by
    rw [run_exec_store hbase hvalue, EStateM.run_bind,
      hm.run_store_of_no_room (Nat.not_le_of_lt h)]

/-- A memory behaves as an array of bytes that holds words with the lowest byte first, for those who
load and store directly and for compiled code. -/
theorem memory_accesses_exact :
    (∀ (m : Memory) (access : Access) (addr : Nat), m.ExactAccess access addr) ∧
    ∀ (s : Store) (a : Activation) (x : Nat) (m : Memory) (access : Access) (offset : Nat)
      (dst src : Slot), s.FirstMemory a.inst x m → a.ExactAccess s x m access offset dst src :=
  ⟨Memory.exactAccess, fun _ _ _ _ access offset dst src hm ↦
    Activation.exactAccess hm access offset dst src⟩

/-- In a memory of one page, a half word is stored across two bytes of a word, and loads that
overlap it read a mixture. A base of all ones is not minus one: with an offset of two it lies far
outside. -/
theorem overlapping_accesses_exact :
    ∃ m m₁ m₂, Memory.new ⟨1, none⟩ 1 = .ok m ∧ m.store .word 0 0x04030201 = .ok m₁ ∧
      m₁.store .halfU 1 0x112283f4 = .ok m₂ ∧
      m₂.load .word 0 = .ok 0x0483f401 ∧ m₂.load .byteS 1 = .ok (-12) ∧
      m₂.load .halfU 1 = .ok 0x83f4 ∧
      (Activation.exec ⟨0, ⟨#[.i32 (-1)], .ofFn fun _ ↦ #[]⟩, [], none⟩
        (.load .byteU 2 (.local 0) (.local 0))).run
          { id := 0, memories := #[m₂], instances := #[{ module := default, memories := #[0] }] } =
        .error (.memoryOutOfBounds 4294967297 1)
          { id := 0, memories := #[m₂],
            instances := #[{ module := default, memories := #[0] }] } := by
  obtain ⟨hexact, hcode⟩ := memory_accesses_exact
  have hpage : Memory.new ⟨1, none⟩ 1 = .ok ⟨Array.replicate 65536 0, none, 1⟩ := rfl
  generalize hm : (⟨Array.replicate 65536 0, none, 1⟩ : Memory) = m at hpage
  have hsize : m.bytes.size = 65536 := by
    rw [← hm]
    exact Array.size_replicate
  have hroom : 0 + Access.word.width ≤ m.bytes.size := by
    rw [hsize]
    decide
  have hfirst := ((hexact m .word 0).store_ok 0x04030201 _).mpr ⟨hroom, Memory.stored_write hroom⟩
  have hstored := (((hexact m .word 0).store_ok 0x04030201 _).mp hfirst).2
  generalize m.write 0 _ = m₁ at hfirst hstored
  have hroom₁ : 1 + Access.halfU.width ≤ m₁.bytes.size := by
    rw [hstored.size, hsize]
    decide
  have hsecond := ((hexact m₁ .halfU 1).store_ok 0x112283f4 _).mpr
    ⟨hroom₁, Memory.stored_write hroom₁⟩
  have hstored₁ := (((hexact m₁ .halfU 1).store_ok 0x112283f4 _).mp hsecond).2
  generalize m₁.write 1 _ = m₂ at hsecond hstored₁
  have hbyte (k : Nat) (hk : k < 4) : m₁.byte k = byteOf 0x04030201 k := by
    have hreach : 0 ≤ k ∧ k < 0 + Access.word.width := ⟨Nat.zero_le k, by rwa [Nat.zero_add]⟩
    rw [hstored.bytes k (by omega), overlaid, if_pos hreach, Nat.sub_zero]
  have hoverlaid (addr n : Nat) (h : addr + n ≤ 4) :
      numberAt (overlaid m₁.byte 1 2 0x112283f4) addr n =
        numberAt (overlaid (byteOf 0x04030201) 1 2 0x112283f4) addr n := by
    refine numberAt_congr fun i hi ↦ ?_
    rw [overlaid, overlaid, hbyte (addr + i) (by omega)]
  have hloads := (hexact m₁ .halfU 1).load_after hsecond
  refine ⟨m, m₁, m₂, hpage, hfirst, hsecond, (hloads .word 0 _).mpr ⟨?_, ?_⟩,
    (hloads .byteS 1 _).mpr ⟨?_, ?_⟩, ((hexact m₁ .halfU 1).load_back hsecond _).mpr ?_, ?_⟩
  · rw [hstored.size, hsize]
    decide
  · rw [Access.width, Access.width, hoverlaid 0 4 (by decide)]
    decide +kernel
  · rw [hstored.size, hsize]
    decide
  · rw [Access.width, Access.width, hoverlaid 1 1 (by decide)]
    decide +kernel
  · decide +kernel
  · refine (hcode _ _ 0 m₂ .byteU 2 _ _ ⟨_, rfl, rfl, rfl⟩).load_error (-1) rfl ?_
    rw [hstored₁.size, hstored.size, hsize]
    decide

end WasmEngine
