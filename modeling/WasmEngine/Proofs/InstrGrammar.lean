import WasmEngine.Code.Encoding
import WasmEngine.Module.Section
import WasmEngine.Proofs.Grammar

/-!
# Grammars of instructions

The productions of constants, instructions, initializers and local declarations, each with the
reader that is exact for it. A constant of 64 bits has no production, and neither has an opcode that
no instruction uses: what has no spelling is never read.
-/

namespace WasmEngine

def UnaryOp.opcode : UnaryOp → UInt8
  | eqz => 0x45
  | clz => 0x67
  | ctz => 0x68
  | popcnt => 0x69

def BinaryOp.opcode : BinaryOp → UInt8
  | eq => 0x46
  | ne => 0x47
  | ltS => 0x48
  | ltU => 0x49
  | gtS => 0x4a
  | gtU => 0x4b
  | leS => 0x4c
  | leU => 0x4d
  | geS => 0x4e
  | geU => 0x4f
  | add => 0x6a
  | sub => 0x6b
  | mul => 0x6c
  | divS => 0x6d
  | divU => 0x6e
  | remS => 0x6f
  | remU => 0x70
  | and => 0x71
  | or => 0x72
  | xor => 0x73
  | shl => 0x74
  | shrS => 0x75
  | shrU => 0x76
  | rotl => 0x77
  | rotr => 0x78

def Operator.opcode : Operator → UInt8
  | unary op => op.opcode
  | binary op => op.opcode

namespace Grammar

def fixed (n : Nat) : Grammar Nat := fun k bs ↦ bs.length = n ∧ littleEndian bs = k

inductive constant : Grammar Value
  | i32 {k : Int} {bs : List UInt8} (h : signed k bs) :
      constant (.i32 (BitVec.ofInt 32 k)) (0x41 :: bs)
  | f32 {k : Nat} {bs : List UInt8} (h : fixed 4 k bs) :
      constant (.f32 (BitVec.ofNat 32 k)) (0x43 :: bs)
  | f64 {k : Nat} {bs : List UInt8} (h : fixed 8 k bs) :
      constant (.f64 (BitVec.ofNat 64 k)) (0x44 :: bs)

def memArg : Grammar MemArg := fun arg bs ↦
  ∃ align offset, bs = align ++ offset ∧ unsigned arg.align align ∧ unsigned arg.offset offset

def loadOpcode : Access → UInt8
  | .word => 0x28
  | .byteS => 0x2c
  | .byteU => 0x2d
  | .halfS => 0x2e
  | .halfU => 0x2f

inductive instr : Grammar Instr
  | unreachable : instr .unreachable [0x00]
  | nop : instr .nop [0x01]
  | block {r : Option ValueType} {bs : List UInt8} (h : blockType r bs) :
      instr (.block r) (0x02 :: bs)
  | loop {r : Option ValueType} {bs : List UInt8} (h : blockType r bs) :
      instr (.loop r) (0x03 :: bs)
  | conditional {r : Option ValueType} {bs : List UInt8} (h : blockType r bs) :
      instr (.conditional r) (0x04 :: bs)
  | otherwise : instr .otherwise [0x05]
  | close : instr .close [0x0b]
  | br {depth : Nat} {bs : List UInt8} (h : unsigned depth bs) : instr (.br depth) (0x0c :: bs)
  | brIf {depth : Nat} {bs : List UInt8} (h : unsigned depth bs) : instr (.brIf depth) (0x0d :: bs)
  | brTable {depths : List Nat} {default : Nat} {bs bs' : List UInt8}
      (h : vector unsigned depths bs) (h' : unsigned default bs') :
      instr (.brTable depths default) (0x0e :: (bs ++ bs'))
  | ret : instr .ret [0x0f]
  | call {func : Nat} {bs : List UInt8} (h : unsigned func bs) : instr (.call func) (0x10 :: bs)
  | callIndirect {type : Nat} {bs : List UInt8} (h : unsigned type bs) :
      instr (.callIndirect type) (0x11 :: (bs ++ [0]))
  | drop : instr .drop [0x1a]
  | select : instr .select [0x1b]
  | localGet {index : Nat} {bs : List UInt8} (h : unsigned index bs) :
      instr (.localGet index) (0x20 :: bs)
  | localSet {index : Nat} {bs : List UInt8} (h : unsigned index bs) :
      instr (.localSet index) (0x21 :: bs)
  | localTee {index : Nat} {bs : List UInt8} (h : unsigned index bs) :
      instr (.localTee index) (0x22 :: bs)
  | globalGet {index : Nat} {bs : List UInt8} (h : unsigned index bs) :
      instr (.globalGet index) (0x23 :: bs)
  | globalSet {index : Nat} {bs : List UInt8} (h : unsigned index bs) :
      instr (.globalSet index) (0x24 :: bs)
  | load {access : Access} {arg : MemArg} {bs : List UInt8} (h : memArg arg bs) :
      instr (.load access arg) (loadOpcode access :: bs)
  | store {arg : MemArg} {bs : List UInt8} (h : memArg arg bs) :
      instr (.store .word arg) (0x36 :: bs)
  | storeByte {arg : MemArg} {bs : List UInt8} (h : memArg arg bs) :
      instr (.store .byteU arg) (0x3a :: bs)
  | storeHalf {arg : MemArg} {bs : List UInt8} (h : memArg arg bs) :
      instr (.store .halfU arg) (0x3b :: bs)
  | memorySize : instr .memorySize [0x3f, 0]
  | memoryGrow : instr .memoryGrow [0x40, 0]
  | const {v : Value} {bs : List UInt8} (h : constant v bs) : instr (.const v) bs
  | unary (op : UnaryOp) : instr (.unary op) [op.opcode]
  | binary (op : BinaryOp) : instr (.binary op) [op.opcode]

/-- One constant, or one global. -/
inductive initializer : Grammar ConstExpr
  | value {v : Value} {bs : List UInt8} (h : constant v bs) : initializer (.value v) bs
  | globalGet {index : Nat} {bs : List UInt8} (h : unsigned index bs) :
      initializer (.globalGet index) (0x23 :: bs)

def constExpr : Grammar ConstExpr := fun e bs ↦ ∃ init, bs = init ++ [0x0b] ∧ initializer e init

def localDecl : Grammar (Nat × ValueType) := fun decl bs ↦
  ∃ count type, bs = count ++ type ∧ unsigned decl.1 count ∧ valueType decl.2 type

end Grammar

namespace Reader

open Cursor

/-- The first byte says how the rest is read. -/
theorem Reads.opcode {α : Type} {G : Grammar α} {f : UInt8 → Reader α}
    (hf : ∀ op, Reads (f op) fun a bs ↦ G a (op :: bs)) (hnil : ∀ a, ¬G a []) :
    Reads (Reader.byte >>= f) G := by
  refine (Reads.byte.bind hf).congr fun a bs ↦ ?_
  constructor
  · rintro ⟨op, _, bs, rfl, rfl, h⟩
    exact h
  · intro h
    cases bs with
    | nil => exact absurd h (hnil a)
    | cons op bs => exact ⟨op, [op], bs, rfl, rfl, h⟩

/-- After the opcode `k` something is read, of which the result is made. -/
theorem Reads.spells_map {α β : Type} {G : Grammar α} {H : Grammar β} {r : Reader α} {f : α → β}
    {k op : UInt8} {c c' : Cursor} {b : β} (hr : Reads r G)
    (hf : ∀ a bs, G a bs → H (f a) (k :: bs))
    (h : (r >>= fun a ↦ Pure.pure (f a)).run c = .ok b c') (hop : op.toNat = k.toNat) :
    ∃ bs, H b (op :: bs) ∧ c.Spans bs c' := by
  obtain ⟨bs, ⟨a, rfl, ha⟩, hspans⟩ := (hr.map f c b c').mp h
  exact ⟨bs, UInt8.toNat_inj.mp hop ▸ hf a bs ha, hspans⟩

theorem fixed_reads (n : Nat) : Reads (fixed n) (Grammar.fixed n) := by
  refine ((Reads.bytes n).map littleEndian).congr fun k bs ↦ ?_
  constructor
  · rintro ⟨bs, rfl, rfl, hlength⟩
    exact ⟨hlength, rfl⟩
  · rintro ⟨hlength, rfl⟩
    exact ⟨bs, rfl, rfl, hlength⟩

theorem memArg_reads : Reads memArg Grammar.memArg := by
  refine (varuint32_reads.bind fun align ↦
    varuint32_reads.map (MemArg.mk align)).congr fun arg bs ↦ ?_
  constructor
  · rintro ⟨_, align, offset, rfl, halign, _, rfl, hoffset⟩
    exact ⟨align, offset, rfl, halign, hoffset⟩
  · rintro ⟨align, offset, rfl, halign, hoffset⟩
    exact ⟨_, align, offset, rfl, halign, _, rfl, hoffset⟩

theorem reservedByte_reads (start : Nat) (place : ReservedIndex) :
    Reads (reservedByte start place) fun _ bs ↦ bs = [0] := by
  refine .congr (.bind .byte fun b ↦ .ite (.failAt _ _) (.pure ())) fun u bs ↦ ?_
  constructor
  · rintro ⟨b, _, _, rfl, rfl, ⟨-, hfalse⟩ | ⟨hb, -, rfl⟩⟩
    · exact hfalse.elim
    · rw [not_not.mp hb, List.append_nil]
  · rintro rfl
    exact ⟨0, [0], [], rfl, rfl, .inr ⟨by simp, rfl, rfl⟩⟩

theorem localDecl_reads : Reads localDecl Grammar.localDecl := by
  refine (varuint32_reads.bind fun n ↦
    valueType_reads.map fun t ↦ (n, t)).congr fun decl bs ↦ ?_
  constructor
  · rintro ⟨_, count, type, rfl, hcount, _, rfl, htype⟩
    exact ⟨count, type, rfl, hcount, htype⟩
  · rintro ⟨count, type, rfl, hcount, htype⟩
    exact ⟨_, count, type, rfl, hcount, _, rfl, htype⟩

theorem brTable_reads : Reads (do
    let depths ← vector varuint32
    let default ← varuint32
    return Instr.brTable depths default)
    fun i bs ↦ ∃ depths default bs₁ bs₂, i = .brTable depths default ∧ bs = bs₁ ++ bs₂ ∧
      Grammar.vector Grammar.unsigned depths bs₁ ∧ Grammar.unsigned default bs₂ := by
  refine .congr (.bind (vector_reads varuint32_reads) fun depths ↦
    varuint32_reads.map (Instr.brTable depths)) fun i bs ↦ ?_
  constructor
  · rintro ⟨depths, bs₁, bs₂, rfl, hdepths, default, rfl, hdefault⟩
    exact ⟨depths, default, bs₁, bs₂, rfl, rfl, hdepths, hdefault⟩
  · rintro ⟨depths, default, bs₁, bs₂, rfl, rfl, hdepths, hdefault⟩
    exact ⟨depths, bs₁, bs₂, rfl, hdepths, default, rfl, hdefault⟩

theorem callIndirect_reads (start : Nat) : Reads (do
    let type ← varuint32
    reservedByte start .callTable
    return Instr.callIndirect type)
    fun i bs ↦ ∃ type bs₁, i = .callIndirect type ∧ bs = bs₁ ++ [0] ∧
      Grammar.unsigned type bs₁ := by
  refine .congr (.bind varuint32_reads fun type ↦
    (reservedByte_reads start .callTable).map fun _ ↦ Instr.callIndirect type) fun i bs ↦ ?_
  constructor
  · rintro ⟨type, bs₁, _, rfl, htype, _, rfl, rfl⟩
    exact ⟨type, bs₁, rfl, rfl, htype⟩
  · rintro ⟨type, bs₁, rfl, rfl, htype⟩
    exact ⟨type, bs₁, [0], rfl, htype, (), rfl, rfl⟩

theorem eq_opcode_of_ofOpcode {n : Nat} {o : Operator} (h : Operator.ofOpcode n = some o) :
    n = o.opcode.toNat := by
  unfold Operator.ofOpcode at h
  split at h <;> cases h <;> rfl

/-- An opcode and what follows it make an instruction as the grammar has it. -/
theorem immediates_spell {start : Nat} {op : UInt8} {c c' : Cursor} {i : Instr}
    (h : (immediates start op.toNat).run c = .ok i c') :
    ∃ bs, Grammar.instr i (op :: bs) ∧ c.Spans bs c' := by
  have hplain {k : UInt8} {j : Instr} (hj : Grammar.instr j [k])
      (h : (pure j : Reader Instr).run c = .ok i c') (hop : op.toNat = k.toNat) :
      ∃ bs, Grammar.instr i (op :: bs) ∧ c.Spans bs c' := by
    obtain ⟨rfl, rfl⟩ := run_pure_eq_ok.mp h
    exact ⟨[], UInt8.toNat_inj.mp hop ▸ hj, spans_nil.mpr rfl⟩
  have hparsed {k : UInt8} {r : Reader Instr} {G : Grammar Instr} (hr : Reads r G)
      (hG : ∀ j bs, G j bs → Grammar.instr j (k :: bs)) (h : r.run c = .ok i c')
      (hop : op.toNat = k.toNat) : ∃ bs, Grammar.instr i (op :: bs) ∧ c.Spans bs c' := by
    obtain ⟨bs, hi, hspans⟩ := (hr c i c').mp h
    exact ⟨bs, UInt8.toNat_inj.mp hop ▸ hG i bs hi, hspans⟩
  generalize hn : op.toNat = n at h
  unfold immediates at h
  split at h
  · exact hplain .unreachable h hn
  · exact hplain .nop h hn
  · exact Reads.spells_map blockType_reads (fun _ _ ↦ .block) h hn
  · exact Reads.spells_map blockType_reads (fun _ _ ↦ .loop) h hn
  · exact Reads.spells_map blockType_reads (fun _ _ ↦ .conditional) h hn
  · exact hplain .otherwise h hn
  · exact hplain .close h hn
  · exact Reads.spells_map varuint32_reads (fun _ _ ↦ .br) h hn
  · exact Reads.spells_map varuint32_reads (fun _ _ ↦ .brIf) h hn
  · refine hparsed (k := 0x0e) brTable_reads ?_ h hn
    rintro _ _ ⟨depths, default, bs₁, bs₂, rfl, rfl, hdepths, hdefault⟩
    exact .brTable hdepths hdefault
  · exact hplain .ret h hn
  · exact Reads.spells_map varuint32_reads (fun _ _ ↦ .call) h hn
  · refine hparsed (k := 0x11) (callIndirect_reads start) ?_ h hn
    rintro _ _ ⟨type, bs₁, rfl, rfl, htype⟩
    exact .callIndirect htype
  · exact hplain .drop h hn
  · exact hplain .select h hn
  · exact Reads.spells_map varuint32_reads (fun _ _ ↦ .localGet) h hn
  · exact Reads.spells_map varuint32_reads (fun _ _ ↦ .localSet) h hn
  · exact Reads.spells_map varuint32_reads (fun _ _ ↦ .localTee) h hn
  · exact Reads.spells_map varuint32_reads (fun _ _ ↦ .globalGet) h hn
  · exact Reads.spells_map varuint32_reads (fun _ _ ↦ .globalSet) h hn
  · exact Reads.spells_map memArg_reads (fun _ _ ↦ .load) h hn
  · exact Reads.spells_map memArg_reads (fun _ _ ↦ .load) h hn
  · exact Reads.spells_map memArg_reads (fun _ _ ↦ .load) h hn
  · exact Reads.spells_map memArg_reads (fun _ _ ↦ .load) h hn
  · exact Reads.spells_map memArg_reads (fun _ _ ↦ .load) h hn
  · exact Reads.spells_map memArg_reads (fun _ _ ↦ .store) h hn
  · exact Reads.spells_map memArg_reads (fun _ _ ↦ .storeByte) h hn
  · exact Reads.spells_map memArg_reads (fun _ _ ↦ .storeHalf) h hn
  · refine Reads.spells_map (k := 0x3f) (reservedByte_reads start .memory) ?_ h hn
    rintro _ _ rfl
    exact .memorySize
  · refine Reads.spells_map (k := 0x40) (reservedByte_reads start .memory) ?_ h hn
    rintro _ _ rfl
    exact .memoryGrow
  · exact Reads.spells_map varint32_reads (fun _ _ hk ↦ .const (.i32 hk)) h hn
  · simp only [varint64, failAt, run_bind_eq_ok, run_throw_eq_ok, and_false, exists_false] at h
  · exact Reads.spells_map (fixed_reads 4) (fun _ _ hk ↦ .const (.f32 hk)) h hn
  · exact Reads.spells_map (fixed_reads 8) (fun _ _ hk ↦ .const (.f64 hk)) h hn
  · split at h
    · rename_i op hop
      exact hplain (.unary op) h (hn.trans (eq_opcode_of_ofOpcode hop))
    · rename_i op hop
      exact hplain (.binary op) h (hn.trans (eq_opcode_of_ofOpcode hop))
    · exact (run_throw_eq_ok.mp h).elim

/-- Whatever the grammar makes an instruction of is read as one. -/
theorem immediates_of_spelled {start : Nat} {op : UInt8} {c c' : Cursor} {i : Instr}
    {bs : List UInt8} (h : Grammar.instr i (op :: bs)) (hspans : c.Spans bs c') :
    (immediates start op.toNat).run c = .ok i c' := by
  have hread {α : Type} {r : Reader α} {G : Grammar α} {a : α} (f : α → Instr) (hr : Reads r G)
      (ha : G a bs) : (r >>= fun a ↦ pure (f a)).run c = .ok (f a) c' :=
    (hr.map f c _ c').mpr ⟨bs, ⟨a, rfl, ha⟩, hspans⟩
  have hplain (i : Instr) (hbs : bs = []) : (pure i : Reader Instr).run c = .ok i c' :=
    (Reads.pure i c i c').mpr ⟨bs, ⟨rfl, hbs⟩, hspans⟩
  cases h with
  | unreachable => exact hplain .unreachable rfl
  | nop => exact hplain .nop rfl
  | block h => exact hread .block blockType_reads h
  | loop h => exact hread .loop blockType_reads h
  | conditional h => exact hread .conditional blockType_reads h
  | otherwise => exact hplain .otherwise rfl
  | close => exact hplain .close rfl
  | br h => exact hread .br varuint32_reads h
  | brIf h => exact hread .brIf varuint32_reads h
  | brTable h h' => exact (brTable_reads c _ c').mpr ⟨_, ⟨_, _, _, _, rfl, rfl, h, h'⟩, hspans⟩
  | ret => exact hplain .ret rfl
  | call h => exact hread .call varuint32_reads h
  | callIndirect h =>
    exact (callIndirect_reads start c _ c').mpr ⟨_, ⟨_, _, rfl, rfl, h⟩, hspans⟩
  | drop => exact hplain .drop rfl
  | select => exact hplain .select rfl
  | localGet h => exact hread .localGet varuint32_reads h
  | localSet h => exact hread .localSet varuint32_reads h
  | localTee h => exact hread .localTee varuint32_reads h
  | globalGet h => exact hread .globalGet varuint32_reads h
  | globalSet h => exact hread .globalSet varuint32_reads h
  | @load access arg bs h => cases access <;> exact hread (.load _) memArg_reads h
  | store h => exact hread (.store .word) memArg_reads h
  | storeByte h => exact hread (.store .byteU) memArg_reads h
  | storeHalf h => exact hread (.store .halfU) memArg_reads h
  | memorySize => exact hread (a := ()) (fun _ ↦ .memorySize) (reservedByte_reads start .memory) rfl
  | memoryGrow => exact hread (a := ()) (fun _ ↦ .memoryGrow) (reservedByte_reads start .memory) rfl
  | const h =>
    cases h with
    | i32 h => exact hread (fun k ↦ .const (.i32 (BitVec.ofInt 32 k))) varint32_reads h
    | f32 h => exact hread (fun k ↦ .const (.f32 (BitVec.ofNat 32 k))) (fixed_reads 4) h
    | f64 h => exact hread (fun k ↦ .const (.f64 (BitVec.ofNat 64 k))) (fixed_reads 8) h
  | unary op => cases op <;> exact hplain (.unary _) rfl
  | binary op => cases op <;> exact hplain (.binary _) rfl

theorem instr_reads : Reads instr Grammar.instr := by
  have himmediates (start : Nat) (op : UInt8) :
      Reads (immediates start op.toNat) fun i bs ↦ Grammar.instr i (op :: bs) := by
    intro c i c'
    constructor
    · exact immediates_spell
    · rintro ⟨bs, h, hspans⟩
      exact immediates_of_spelled h hspans
  refine .located fun start ↦ .opcode (himmediates start) fun i h ↦ ?_
  cases h with
  | const h => cases h

theorem initializer_reads (start : Nat) : Reads (initializer start) Grammar.initializer := by
  refine .opcode (fun op ↦ ?_) fun e h ↦ ?_
  · intro c e c'
    constructor
    · intro h
      split at h
      · rename_i hop
        exact Reads.spells_map varint32_reads (fun _ _ hk ↦ .value (.i32 hk)) h hop
      · simp only [varint64, failAt, run_bind_eq_ok, run_throw_eq_ok, and_false, exists_false] at h
      · rename_i hop
        exact Reads.spells_map (fixed_reads 4) (fun _ _ hk ↦ .value (.f32 hk)) h hop
      · rename_i hop
        exact Reads.spells_map (fixed_reads 8) (fun _ _ hk ↦ .value (.f64 hk)) h hop
      · rename_i hop
        exact Reads.spells_map varuint32_reads (fun _ _ ↦ .globalGet) h hop
      · exact (run_throw_eq_ok.mp h).elim
    · rintro ⟨bs, h, hspans⟩
      have hread {α : Type} {r : Reader α} {G : Grammar α} {a : α} (f : α → ConstExpr)
          (hr : Reads r G) (ha : G a bs) : (r >>= fun a ↦ pure (f a)).run c = .ok (f a) c' :=
        (hr.map f c _ c').mpr ⟨bs, ⟨a, rfl, ha⟩, hspans⟩
      cases h with
      | value h =>
        cases h with
        | i32 h => exact hread (fun k ↦ .value (.i32 (BitVec.ofInt 32 k))) varint32_reads h
        | f32 h => exact hread (fun k ↦ .value (.f32 (BitVec.ofNat 32 k))) (fixed_reads 4) h
        | f64 h => exact hread (fun k ↦ .value (.f64 (BitVec.ofNat 64 k))) (fixed_reads 8) h
      | globalGet h => exact hread .globalGet varuint32_reads h
  · cases h with
    | value h => cases h

theorem constExpr_reads : Reads constExpr Grammar.constExpr := by
  refine .located fun start ↦ .congr (.bind (initializer_reads start) fun e ↦
    .bind .byte fun last ↦ .guard (.pure e)) fun e bs ↦ ?_
  constructor
  · rintro ⟨e, init, _, rfl, hinit, last, _, _, rfl, rfl, hlast, rfl, rfl⟩
    exact ⟨init, by simp [not_not.mp hlast], hinit⟩
  · rintro ⟨init, rfl, hinit⟩
    exact ⟨e, init, [0x0b], rfl, hinit, 0x0b, [0x0b], [], rfl, rfl, by simp, rfl, rfl⟩

end Reader

end WasmEngine
