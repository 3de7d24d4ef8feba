import WasmEngine.Proofs.Binary

/-!
# Canonical binaries

Every module has a canonical binary: sections in order, none that is empty, no padding, and every
number in its shortest form. A `Writer` gives the canonical spelling for a grammar, together with
the proof that it is one, and says which values fit the format: numbers and lengths must have 32
bits, and some instructions have no opcode. What is written for a well-formed module that fits is
decoded to that module.
-/

namespace WasmEngine

/-- The canonical spelling of the values that fit the format. -/
structure Writer {α : Type} (G : Grammar α) where
  write : α → List UInt8
  Fits : α → Prop
  decidableFits : DecidablePred Fits := by infer_instance
  spells : ∀ a, Fits a → G a (write a)

namespace Writer

open Reader

instance {α : Type} {G : Grammar α} (W : Writer G) : DecidablePred W.Fits := W.decidableFits

/-! ## Numbers -/

def unsignedBytes : Nat → Nat → List UInt8
  | 0, k => [UInt8.ofNat k]
  | n + 1, k =>
    if k < 128 then [UInt8.ofNat k] else UInt8.ofNat (k % 128 + 128) :: unsignedBytes n (k / 128)

def signedBytes : Nat → Int → List UInt8
  | 0, i => [UInt8.ofNat (i % 128).toNat]
  | n + 1, i =>
    if -64 ≤ i ∧ i < 64 then [UInt8.ofNat (i % 128).toNat]
    else UInt8.ofNat ((i % 128).toNat + 128) :: signedBytes n (i / 128)

/-- How far numbers reach in `n + 1` bytes, when the last digit is below `last`. -/
def groupsLimit (last : Nat) : Nat → Nat
  | 0 => last
  | n + 1 => 128 * groupsLimit last n

theorem toNat_ofNat {k : Nat} (h : k < 256) : (UInt8.ofNat k).toNat = k := by
  rw [UInt8.toNat_ofNat', Nat.mod_eq_of_lt h]

theorem unsignedBytes_spell {n k : Nat} (h : k < groupsLimit 16 n) :
    Grammar.varint (fun b ↦ b.toNat) (fun b ↦ b.toNat < 16) n k (unsignedBytes n k) := by
  induction n generalizing k with
  | zero =>
    have hk : k < 16 := h
    have htoNat : (UInt8.ofNat k).toNat = k := toNat_ofNat (by omega)
    refine varint_zero.mpr ⟨_, rfl, continues_eq_false.mpr ?_, ?_, ?_⟩
    · omega
    · omega
    · rw [htoNat]
  | succ n ih =>
    rw [varint_succ, unsignedBytes]
    split
    · rename_i hsmall
      have htoNat : (UInt8.ofNat k).toNat = k := toNat_ofNat (by omega)
      exact .inl ⟨_, rfl, continues_eq_false.mpr (by omega), by rw [htoNat]⟩
    · have htoNat : (UInt8.ofNat (k % 128 + 128)).toNat = k % 128 + 128 := toNat_ofNat (by omega)
      have hcontinues : continues (UInt8.ofNat (k % 128 + 128)) = true := by
        rw [continues, htoNat]
        simp
      have hgroup : group (UInt8.ofNat (k % 128 + 128)) = k % 128 := by
        rw [group, htoNat]
        omega
      have hrest : k / 128 < groupsLimit 16 n := by
        rw [groupsLimit] at h
        omega
      refine .inr ⟨_, _, _, rfl, hcontinues, ih hrest, ?_⟩
      rw [hgroup]
      omega

theorem lastByte_signed {i : Int} (hi : -64 ≤ i ∧ i < 64) :
    (UInt8.ofNat (i % 128).toNat).toNat = (i % 128).toNat ∧
      continues (UInt8.ofNat (i % 128).toNat) = false ∧
      i = signedGroup (UInt8.ofNat (i % 128).toNat) := by
  have htoNat : (UInt8.ofNat (i % 128).toNat).toNat = (i % 128).toNat := toNat_ofNat (by omega)
  refine ⟨htoNat, continues_eq_false.mpr (by omega), ?_⟩
  rw [signedGroup, group, htoNat]
  split <;> omega

theorem signedBytes_spell {n : Nat} {i : Int}
    (h : -(groupsLimit 8 n : Int) ≤ i ∧ i < groupsLimit 8 n) :
    Grammar.varint signedGroup (fun b ↦ b.toNat < 8 ∨ 120 ≤ b.toNat) n i (signedBytes n i) := by
  induction n generalizing i with
  | zero =>
    have hi : -8 ≤ i ∧ i < 8 := h
    obtain ⟨htoNat, hcontinues, hvalue⟩ := lastByte_signed (i := i) (by omega)
    exact varint_zero.mpr ⟨_, rfl, hcontinues, by omega, hvalue⟩
  | succ n ih =>
    rw [varint_succ, signedBytes]
    split
    · rename_i hsmall
      obtain ⟨-, hcontinues, hvalue⟩ := lastByte_signed hsmall
      exact .inl ⟨_, rfl, hcontinues, hvalue⟩
    · have htoNat : (UInt8.ofNat ((i % 128).toNat + 128)).toNat = (i % 128).toNat + 128 :=
        toNat_ofNat (by omega)
      have hcontinues : continues (UInt8.ofNat ((i % 128).toNat + 128)) = true := by
        rw [continues, htoNat]
        simp
      have hgroup : group (UInt8.ofNat ((i % 128).toNat + 128)) = (i % 128).toNat := by
        rw [group, htoNat]
        omega
      have hrest : -(groupsLimit 8 n : Int) ≤ i / 128 ∧ i / 128 < groupsLimit 8 n := by
        rw [groupsLimit] at h
        omega
      refine .inr ⟨_, _, _, rfl, hcontinues, ih hrest, ?_⟩
      rw [hgroup]
      omega

def unsigned : Writer Grammar.unsigned where
  write := unsignedBytes 4
  Fits k := k < 4294967296
  spells _ h := unsignedBytes_spell h

def signed : Writer Grammar.signed where
  write := signedBytes 4
  Fits i := -2147483648 ≤ i ∧ i < 2147483648
  spells _ h := signedBytes_spell h

def fixedBytes : Nat → Nat → List UInt8
  | 0, _ => []
  | n + 1, k => UInt8.ofNat (k % 256) :: fixedBytes n (k / 256)

def fixedLimit : Nat → Nat
  | 0 => 1
  | n + 1 => 256 * fixedLimit n

def fixed (n : Nat) : Writer (Grammar.fixed n) where
  write := fixedBytes n
  Fits k := k < fixedLimit n
  spells k h := by
    induction n generalizing k with
    | zero => exact ⟨rfl, (Nat.lt_one_iff.mp h).symm⟩
    | succ n ih =>
      rw [fixedLimit] at h
      obtain ⟨hlength, hvalue⟩ := ih (k / 256) (by omega)
      refine ⟨by rw [fixedBytes, List.length_cons, hlength], ?_⟩
      rw [fixedBytes, littleEndian, hvalue, toNat_ofNat (by omega)]
      omega

/-! ## Sequences, names and types -/

section

variable {α : Type} {G : Grammar α} (W : Writer G)

theorem items_spell (as : List α) (h : ∀ a ∈ as, W.Fits a) :
    Grammar.items G as (as.flatMap W.write) := by
  induction as with
  | nil => exact .nil
  | cons a as ih =>
    obtain ⟨ha, has⟩ := List.forall_mem_cons.mp h
    exact .cons (W.spells a ha) (ih has)

def vector : Writer (Grammar.vector G) where
  write as := unsigned.write as.length ++ as.flatMap W.write
  Fits as := unsigned.Fits as.length ∧ ∀ a ∈ as, W.Fits a
  spells as h := ⟨_, _, rfl, unsigned.spells _ h.1, W.items_spell as h.2⟩

end

def byteString : Writer Grammar.byteString where
  write bytes := unsigned.write bytes.length ++ bytes
  Fits bytes := unsigned.Fits bytes.length
  spells _ h := ⟨_, rfl, unsigned.spells _ h⟩

def name : Writer Grammar.name where
  write s := byteString.write s.toUTF8.data.toList
  Fits s := byteString.Fits s.toUTF8.data.toList
  spells _ h := byteString.spells _ h

def valueType : Writer Grammar.valueType where
  write t := signed.write (Grammar.tag t)
  Fits _ := True
  spells t _ := signed.spells _ (by cases t <;> decide)

def blockType : Writer Grammar.blockType where
  write
    | none => signed.write (-0x40)
    | some t => valueType.write t
  Fits _ := True
  spells
    | none, _ => signed.spells _ (by decide)
    | some t, h => valueType.spells t h

def limits : Writer Grammar.limits where
  write
    | ⟨n, none⟩ => unsigned.write 0 ++ unsigned.write n
    | ⟨n, some k⟩ => unsigned.write 1 ++ (unsigned.write n ++ unsigned.write k)
  Fits l := unsigned.Fits l.min ∧ ∀ k ∈ l.max, unsigned.Fits k
  spells
    | ⟨_, none⟩, h => .unbounded (unsigned.spells 0 (by decide)) (unsigned.spells _ h.1)
    | ⟨_, some _⟩, h => .bounded (unsigned.spells 1 (by decide)) (unsigned.spells _ h.1)
        (unsigned.spells _ (h.2 _ rfl))

def funcType : Writer Grammar.funcType where
  write
    | ⟨params, []⟩ => signed.write (-0x20) ++ (valueType.vector.write params ++ unsigned.write 0)
    | ⟨params, t :: _⟩ => signed.write (-0x20) ++
        (valueType.vector.write params ++ (unsigned.write 1 ++ valueType.write t))
  Fits type := type.results.length ≤ 1 ∧ unsigned.Fits type.params.length
  spells
    | ⟨_, []⟩, h => .nothing (signed.spells _ (by decide))
        (valueType.vector.spells _ ⟨h.2, fun _ _ ↦ trivial⟩) (unsigned.spells 0 (by decide))
    | ⟨_, [t]⟩, h => .value (signed.spells _ (by decide))
        (valueType.vector.spells _ ⟨h.2, fun _ _ ↦ trivial⟩) (unsigned.spells 1 (by decide))
        (valueType.spells t trivial)

def tableType : Writer Grammar.tableType where
  write l := signed.write (-0x10) ++ limits.write l
  Fits := limits.Fits
  spells l h := ⟨_, _, rfl, signed.spells _ (by decide), limits.spells l h⟩

def globalType : Writer Grammar.globalType where
  write g := valueType.write g.type ++ unsigned.write g.isMutable.toNat
  Fits _ := True
  spells g _ := ⟨_, _, rfl, valueType.spells _ trivial, unsigned.spells _ (by
    cases g.isMutable <;> decide)⟩

/-! ## Instructions -/

end Writer

/-- A store keeps the low bytes of a word, so it has no signed forms. -/
def Access.storeOpcode? : Access → Option UInt8
  | word => some 0x36
  | byteU => some 0x3a
  | halfU => some 0x3b
  | byteS | halfS => none

namespace Writer

/-- There is no spelling for integers of 64 bits. -/
def constant : Writer Grammar.constant where
  write
    | .i32 w => 0x41 :: signed.write w.toInt
    | .i64 _ => []
    | .f32 w => 0x43 :: (fixed 4).write w.toNat
    | .f64 w => 0x44 :: (fixed 8).write w.toNat
  Fits v := v.type ≠ .i64
  spells
    | .i32 w, _ => by
      have hrange : signed.Fits w.toInt := ⟨w.le_toInt, w.toInt_lt⟩
      have hspelled := Grammar.constant.i32 (signed.spells _ hrange)
      rwa [BitVec.ofInt_toInt] at hspelled
    | .i64 _, h => absurd rfl h
    | .f32 w, _ => by
      have hspelled := Grammar.constant.f32 ((fixed 4).spells _ w.isLt)
      rwa [BitVec.ofNat_toNat, BitVec.setWidth_eq] at hspelled
    | .f64 w, _ => by
      have hspelled := Grammar.constant.f64 ((fixed 8).spells _ w.isLt)
      rwa [BitVec.ofNat_toNat, BitVec.setWidth_eq] at hspelled

def memArg : Writer Grammar.memArg where
  write arg := unsigned.write arg.align ++ unsigned.write arg.offset
  Fits arg := unsigned.Fits arg.align ∧ unsigned.Fits arg.offset
  spells _ h := ⟨_, _, rfl, unsigned.spells _ h.1, unsigned.spells _ h.2⟩

def instr : Writer Grammar.instr where
  write
    | .unreachable => [0x00]
    | .nop => [0x01]
    | .block r => 0x02 :: blockType.write r
    | .loop r => 0x03 :: blockType.write r
    | .conditional r => 0x04 :: blockType.write r
    | .otherwise => [0x05]
    | .close => [0x0b]
    | .br depth => 0x0c :: unsigned.write depth
    | .brIf depth => 0x0d :: unsigned.write depth
    | .brTable depths default => 0x0e :: (unsigned.vector.write depths ++ unsigned.write default)
    | .ret => [0x0f]
    | .call func => 0x10 :: unsigned.write func
    | .callIndirect type => 0x11 :: (unsigned.write type ++ [0])
    | .drop => [0x1a]
    | .select => [0x1b]
    | .localGet index => 0x20 :: unsigned.write index
    | .localSet index => 0x21 :: unsigned.write index
    | .localTee index => 0x22 :: unsigned.write index
    | .globalGet index => 0x23 :: unsigned.write index
    | .globalSet index => 0x24 :: unsigned.write index
    | .load access arg => Grammar.loadOpcode access :: memArg.write arg
    | .store access arg => access.storeOpcode?.toList ++ memArg.write arg
    | .memorySize => [0x3f, 0]
    | .memoryGrow => [0x40, 0]
    | .const v => constant.write v
    | .unary op => [op.opcode]
    | .binary op => [op.opcode]
  Fits
    | .br depth | .brIf depth => unsigned.Fits depth
    | .brTable depths default => unsigned.vector.Fits depths ∧ unsigned.Fits default
    | .call func => unsigned.Fits func
    | .callIndirect type => unsigned.Fits type
    | .localGet index | .localSet index | .localTee index | .globalGet index
    | .globalSet index => unsigned.Fits index
    | .load _ arg => memArg.Fits arg
    | .store access arg => access.storeOpcode? ≠ none ∧ memArg.Fits arg
    | .const v => constant.Fits v
    | _ => True
  decidableFits i := by cases i <;> infer_instance
  spells i h := by
    cases i with
    | unreachable => exact .unreachable
    | nop => exact .nop
    | block r => exact .block (blockType.spells r trivial)
    | loop r => exact .loop (blockType.spells r trivial)
    | conditional r => exact .conditional (blockType.spells r trivial)
    | otherwise => exact .otherwise
    | close => exact .close
    | br depth => exact .br (unsigned.spells depth h)
    | brIf depth => exact .brIf (unsigned.spells depth h)
    | brTable depths default =>
      exact .brTable (unsigned.vector.spells depths h.1) (unsigned.spells default h.2)
    | ret => exact .ret
    | call func => exact .call (unsigned.spells func h)
    | callIndirect type => exact .callIndirect (unsigned.spells type h)
    | drop => exact .drop
    | select => exact .select
    | localGet index => exact .localGet (unsigned.spells index h)
    | localSet index => exact .localSet (unsigned.spells index h)
    | localTee index => exact .localTee (unsigned.spells index h)
    | globalGet index => exact .globalGet (unsigned.spells index h)
    | globalSet index => exact .globalSet (unsigned.spells index h)
    | load access arg => exact .load (memArg.spells arg h)
    | store access arg =>
      cases access with
      | word => exact .store (memArg.spells arg h.2)
      | byteU => exact .storeByte (memArg.spells arg h.2)
      | halfU => exact .storeHalf (memArg.spells arg h.2)
      | byteS => exact absurd rfl h.1
      | halfS => exact absurd rfl h.1
    | memorySize => exact .memorySize
    | memoryGrow => exact .memoryGrow
    | const v => exact .const (constant.spells v h)
    | unary op => exact .unary op
    | binary op => exact .binary op

def initializer : Writer Grammar.initializer where
  write
    | .value v => constant.write v
    | .globalGet index => 0x23 :: unsigned.write index
  Fits
    | .value v => constant.Fits v
    | .globalGet index => unsigned.Fits index
  decidableFits e := by cases e <;> infer_instance
  spells
    | .value v, h => .value (constant.spells v h)
    | .globalGet index, h => .globalGet (unsigned.spells index h)

def constExpr : Writer Grammar.constExpr where
  write e := initializer.write e ++ [0x0b]
  Fits := initializer.Fits
  spells e h := ⟨_, rfl, initializer.spells e h⟩

def localDecl : Writer Grammar.localDecl where
  write decl := unsigned.write decl.1 ++ valueType.write decl.2
  Fits decl := unsigned.Fits decl.1
  spells _ h := ⟨_, _, rfl, unsigned.spells _ h, valueType.spells _ trivial⟩

/-! ## Entries -/

def importDesc : Writer Grammar.importDesc where
  write
    | .func t => 0 :: unsigned.write t
    | .table l => 1 :: tableType.write l
    | .memory l => 2 :: limits.write l
    | .global g => 3 :: globalType.write g
  Fits
    | .func t => unsigned.Fits t
    | .table l => tableType.Fits l
    | .memory l => limits.Fits l
    | .global g => globalType.Fits g
  decidableFits desc := by cases desc <;> infer_instance
  spells
    | .func t, h => .func (unsigned.spells t h)
    | .table l, h => .table (tableType.spells l h)
    | .memory l, h => .memory (limits.spells l h)
    | .global g, h => .global (globalType.spells g h)

def importEntry : Writer Grammar.importEntry where
  write i := name.write i.module ++ (name.write i.name ++ importDesc.write i.desc)
  Fits i := name.Fits i.module ∧ name.Fits i.name ∧ importDesc.Fits i.desc
  spells _ h := ⟨_, _, _, rfl, name.spells _ h.1, name.spells _ h.2.1, importDesc.spells _ h.2.2⟩

def globalDecl : Writer Grammar.globalDecl where
  write g := globalType.write g.type ++ constExpr.write g.init
  Fits g := constExpr.Fits g.init
  spells _ h := ⟨_, _, rfl, globalType.spells _ trivial, constExpr.spells _ h⟩

def exportEntry : Writer Grammar.exportEntry where
  write e := name.write e.name ++ (Grammar.kindByte e.kind :: unsigned.write e.index)
  Fits e := name.Fits e.name ∧ unsigned.Fits e.index
  spells _ h := ⟨_, _, rfl, name.spells _ h.1, unsigned.spells _ h.2⟩

def element : Writer Grammar.element where
  write seg := unsigned.write 0 ++ (constExpr.write seg.offset ++ unsigned.vector.write seg.funcs)
  Fits seg := constExpr.Fits seg.offset ∧ unsigned.vector.Fits seg.funcs
  spells _ h := ⟨_, _, _, rfl, unsigned.spells 0 (by decide), constExpr.spells _ h.1,
    unsigned.vector.spells _ h.2⟩

def data : Writer Grammar.data where
  write seg := unsigned.write 0 ++ (constExpr.write seg.offset ++ byteString.write seg.bytes)
  Fits seg := constExpr.Fits seg.offset ∧ byteString.Fits seg.bytes
  spells _ h := ⟨_, _, _, rfl, unsigned.spells 0 (by decide), constExpr.spells _ h.1,
    byteString.spells _ h.2⟩

end Writer

/-! ## Modules -/

/-- A function body as it is written: its local declarations, and its instructions up to the end. -/
structure Body where
  decls : List (Nat × ValueType)
  instrs : List Instr

namespace Body

open Writer

def bytes (b : Body) : List UInt8 :=
  localDecl.vector.write b.decls ++ (b.instrs ++ [Instr.close]).flatMap instr.write

def Fits (b : Body) : Prop := localDecl.vector.Fits b.decls ∧ ∀ i ∈ b.instrs, instr.Fits i

instance : DecidablePred Fits := fun b ↦
  inferInstanceAs (Decidable (localDecl.vector.Fits b.decls ∧ ∀ i ∈ b.instrs, instr.Fits i))

/-- The body compiles to the code against the declarations of the module. -/
def CompilesTo (config : Config) (m : Module) (code : Code) (b : Body) : Prop :=
  code.Compiled config m.declarations code.type b.decls (b.instrs ++ [Instr.close])

theorem spells {config : Config} {m : Module} {code : Code} {b : Body}
    (hfits : b.Fits ∧ byteString.Fits b.bytes) (h : b.CompilesTo config m code) :
    Grammar.body config m.declarations code (byteString.write b.bytes) := by
  have hinstrs : ∀ i ∈ b.instrs ++ [Instr.close], instr.Fits i :=
    List.forall_mem_append.mpr ⟨hfits.1.2, List.forall_mem_singleton.mpr trivial⟩
  refine ⟨_, localDecl.vector.write b.decls, (b.instrs ++ [Instr.close]).flatMap instr.write, [],
    b.decls, b.instrs ++ [Instr.close], ?_, unsigned.spells _ ?_,
    localDecl.vector.spells _ hfits.1.1, instr.items_spell _ hinstrs, h⟩
  · rw [List.append_nil]
    rfl
  · rw [List.append_nil]
    exact hfits.2

end Body

/-- The sections that are not custom, in their order. -/
def SectionId.ordered : List SectionId :=
  [type, imports, function, table, memory, global, exports, start, element, code, data]

theorem SectionId.mem_ordered {id : SectionId} (h : id ≠ .custom) : id ∈ ordered := by
  cases id with
  | custom => exact absurd rfl h
  | _ => decide

namespace Module

open Writer

variable (m : Module) (bodies : List Body)

instance : DecidablePred m.EmptyAt := fun id ↦ by
  cases id <;> dsimp only [EmptyAt] <;> infer_instance

def payloadBytes : SectionId → List UInt8
  | .custom => []
  | .type => funcType.vector.write m.types
  | .imports => Writer.importEntry.vector.write m.imports
  | .function => unsigned.vector.write m.funcs
  | .table => tableType.vector.write m.tables
  | .memory => limits.vector.write m.memories
  | .global => globalDecl.vector.write m.globals
  | .exports => Writer.exportEntry.vector.write m.exports
  | .start => (m.start.map unsigned.write).getD []
  | .element => element.vector.write m.elements
  | .code => unsigned.write bodies.length ++ bodies.flatMap fun b ↦ byteString.write b.bytes
  | .data => Writer.data.vector.write m.data

def PayloadFits : SectionId → Prop
  | .custom => True
  | .type => funcType.vector.Fits m.types
  | .imports => Writer.importEntry.vector.Fits m.imports
  | .function => unsigned.vector.Fits m.funcs
  | .table => tableType.vector.Fits m.tables
  | .memory => limits.vector.Fits m.memories
  | .global => globalDecl.vector.Fits m.globals
  | .exports => Writer.exportEntry.vector.Fits m.exports
  | .start => ∀ index ∈ m.start, unsigned.Fits index
  | .element => element.vector.Fits m.elements
  | .code => unsigned.Fits bodies.length ∧ ∀ b ∈ bodies, b.Fits ∧ byteString.Fits b.bytes
  | .data => Writer.data.vector.Fits m.data

instance : DecidablePred (m.PayloadFits bodies) := fun id ↦ by
  cases id <;> dsimp only [PayloadFits] <;> infer_instance

/-- The module can be written: its numbers, counts and lengths have 32 bits, and what it holds has a
spelling. -/
structure Fits : Prop where
  payload : ∀ id, m.PayloadFits bodies id
  size : ∀ id, byteString.Fits (m.payloadBytes bodies id)

/-- The canonical binary of a module whose functions have the given bodies. -/
def encode : List UInt8 :=
  preambleBytes ++ (SectionId.ordered.filter (¬m.EmptyAt ·)).flatMap fun id ↦
    unsigned.write id.number ++ byteString.write (m.payloadBytes bodies id)

variable {m bodies} {config : Config}

theorem bodies_spell (h : List.Forall₂ (fun code b ↦ b.CompilesTo config m code) m.code bodies)
    (hfits : ∀ b ∈ bodies, b.Fits ∧ byteString.Fits b.bytes) :
    Grammar.items (Grammar.body config m.declarations) m.code
      (bodies.flatMap fun b ↦ byteString.write b.bytes) := by
  generalize m.code = codes at h
  induction h with
  | nil => exact .nil
  | cons hcode _ ih =>
    obtain ⟨hfirst, hrest⟩ := List.forall_mem_cons.mp hfits
    exact .cons (Body.spells hfirst hcode) (ih hrest)

theorem payload_spells (hfits : m.Fits bodies)
    (hbodies : List.Forall₂ (fun code b ↦ b.CompilesTo config m code) m.code bodies)
    {id : SectionId} (hempty : ¬m.EmptyAt id) :
    m.Payload config id (m.payloadBytes bodies id) := by
  have hpayload := hfits.payload id
  cases id with
  | custom => trivial
  | type => exact funcType.vector.spells _ hpayload
  | imports => exact Writer.importEntry.vector.spells _ hpayload
  | function => exact unsigned.vector.spells _ hpayload
  | table => exact tableType.vector.spells _ hpayload
  | memory => exact limits.vector.spells _ hpayload
  | global => exact globalDecl.vector.spells _ hpayload
  | exports => exact Writer.exportEntry.vector.spells _ hpayload
  | start =>
    obtain ⟨index, hindex⟩ := Option.ne_none_iff_exists'.mp hempty
    refine ⟨index, hindex, ?_⟩
    rw [payloadBytes, hindex]
    exact unsigned.spells index (hpayload index hindex)
  | element => exact element.vector.spells _ hpayload
  | code =>
    refine ⟨_, _, rfl, ?_, bodies_spell hbodies hpayload.2⟩
    rw [hbodies.length_eq]
    exact unsigned.spells _ hpayload.1
  | data => exact Writer.data.vector.spells _ hpayload

/-- The canonical binary of a well-formed module is decoded to the module. -/
theorem decode_encode_eq_ok (hm : m.WellFormed config) (hfits : m.Fits bodies)
    (hbodies : List.Forall₂ (fun code b ↦ b.CompilesTo config m code) m.code bodies) :
    decode config (m.encode bodies) = .ok m := by
  let frame (id : SectionId) : SectionFrame :=
    ⟨id, unsigned.write id.number, unsigned.write (m.payloadBytes bodies id).length,
      m.payloadBytes bodies id, unsigned.spells _ (Nat.lt_of_le_of_lt id.number_le (by decide)),
      unsigned.spells _ (hfits.size id)⟩
  have hsorted : SectionId.ordered.Pairwise (·.number < ·.number) := by decide
  refine decode_eq_ok_iff.mpr ⟨⟨(SectionId.ordered.filter (¬m.EmptyAt ·)).map frame, ?_, ?_⟩, hm⟩
  · rw [encode, List.flatMap_map]
    rfl
  · refine ⟨?_, ?_, fun id hid ↦ ?_⟩
    · refine List.Pairwise.filter _ (List.pairwise_map.mpr ?_)
      exact hsorted.filter _
    · intro f hf
      obtain ⟨id, hid, rfl⟩ := List.mem_map.mp hf
      have hempty : ¬m.EmptyAt id := by simpa using (List.mem_filter.mp hid).2
      exact ⟨_, [], (List.append_nil _).symm, payload_spells hfits hbodies hempty⟩
    · by_contra hempty
      have hcustom : id ≠ .custom := fun h ↦ hempty (h ▸ trivial)
      have hmem : id ∈ SectionId.ordered.filter (¬m.EmptyAt ·) :=
        List.mem_filter.mpr ⟨SectionId.mem_ordered hcustom, by simpa using hempty⟩
      exact hid (frame id) (List.mem_map_of_mem hmem) rfl

/-- The decoder recognises the grammar: it gives a module just for the binaries that spell it, if it
is well formed, and so it undoes the canonical spelling. -/
theorem decode_recognizes (config : Config) :
    (∀ bytes m, decode config bytes = .ok m ↔
      (∃ fs, bytes = preambleBytes ++ fs.flatMap SectionFrame.bytes ∧ m.SpelledBy config fs) ∧
        m.WellFormed config) ∧
    ∀ m bodies, m.WellFormed config → m.Fits bodies →
      List.Forall₂ (fun code b ↦ b.CompilesTo config m code) m.code bodies →
      decode config (m.encode bodies) = .ok m :=
  ⟨fun _ _ ↦ decode_eq_ok_iff, fun _ _ ↦ decode_encode_eq_ok⟩

/-- A module with a function that returns its argument, and a memory. -/
def sampleModule : Module where
  types := [⟨[.i32], [.i32]⟩]
  funcs := [0]
  memories := [⟨1, some 2⟩]
  exports := [⟨"id", .func, 0⟩]
  code := [{
    type := ⟨[.i32], [.i32]⟩
    locals := [.i32, .i64]
    body := [.copy (.stack .i32 0) (.local 0), .ret (some (.stack .i32 0))]
    localSlots := Lanes.count [.i32, .i64]
    stackSlots := Lanes.count [.i32] }]
  data := [⟨.value (.i32 5), [0x68, 0x69]⟩]

def sampleBody : Body := ⟨[(1, .i64)], [.localGet 0]⟩

/-- The module satisfies all the conditions and comes back from its canonical binary. -/
theorem sampleModule_recognized :
    sampleModule.WellFormed {} ∧ sampleModule.Fits [sampleBody] ∧
      List.Forall₂ (fun code b ↦ b.CompilesTo {} sampleModule code) sampleModule.code
        [sampleBody] ∧
      decode {} (sampleModule.encode [sampleBody]) = .ok sampleModule := by
  have hm : sampleModule.WellFormed {} := by
    constructor
    case counted => rfl
    case bodies => exact .cons rfl .nil
    all_goals simp [sampleModule, funcSpace, tableSpace, memorySpace, importedFuncs,
      importedTables, importedMemories, spaceSize, ConstExpr.HasType, Limits.Ordered,
      Limits.Addressable, Value.type, maxPages]
  have hfits : sampleModule.Fits [sampleBody] := by
    constructor <;> intro id <;> cases id <;> decide +kernel
  have hbodies : List.Forall₂ (fun code b ↦ b.CompilesTo {} sampleModule code)
      sampleModule.code [sampleBody] := by
    refine .cons ⟨rfl, rfl, rfl, by decide, ?_⟩ .nil
    exact @Compiles.step _ _ _ 0 _ _ _ (by decide) rfl
      (@Compiles.finish _ _ ⟨_, [], Lanes.count [.i32]⟩ 0 _ rfl rfl)
  exact ⟨hm, hfits, hbodies, (decode_recognizes {}).2 _ _ hm hfits hbodies⟩

end Module

end WasmEngine
