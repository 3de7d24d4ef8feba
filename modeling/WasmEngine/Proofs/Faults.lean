import WasmEngine.Module.Section
import WasmEngine.Proofs.Effects

/-!
# Faults of framing

Three faults are about the frames of sections: a number that no section has, a section out of
order, and entries that reach beyond the end of their section. Nothing that is read inside a frame
reports one of them. As for any condition on errors, it is enough that it holds of each fault that
a reader, or a step of the compilation, names.
-/

namespace WasmEngine

/-- The fault is about the frame of a section, not about what is in it. -/
def Fault.isFraming : Fault → Bool
  | .unknownSection _ | .sectionOrder _ _ | .sectionOverrun _ _ => true
  | _ => false

def DecodeError.isFraming : DecodeError → Bool
  | .located _ fault => fault.isFraming
  | _ => false

/-- Whatever error the program ends with, it is not about the frame of a section. -/
def Inner {σ α : Type} (x : EStateM DecodeError σ α) : Prop :=
  ∀ s, Ensures x s (fun _ _ ↦ True) fun e _ ↦ e.isFraming = false

namespace Inner

variable {σ α β : Type}

theorem pure (a : α) : Inner (pure a : EStateM DecodeError σ α) := fun _ ↦ .pure trivial

/-- What is thrown has to be an error of the contents. -/
theorem throw {e : DecodeError} (h : e.isFraming = false) :
    Inner (throw e : EStateM DecodeError σ α) :=
  fun _ ↦ .throw h

/-- A program is free of framing errors if its parts are, whatever the first part gives. -/
theorem bind {x : EStateM DecodeError σ α} {f : α → EStateM DecodeError σ β} (hx : Inner x)
    (hf : ∀ a, Inner (f a)) : Inner (x >>= f) :=
  fun s ↦ .bind (hx s) fun a t _ ↦ hf a t

theorem ite {p : Prop} [Decidable p] {x y : EStateM DecodeError σ α} (hx : Inner x)
    (hy : Inner y) : Inner (if p then x else y) :=
  fun s ↦ .ite (fun _ ↦ hx s) fun _ ↦ hy s

/-- A check that fails under the condition `p`, and then the rest. -/
theorem guard {p : Prop} [Decidable p] {e : DecodeError} {f : Unit → EStateM DecodeError σ α}
    (h : e.isFraming = false) (hf : Inner (f ())) :
    Inner (if p then MonadExcept.throw e >>= f else f ()) :=
  ite (bind (throw h) fun _ ↦ hf) hf

/-- Looking at the state cannot fail. -/
theorem get_bind {f : σ → EStateM DecodeError σ α} (hf : ∀ s, Inner (f s)) :
    Inner (get >>= f) :=
  fun s ↦ hf s s

theorem set (s : σ) : Inner (set s : EStateM DecodeError σ PUnit) := fun _ ↦ trivial

theorem modify (f : σ → σ) : Inner (modify f : EStateM DecodeError σ PUnit) := fun _ ↦ trivial

theorem modifyGet (f : σ → α × σ) : Inner (modifyGet f : EStateM DecodeError σ α) :=
  fun _ ↦ trivial

end Inner

namespace Reader

variable {α : Type}

/-- A reader that reports a fault of the contents does so at any place. -/
theorem failAt_inner {pos : Nat} {fault : Fault} (h : fault.isFraming = false) :
    Inner (failAt pos fault : Reader α) :=
  .throw h

theorem offset_inner : Inner offset := .get_bind fun c ↦ .pure c.offset

theorem endOfInput_inner : Inner (endOfInput : Reader α) := fun _ ↦ rfl

/-- The end of the input is not an error of framing: it is reported from inside a section, too. -/
theorem byte_inner : Inner byte := by
  rintro ⟨pos, rest⟩
  cases rest with
  | nil => exact endOfInput_inner (α := UInt8) _
  | cons b rest => trivial

/-- A string that is longer than the input runs into its end. -/
theorem bytes_inner (n : Nat) : Inner (bytes n) := by
  intro c
  by_cases hn : n ≤ c.remaining
  · have hrun : (bytes n).run c = .ok (c.rest.take n) (c.advance n) := if_pos hn
    rw [Ensures, hrun]
    trivial
  · have hrun : (bytes n).run c = endOfInput.run c := if_neg hn
    rw [Ensures, hrun]
    exact endOfInput_inner (α := List UInt8) c

theorem fixed_inner (n : Nat) : Inner (fixed n) := .bind (bytes_inner n) fun _ ↦ .pure _

/-- A part of the input is cut off like a string of bytes. -/
theorem sub_inner (n : Nat) : Inner (sub n) :=
  .get_bind fun _ ↦ .bind (bytes_inner n) fun _ ↦ .pure _

/-- An error in a frame of its own is reported as it is. -/
theorem within_inner {r : Reader α} (hr : Inner r) (inner : Cursor) : Inner (within inner r) := by
  intro c
  have hinner := hr inner
  unfold Ensures at hinner ⊢
  simp only [within, EStateM.run] at hinner ⊢
  cases hrun : r inner with
  | ok a c' => trivial
  | error e c' =>
    rw [hrun] at hinner
    exact hinner

/-- Items one after the other, by induction on how many are to come. -/
theorem repeated_inner {item : Reader α} (hitem : Inner item) (n : Nat) :
    Inner (repeated item n) := by
  induction n with
  | zero => exact .pure []
  | succ n ih => exact .bind hitem fun a ↦ .bind ih fun as ↦ .pure (a :: as)

/-- Entries that each go on from what the one before it made, by induction on how many are to come.
-/
theorem entries_inner {entry : α → Reader α} (hentry : ∀ a, Inner (entry a)) (n : Nat) (a : α) :
    Inner (entries entry n a) := by
  induction n generalizing a with
  | zero => exact .pure a
  | succ n ih => exact .bind (hentry a) ih

/-- A check that is made of all items of a list. -/
theorem forM_inner {f : α → Reader PUnit} (hf : ∀ a, Inner (f a)) (as : List α) :
    Inner (as.forM f) := by
  induction as with
  | nil => exact .pure _
  | cons a as ih => exact .bind (hf a) fun _ ↦ ih

/-! ## Numbers, names and types -/

/-- A malformed integer is a fault of the integer, wherever it stands. -/
theorem unsignedTail_inner (start n : Nat) : Inner (unsignedTail start n) := by
  induction n with
  | zero => exact .bind byte_inner fun _ ↦ .ite (.pure _) (failAt_inner rfl)
  | succ n ih => exact .bind byte_inner fun _ ↦ .ite (.bind ih fun _ ↦ .pure _) (.pure _)

theorem varuint32_inner : Inner varuint32 :=
  .bind offset_inner fun start ↦ unsignedTail_inner start 4

/-- So it is if the integer is signed. -/
theorem signedTail_inner (start n : Nat) : Inner (signedTail start n) := by
  induction n with
  | zero => exact .bind byte_inner fun _ ↦ .ite (.pure _) (failAt_inner rfl)
  | succ n ih => exact .bind byte_inner fun _ ↦ .ite (.bind ih fun _ ↦ .pure _) (.pure _)

theorem varint32_inner : Inner varint32 :=
  .bind offset_inner fun start ↦ signedTail_inner start 4

/-- An integer of one bit is read as a wider one, and then found too large. -/
theorem varuint1_inner : Inner varuint1 := by
  refine .bind offset_inner fun _ ↦ .bind varuint32_inner fun n ↦ ?_
  split
  · exact .pure false
  · exact .pure true
  · exact failAt_inner rfl

theorem varint7_inner : Inner varint7 :=
  .bind offset_inner fun _ ↦ .bind varint32_inner fun _ ↦ .ite (.pure _) (failAt_inner rfl)

/-- An integer of 64 bits is refused as a fault of the contents. -/
theorem varint64_inner : Inner (varint64 : Reader α) :=
  .bind offset_inner fun _ ↦ failAt_inner rfl

/-- A vector is a count and so many items. -/
theorem vector_inner {item : Reader α} (hitem : Inner item) : Inner (vector item) :=
  .bind varuint32_inner fun n ↦ repeated_inner hitem n

/-- A section of entries is a count and so many of them. -/
theorem counted_inner {entry : α → Reader α} (hentry : ∀ a, Inner (entry a)) (a : α) :
    Inner (counted entry a) :=
  .bind varuint32_inner fun n ↦ entries_inner hentry n a

theorem byteString_inner : Inner byteString := .bind varuint32_inner fun n ↦ bytes_inner n

/-- A name that is not UTF-8 is a fault of the name. -/
theorem name_inner : Inner name := by
  refine .bind offset_inner fun _ ↦ .bind byteString_inner fun bs ↦ ?_
  split
  · exact .pure _
  · exact failAt_inner rfl

/-- A tag that stands for no type is a fault of the type. -/
theorem valueType_inner : Inner valueType := by
  refine .bind offset_inner fun _ ↦ .bind varint7_inner fun _ ↦ ?_
  split
  · exact .pure _
  · exact failAt_inner rfl

theorem blockType_inner : Inner blockType := by
  refine .bind offset_inner fun _ ↦ .bind varint7_inner fun _ ↦ .ite (.pure none) ?_
  split
  · exact .pure _
  · exact failAt_inner rfl

theorem elemType_inner : Inner elemType :=
  .bind offset_inner fun _ ↦ .bind varint7_inner fun _ ↦ .ite (.pure _) (failAt_inner rfl)

theorem externKind_inner : Inner externKind := by
  refine .bind offset_inner fun _ ↦ .bind byte_inner fun b ↦ ?_
  split
  · exact .pure _
  · exact .pure _
  · exact .pure _
  · exact .pure _
  · exact failAt_inner rfl

/-- Limits with the minimum above the maximum are a fault of the limits. -/
theorem limits_inner : Inner limits :=
  .bind offset_inner fun _ ↦ .bind varuint1_inner fun _ ↦ .bind varuint32_inner fun _ ↦
    .ite (.bind varuint32_inner fun _ ↦ .guard rfl (.pure _)) (.pure _)

theorem funcType_inner : Inner funcType :=
  .bind offset_inner fun _ ↦ .bind varint7_inner fun _ ↦ .guard rfl <|
    .bind (vector_inner valueType_inner) fun _ ↦ .bind varuint1_inner fun _ ↦
      .ite (.bind valueType_inner fun _ ↦ .pure _) (.pure _)

theorem tableType_inner : Inner tableType := .bind elemType_inner fun _ ↦ limits_inner

theorem memoryType_inner : Inner memoryType :=
  .bind offset_inner fun _ ↦ .bind limits_inner fun _ ↦ .guard rfl (.pure _)

theorem globalType_inner : Inner globalType :=
  .bind valueType_inner fun _ ↦ .bind varuint1_inner fun _ ↦ .pure _

/-- An initializer has one instruction and an end, and anything else is a fault of it. -/
theorem constExpr_inner : Inner constExpr := by
  have hinit (start : Nat) : Inner (initializer start) := by
    refine .bind byte_inner fun opcode ↦ ?_
    split
    · exact .bind varint32_inner fun _ ↦ .pure _
    · exact varint64_inner
    · exact .bind (fixed_inner 4) fun _ ↦ .pure _
    · exact .bind (fixed_inner 8) fun _ ↦ .pure _
    · exact .bind varuint32_inner fun _ ↦ .pure _
    · exact failAt_inner rfl
  exact .bind offset_inner fun start ↦ .bind (hinit start) fun _ ↦ .bind byte_inner fun _ ↦
    .guard rfl (.pure _)

/-! ## Instructions -/

theorem memArg_inner : Inner memArg :=
  .bind varuint32_inner fun align ↦ .bind varuint32_inner fun offset ↦
    .pure (MemArg.mk align offset)

theorem reservedByte_inner (start : Nat) (place : ReservedIndex) :
    Inner (reservedByte start place) :=
  .bind byte_inner fun _ ↦ .ite (failAt_inner rfl) (.pure ())

/-- Whatever the opcode, its immediates are read by readers of the contents, and an unknown opcode
is a fault of the instruction. -/
theorem immediates_inner (start opcode : Nat) : Inner (immediates start opcode) := by
  unfold immediates
  split
  -- There are few kinds of immediates, each read by one of these.
  all_goals first
    | exact .pure _
    | exact .bind blockType_inner fun _ ↦ .pure _
    | exact .bind varuint32_inner fun _ ↦ .pure _
    | exact .bind memArg_inner fun _ ↦ .pure _
    | exact .bind varint32_inner fun _ ↦ .pure _
    | exact .bind (fixed_inner _) fun _ ↦ .pure _
    | exact .bind (reservedByte_inner start _) fun _ ↦ .pure _
    | skip
  · exact .bind (vector_inner varuint32_inner) fun _ ↦ .bind varuint32_inner fun _ ↦ .pure _
  · exact .bind varuint32_inner fun _ ↦ .bind (reservedByte_inner start _) fun _ ↦ .pure _
  · exact varint64_inner
  · split
    · exact .pure _
    · exact .pure _
    · exact failAt_inner rfl

/-- No instruction breaks the framing of sections. -/
theorem instr_inner : Inner instr :=
  .bind offset_inner fun start ↦ .bind byte_inner fun opcode ↦
    immediates_inner start opcode.toNat

theorem localDecl_inner : Inner localDecl :=
  .bind varuint32_inner fun n ↦ .bind valueType_inner fun t ↦ .pure (n, t)

end Reader

namespace Build

variable {α : Type}

/-- What the compiler reports is a fault of the code. -/
theorem fail_inner {pos : Nat} {fault : Fault} (h : fault.isFraming = false) :
    Inner (fail pos fault : Build α) :=
  .throw h

theorem emit_inner (stmt : Stmt) : Inner (emit stmt) := .modify _

theorem cut_inner : Inner cut := .modify _

theorem push_inner (t : ValueType) : Inner (push t) := .modifyGet _

theorem push?_inner (t : Option ValueType) : Inner (push? t) := by
  cases t with
  | none => exact .pure none
  | some t => exact .bind (push_inner t) fun slot ↦ .pure (some slot)

/-- An operand that is missing, or is of another type, is a fault of the code. -/
theorem pop_inner (pos : Nat) (expected : Option ValueType) : Inner (pop pos expected) := by
  refine .get_bind fun d ↦ ?_
  cases d.scope.types with
  | nil =>
    exact .ite (.bind (.set _) fun _ ↦ .pure _) (.ite (fail_inner rfl) (fail_inner rfl))
  | cons t types =>
    refine .bind (.set _) fun _ ↦ ?_
    cases expected with
    | none => exact .pure _
    | some e => exact .guard rfl (.pure _)

theorem popType_inner (pos : Nat) (t : ValueType) : Inner (popType pos t) :=
  .bind (pop_inner pos (some t)) fun p ↦ .pure p.2

theorem pop?_inner (pos : Nat) (t : Option ValueType) : Inner (pop? pos t) := by
  cases t with
  | none => exact .pure none
  | some t => exact .bind (popType_inner pos t) fun slot ↦ .pure (some slot)

theorem popArgs_inner (pos : Nat) (ts : List ValueType) : Inner (popArgs pos ts) := by
  induction ts with
  | nil => exact .pure []
  | cons t ts ih => exact .bind ih fun _ ↦ .bind (popType_inner pos t) fun _ ↦ .pure _

/-- Code that nests too deep is a fault of the code. -/
theorem openScope_inner (ctx : Context) (pos : Nat) (kind : Scope.Kind)
    (result : Option ValueType) : Inner (openScope ctx pos kind result) :=
  .get_bind fun _ ↦ .guard rfl (.set _)

/-- What a construct leaves behind at its end has to be its result. -/
theorem checkEnd_inner (pos : Nat) (s : Scope) : Inner (checkEnd pos s) := by
  refine .ite (.bind (fail_inner rfl) fun _ ↦ ?_) ?_
  all_goals
    split
    · exact .ite (fail_inner rfl) (.pure ())
    · exact .pure ()

/-- A second arm without a first is a fault of the code. -/
theorem beginElse_inner (pos : Nat) : Inner (beginElse pos) := by
  refine .get_bind fun d ↦ ?_
  dsimp only
  split
  · exact .bind (checkEnd_inner pos d.scope) fun _ ↦ .set _
  · exact fail_inner rfl

/-- A conditional with a result needs both arms. -/
theorem closed_inner (s : Scope) : Inner (closed s) := by
  unfold closed
  split
  · exact .pure _
  · exact .pure _
  · exact .pure _
  · exact .ite (fail_inner rfl) (.pure _)
  · exact .pure _

theorem endScope_inner (pos : Nat) (s parent : Scope) (outer : List Scope) :
    Inner (endScope pos s parent outer) :=
  .bind (checkEnd_inner pos s) fun _ ↦ .bind (closed_inner s) fun stmt ↦
    .bind (.modify _) fun _ ↦ .bind (emit_inner stmt) fun _ ↦
      .bind (push?_inner s.result) fun _ ↦ .pure ()

/-- A branch to a construct that is not there is a fault of the code. -/
theorem scopeAt_inner (pos depth : Nat) : Inner (scopeAt pos depth) := by
  refine .get_bind fun d ↦ ?_
  split
  · exact .pure _
  · exact fail_inner rfl

/-- All targets of a branch table are found, and carry the same. -/
theorem tableScopes_inner (pos : Nat) (label : Option ValueType) (depths : List Nat) :
    Inner (tableScopes pos label depths) := by
  induction depths with
  | nil => exact .pure []
  | cons depth depths ih =>
    exact .bind (scopeAt_inner pos depth) fun _ ↦ .guard rfl (.bind ih fun _ ↦ .pure _)

theorem funcType_inner (ctx : Context) (pos index : Nat) : Inner (funcType ctx pos index) := by
  unfold funcType
  split
  · exact .pure _
  · exact fail_inner rfl

theorem typeAt_inner (ctx : Context) (pos index : Nat) : Inner (typeAt ctx pos index) := by
  unfold typeAt
  split
  · exact .pure _
  · exact fail_inner rfl

theorem localType_inner (ctx : Context) (pos index : Nat) : Inner (localType ctx pos index) := by
  unfold localType
  split
  · exact .pure _
  · exact fail_inner rfl

theorem globalType_inner (ctx : Context) (pos index : Nat) :
    Inner (globalType ctx pos index) := by
  unfold globalType
  split
  · exact .pure _
  · exact fail_inner rfl

theorem requireTable_inner (ctx : Context) (pos : Nat) : Inner (requireTable ctx pos) :=
  .ite (fail_inner rfl) (.pure ())

theorem requireMemory_inner (ctx : Context) (pos : Nat) : Inner (requireMemory ctx pos) :=
  .ite (fail_inner rfl) (.pure ())

/-- An access needs a memory and an alignment that is not above its width. -/
theorem checkAccess_inner (ctx : Context) (pos : Nat) (access : Access) (arg : MemArg) :
    Inner (checkAccess ctx pos access arg) :=
  .bind (requireMemory_inner ctx pos) fun _ ↦ .ite (fail_inner rfl) (.pure ())

/-- Compiling an instruction, one case for each: each is made of the parts above. -/
theorem step_inner (ctx : Context) (pos : Nat) (i : Instr) : Inner (step ctx pos i) := by
  cases i with
  | unreachable => exact .bind (emit_inner _) fun _ ↦ cut_inner
  | nop => exact .pure ()
  | block result => exact openScope_inner ctx pos .block result
  | loop result => exact openScope_inner ctx pos .loop result
  | conditional result =>
    exact .bind (popType_inner pos .i32) fun cond ↦ openScope_inner ctx pos (.thenArm cond) result
  | otherwise => exact beginElse_inner pos
  | close =>
    refine .get_bind fun d ↦ ?_
    split
    · exact .pure ()
    · exact endScope_inner pos d.scope _ _
  | br depth =>
    exact .bind (scopeAt_inner pos depth) fun _ ↦ .bind (pop?_inner pos _) fun _ ↦
      .bind (emit_inner _) fun _ ↦ cut_inner
  | brIf depth =>
    exact .bind (scopeAt_inner pos depth) fun _ ↦ .bind (popType_inner pos .i32) fun _ ↦
      .bind (pop?_inner pos _) fun _ ↦ .bind (push?_inner _) fun _ ↦ emit_inner _
  | brTable depths default =>
    exact .bind (scopeAt_inner pos default) fun _ ↦ .bind (tableScopes_inner pos _ depths) fun _ ↦
      .bind (popType_inner pos .i32) fun _ ↦ .bind (pop?_inner pos _) fun _ ↦
        .bind (emit_inner _) fun _ ↦ cut_inner
  | ret => exact .bind (pop?_inner pos _) fun _ ↦ .bind (emit_inner _) fun _ ↦ cut_inner
  | call func =>
    exact .bind (funcType_inner ctx pos func) fun _ ↦ .bind (popArgs_inner pos _) fun _ ↦
      .bind (push?_inner _) fun _ ↦ emit_inner _
  | callIndirect type =>
    exact .bind (requireTable_inner ctx pos) fun _ ↦ .bind (typeAt_inner ctx pos type) fun _ ↦
      .bind (popType_inner pos .i32) fun _ ↦ .bind (popArgs_inner pos _) fun _ ↦
        .bind (push?_inner _) fun _ ↦ emit_inner _
  | drop => exact .bind (pop_inner pos none) fun _ ↦ .pure ()
  | select =>
    exact .bind (popType_inner pos .i32) fun _ ↦ .bind (pop_inner pos none) fun p ↦
      .bind (popType_inner pos p.1) fun _ ↦ .bind (push_inner p.1) fun _ ↦ emit_inner _
  | localGet index =>
    exact .bind (localType_inner ctx pos index) fun t ↦ .bind (push_inner t) fun _ ↦ emit_inner _
  | localSet index =>
    exact .bind (localType_inner ctx pos index) fun t ↦ .bind (popType_inner pos t) fun _ ↦
      emit_inner _
  | localTee index =>
    exact .bind (localType_inner ctx pos index) fun t ↦ .bind (popType_inner pos t) fun _ ↦
      .bind (push_inner t) fun _ ↦ emit_inner _
  | globalGet index =>
    exact .bind (globalType_inner ctx pos index) fun g ↦ .bind (push_inner g.type) fun _ ↦
      emit_inner _
  | globalSet index =>
    exact .bind (globalType_inner ctx pos index) fun g ↦ .guard rfl <|
      .bind (popType_inner pos g.type) fun _ ↦ emit_inner _
  | load access arg =>
    exact .bind (checkAccess_inner ctx pos access arg) fun _ ↦ .bind (popType_inner pos .i32)
      fun _ ↦ .bind (push_inner .i32) fun _ ↦ emit_inner _
  | store access arg =>
    exact .bind (checkAccess_inner ctx pos access arg) fun _ ↦ .bind (popType_inner pos .i32)
      fun _ ↦ .bind (popType_inner pos .i32) fun _ ↦ emit_inner _
  | memorySize =>
    exact .bind (requireMemory_inner ctx pos) fun _ ↦ .bind (push_inner .i32) fun _ ↦ emit_inner _
  | memoryGrow =>
    exact .bind (requireMemory_inner ctx pos) fun _ ↦ .bind (popType_inner pos .i32) fun _ ↦
      .bind (push_inner .i32) fun _ ↦ emit_inner _
  | const value => exact .bind (push_inner value.type) fun _ ↦ emit_inner _
  | unary op =>
    exact .bind (popType_inner pos _) fun _ ↦ .bind (push_inner _) fun _ ↦ emit_inner _
  | binary op =>
    exact .bind (popType_inner pos _) fun _ ↦ .bind (popType_inner pos _) fun _ ↦
      .bind (push_inner _) fun _ ↦ emit_inner _

theorem finish_inner (pos : Nat) : Inner (finish pos) :=
  .get_bind fun d ↦ .bind (checkEnd_inner pos d.scope) fun _ ↦ .ite (.pure _) (.pure _)

end Build

namespace Reader

variable {α : Type}

/-- The compiler runs inside a reader, and its errors become those of the reader. -/
theorem building_inner {b : Build α} (hb : Inner b) (d : Draft) : Inner (building d b) := by
  unfold building
  cases hrun : b.run d with
  | ok a d' => exact .pure (a, d')
  | error e d' => exact .throw ((hb d).of_error hrun)

/-- A function body is read and compiled instruction by instruction. -/
theorem instructions_inner (ctx : Context) (n : Nat) (d : Draft) :
    Inner (instructions ctx n d) := by
  induction n generalizing d with
  | zero => exact endOfInput_inner
  | succ n ih =>
    exact .bind offset_inner fun pos ↦ .bind instr_inner fun i ↦
      .ite (.bind (building_inner (Build.finish_inner pos) d) fun _ ↦ .pure _)
        (.bind (building_inner (Build.step_inner ctx pos i) d) fun r ↦ ih r.2)

/-- Code is compiled from the locals and the body, and too many locals are a fault of the code. -/
theorem code_inner (config : Config) (m : Module) (type : FuncType)
    (decls : List (Nat × ValueType)) : Inner (code config m type decls) :=
  .bind offset_inner fun _ ↦ .guard rfl <| .get_bind fun c ↦
    .bind (instructions_inner _ c.remaining _) fun _ ↦ .pure _

end Reader

/-! ## Sections -/

namespace Module

open Reader

variable {config : Config} {m : Module}

/-- A type index that leads nowhere is a fault of the section. -/
theorem requireType_inner (pos index : Nat) : Inner (m.requireType pos index) := by
  unfold requireType
  split
  · exact .pure _
  · exact failAt_inner rfl

theorem requireFunc_inner (pos index : Nat) : Inner (m.requireFunc pos index) := by
  unfold requireFunc
  split
  · exact .pure _
  · exact failAt_inner rfl

/-- A second table or memory is a fault of the section that brings it. -/
theorem checkSingletons_inner (pos : Nat) : Inner (m.checkSingletons pos) := by
  unfold checkSingletons
  exact .guard rfl (.ite (failAt_inner rfl) (.pure _))

/-- An initializer of another type, or one that reads a global it may not read, is a fault of the
section. -/
theorem checkConstExpr_inner (pos : Nat) (e : ConstExpr) (t : ValueType) :
    Inner (m.checkConstExpr pos e t) := by
  have htype : Inner (m.constExprType pos e) := by
    cases e with
    | value v => exact .pure v.type
    | globalGet index =>
      simp only [constExprType]
      refine .guard rfl ?_
      split
      · exact .pure _
      · exact failAt_inner rfl
  exact .bind htype fun _ ↦ .ite (failAt_inner rfl) (.pure _)

/-- An import of any kind is read by readers of the contents. -/
theorem importEntry_inner (m : Module) : Inner m.importEntry := by
  have hdesc (start : Nat) : Inner (m.importDesc start) := by
    refine .bind externKind_inner fun kind ↦ ?_
    split
    · exact .bind varuint32_inner fun index ↦ .bind (requireType_inner start index) fun _ ↦ .pure _
    · exact .bind tableType_inner fun _ ↦ .pure _
    · exact .bind memoryType_inner fun _ ↦ .pure _
    · exact .bind globalType_inner fun _ ↦ .pure _
  exact .bind offset_inner fun start ↦ .bind name_inner fun _ ↦ .bind name_inner fun _ ↦
    .bind (hdesc start) fun _ ↦ .bind (checkSingletons_inner start) fun _ ↦ .pure _

/-- The type indices of functions are read and then checked. -/
theorem functionSection_inner : Inner m.functionSection := by
  have hindex : Inner (do
      let pos ← offset
      let index ← varuint32
      return (pos, index)) :=
    .bind offset_inner fun _ ↦ .bind varuint32_inner fun _ ↦ .pure _
  have hcheck (p : Nat × Nat) : Inner (do let _ ← m.requireType p.1 p.2) :=
    .bind (requireType_inner p.1 p.2) fun _ ↦ .pure _
  exact .bind (vector_inner hindex) fun indices ↦
    .bind (forM_inner hcheck indices) fun _ ↦ .pure _

theorem tableSection_inner : Inner m.tableSection :=
  .bind offset_inner fun start ↦ .bind (vector_inner tableType_inner) fun _ ↦
    .bind (checkSingletons_inner start) fun _ ↦ .pure _

theorem memorySection_inner : Inner m.memorySection :=
  .bind offset_inner fun start ↦ .bind (vector_inner memoryType_inner) fun _ ↦
    .bind (checkSingletons_inner start) fun _ ↦ .pure _

theorem globalEntry_inner (m : Module) : Inner m.globalEntry :=
  .bind globalType_inner fun type ↦ .bind offset_inner fun pos ↦ .bind constExpr_inner fun init ↦
    .bind (checkConstExpr_inner pos init type.type) fun _ ↦ .pure _

/-- An export has to name something that is there, and no name twice. -/
theorem exportEntry_inner (m : Module) : Inner m.exportEntry :=
  .bind name_inner fun _ ↦ .bind offset_inner fun _ ↦ .bind externKind_inner fun _ ↦
    .bind varuint32_inner fun _ ↦ .guard rfl (.guard rfl (.pure _))

/-- The start function has to exist, and neither takes nor gives anything. -/
theorem startSection_inner : Inner m.startSection :=
  .bind offset_inner fun pos ↦ .bind varuint32_inner fun index ↦
    .bind (requireFunc_inner pos index) fun _ ↦ .guard rfl (.pure _)

theorem segmentTarget_inner (place : ReservedIndex) (space : IndexSpace) (available : Nat) :
    Inner (segmentTarget place space available) :=
  .bind offset_inner fun _ ↦ .bind varuint32_inner fun _ ↦
    .guard rfl (.ite (failAt_inner rfl) (.pure _))

theorem segmentOffset_inner : Inner m.segmentOffset :=
  .bind offset_inner fun pos ↦ .bind constExpr_inner fun e ↦
    .bind (checkConstExpr_inner pos e .i32) fun _ ↦ .pure _

/-- An element segment needs a table, an offset and functions that exist. -/
theorem elementEntry_inner (m : Module) : Inner m.elementEntry := by
  have hfunc : Inner (do
      let pos ← offset
      let index ← varuint32
      let _ ← m.requireFunc pos index
      return index) :=
    .bind offset_inner fun pos ↦ .bind varuint32_inner fun index ↦
      .bind (requireFunc_inner pos index) fun _ ↦ .pure _
  exact .bind (segmentTarget_inner _ _ _) fun _ ↦ .bind segmentOffset_inner fun _ ↦
    .bind (vector_inner hfunc) fun _ ↦ .pure _

/-- Each body is read inside its own size, and a size that does not fit is a fault of the body. -/
theorem codeEntry_inner (typeIndex : Nat) : Inner (m.codeEntry config typeIndex) :=
  .bind varuint32_inner fun size ↦ .bind (sub_inner size) fun body ↦
    within_inner (.bind offset_inner fun start ↦ .bind (vector_inner localDecl_inner) fun _ ↦
      .bind (requireType_inner start typeIndex) fun _ ↦ code_inner config m _ _) body

/-- There are as many bodies as functions, and a section with another count is at fault. -/
theorem codeSection_inner : Inner (m.codeSection config) := by
  have hentries (ts : List Nat) : Inner (m.codeEntries config ts) := by
    induction ts with
    | nil => exact .pure []
    | cons t ts ih => exact .bind (codeEntry_inner t) fun _ ↦ .bind ih fun _ ↦ .pure _
  exact .bind varuint32_inner fun _ ↦ .guard rfl (.bind (hentries m.funcs) fun _ ↦ .pure _)

theorem dataEntry_inner (m : Module) : Inner m.dataEntry :=
  .bind (segmentTarget_inner _ _ _) fun _ ↦ .bind segmentOffset_inner fun _ ↦
    .bind byteString_inner fun _ ↦ .pure _

/-- What is wrong with the payload of a section is not wrong with its frame. -/
theorem sectionPayload_inner (id : SectionId) : Inner (m.sectionPayload config id) := by
  cases id with
  | custom => exact .pure m
  | type => exact .bind (vector_inner Reader.funcType_inner) fun _ ↦ .pure _
  | imports => exact counted_inner importEntry_inner m
  | function => exact functionSection_inner
  | table => exact tableSection_inner
  | memory => exact memorySection_inner
  | global => exact counted_inner globalEntry_inner m
  | exports => exact counted_inner exportEntry_inner m
  | start => exact startSection_inner
  | element => exact counted_inner elementEntry_inner m
  | code => exact codeSection_inner
  | data => exact counted_inner dataEntry_inner m

end Module

end WasmEngine
