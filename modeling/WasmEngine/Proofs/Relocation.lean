import WasmEngine.Code.Encoding
import WasmEngine.Proofs.Effects

/-!
# Function bodies at another place

Where a function body stands in a binary shows in the errors that are reported about it and nowhere
else. A reader that starts `k` bytes further on gives the same result, or the same error `k` bytes
further on. Offsets are taken at many moments, and those of open scopes are kept in the draft, so a
draft is moved along with the cursor.
-/

namespace WasmEngine

section Moves

variable {ε σ α β : Type}

/-- What a program ends with, moved by `f`, `e` and `v` in its state, its error and its result. -/
def moved (f : σ → σ) (e : ε → ε) (v : α → α) : EStateM.Result ε σ α → EStateM.Result ε σ α
  | .ok a s => .ok (v a) (f s)
  | .error err s => .error (e err) (f s)

/-- The second program does from a moved state what the first one does from the state itself. -/
def Moves (f : σ → σ) (e : ε → ε) (v : α → α) (x y : EStateM ε σ α) : Prop :=
  ∀ s, y.run (f s) = moved f e v (x.run s)

namespace Moves

variable {f : σ → σ} {e : ε → ε} {v : α → α} {w : β → β}

/-- A value moves as `v` says. -/
theorem pure (a : α) : Moves f e v (pure a) (pure (v a)) := fun _ ↦ rfl

/-- An error moves as `e` says. -/
theorem throw (err : ε) : Moves f e v (throw err) (throw (e err)) := fun _ ↦ rfl

/-- Programs that move part by part move as a whole. -/
theorem bind {x y : EStateM ε σ α} {g h : α → EStateM ε σ β} (hx : Moves f e v x y)
    (hg : ∀ a, Moves f e w (g a) (h (v a))) : Moves f e w (x >>= g) (y >>= h) := by
  intro s
  rw [EStateM.run_bind, EStateM.run_bind, hx s]
  cases x.run s with
  | ok a t => exact hg a t
  | error err t => rfl

/-- What is read from the state is the moved state on the other side. -/
theorem get_bind {g h : σ → EStateM ε σ β} (hg : ∀ s, Moves f e w (g s) (h (f s))) :
    Moves f e w (get >>= g) (get >>= h) :=
  bind (v := f) (fun _ ↦ rfl) hg

theorem set (s : σ) : Moves f e id (set s : EStateM ε σ PUnit) (set (f s)) := fun _ ↦ rfl

/-- An update of the state has to move along with the state. -/
theorem modify {g h : σ → σ} (hgh : ∀ s, h (f s) = f (g s)) :
    Moves f e id (modify g : EStateM ε σ PUnit) (modify h) :=
  fun s ↦ congrArg (EStateM.Result.ok PUnit.unit) (hgh s)

theorem ite {c : Prop} [Decidable c] {x x' y y' : EStateM ε σ α} (hx : Moves f e v x y)
    (hx' : Moves f e v x' y') :
    Moves f e v (if c then x else x') (if c then y else y') := by
  split
  · exact hx
  · exact hx'

end Moves

end Moves

def Fault.relocate (φ : Nat → Nat) : Fault → Fault
  | .sectionOverrun id expectedEnd => .sectionOverrun id (φ expectedEnd)
  | fault => fault

def DecodeError.relocate (φ : Nat → Nat) : DecodeError → DecodeError
  | .located pos fault => .located (φ pos) (fault.relocate φ)
  | err => err

/-! ## Readers -/

def Cursor.shift (k : Nat) (c : Cursor) : Cursor := { c with offset := c.offset + k }

namespace Reader

variable {α β : Type}

/-- The second reader gives, `k` bytes further on, what the first one gives. -/
abbrev Shifts (k : Nat) (r r' : Reader α) : Prop :=
  Moves (Cursor.shift k) (DecodeError.relocate (· + k)) id r r'

variable {k : Nat}

/-- A fault is reported so much later, and so are the places it mentions. -/
theorem failAt_shifts (pos : Nat) (fault : Fault) :
    Shifts k (failAt pos fault : Reader α) (failAt (pos + k) (fault.relocate (· + k))) := .throw _

/-- Only the offset itself is not the same further on. -/
theorem offset_bind_shifts {f g : Nat → Reader α} (h : ∀ pos, Shifts k (f pos) (g (pos + k))) :
    Shifts k (offset >>= f) (offset >>= g) :=
  .bind (v := (· + k)) (fun _ ↦ rfl) h

theorem endOfInput_shifts : Shifts k (endOfInput : Reader α) endOfInput := fun _ ↦ rfl

/-- A byte is read all the same, wherever it stands. -/
theorem byte_shifts : Shifts k byte byte := by
  rintro ⟨pos, rest⟩
  cases rest with
  | nil => rfl
  | cons b rest => simp [Reader.byte, EStateM.run, moved, Cursor.shift, Nat.add_right_comm]

theorem bytes_shifts (n : Nat) : Shifts k (bytes n) (bytes n) := by
  rintro ⟨pos, rest⟩
  by_cases hn : n ≤ rest.length
  · simp [bytes, EStateM.run, Cursor.shift, Cursor.remaining, Cursor.advance, moved, hn,
      Nat.add_right_comm]
  · simp [bytes, EStateM.run, Cursor.shift, Cursor.remaining, moved, hn, endOfInput,
      DecodeError.relocate, Fault.relocate]

theorem fixed_shifts (n : Nat) : Shifts k (fixed n) (fixed n) :=
  .bind (bytes_shifts n) fun _ ↦ .pure _

/-- Items one after the other, by induction on how many are to come. -/
theorem repeated_shifts {item : Reader α} (hitem : Shifts k item item) (n : Nat) :
    Shifts k (repeated item n) (repeated item n) := by
  induction n with
  | zero => exact .pure []
  | succ n ih => exact .bind hitem fun a ↦ .bind ih fun as ↦ .pure (a :: as)

/-- The place where a malformed integer starts moves along with it. -/
theorem unsignedTail_shifts (start n : Nat) :
    Shifts k (unsignedTail start n) (unsignedTail (start + k) n) := by
  induction n with
  | zero => exact .bind byte_shifts fun b ↦ .ite (.pure _) (failAt_shifts start _)
  | succ n ih => exact .bind byte_shifts fun b ↦ .ite (.bind ih fun i ↦ .pure _) (.pure _)

theorem signedTail_shifts (start n : Nat) :
    Shifts k (signedTail start n) (signedTail (start + k) n) := by
  induction n with
  | zero => exact .bind byte_shifts fun b ↦ .ite (.pure _) (failAt_shifts start _)
  | succ n ih => exact .bind byte_shifts fun b ↦ .ite (.bind ih fun i ↦ .pure _) (.pure _)

theorem varuint32_shifts : Shifts k varuint32 varuint32 :=
  offset_bind_shifts fun start ↦ unsignedTail_shifts start 4

theorem varint32_shifts : Shifts k varint32 varint32 :=
  offset_bind_shifts fun start ↦ signedTail_shifts start 4

theorem varint7_shifts : Shifts k varint7 varint7 :=
  offset_bind_shifts fun start ↦ .bind varint32_shifts fun i ↦
    .ite (.pure i) (failAt_shifts start _)

theorem valueType_shifts : Shifts k valueType valueType := by
  refine offset_bind_shifts fun start ↦ .bind varint7_shifts fun tag ↦ ?_
  simp only [id]
  cases valueTypeOfTag tag with
  | some t => exact .pure t
  | none => exact failAt_shifts start _

theorem blockType_shifts : Shifts k blockType blockType := by
  refine offset_bind_shifts fun start ↦ .bind varint7_shifts fun tag ↦ .ite (.pure none) ?_
  simp only [id]
  cases valueTypeOfTag tag with
  | some t => exact .pure (some t)
  | none => exact failAt_shifts start _

theorem vector_shifts {item : Reader α} (hitem : Shifts k item item) :
    Shifts k (vector item) (vector item) :=
  .bind varuint32_shifts fun n ↦ repeated_shifts hitem n

theorem memArg_shifts : Shifts k memArg memArg :=
  .bind varuint32_shifts fun align ↦ .bind varuint32_shifts fun offset ↦
    .pure (MemArg.mk align offset)

theorem reservedByte_shifts (start : Nat) (place : ReservedIndex) :
    Shifts k (reservedByte start place) (reservedByte (start + k) place) :=
  .bind byte_shifts fun _ ↦ .ite (failAt_shifts start _) (.pure ())

/-- An instruction moves with all its immediates, one case for each opcode. -/
theorem immediates_shifts (start opcode : Nat) :
    Shifts k (immediates start opcode) (immediates (start + k) opcode) := by
  unfold immediates
  split
  · exact .pure _
  · exact .pure _
  · exact .bind blockType_shifts fun _ ↦ .pure _
  · exact .bind blockType_shifts fun _ ↦ .pure _
  · exact .bind blockType_shifts fun _ ↦ .pure _
  · exact .pure _
  · exact .pure _
  · exact .bind varuint32_shifts fun _ ↦ .pure _
  · exact .bind varuint32_shifts fun _ ↦ .pure _
  · exact .bind (vector_shifts varuint32_shifts) fun _ ↦ .bind varuint32_shifts fun _ ↦ .pure _
  · exact .pure _
  · exact .bind varuint32_shifts fun _ ↦ .pure _
  · exact .bind varuint32_shifts fun _ ↦ .bind (reservedByte_shifts start _) fun _ ↦ .pure _
  · exact .pure _
  · exact .pure _
  · exact .bind varuint32_shifts fun _ ↦ .pure _
  · exact .bind varuint32_shifts fun _ ↦ .pure _
  · exact .bind varuint32_shifts fun _ ↦ .pure _
  · exact .bind varuint32_shifts fun _ ↦ .pure _
  · exact .bind varuint32_shifts fun _ ↦ .pure _
  · exact .bind memArg_shifts fun _ ↦ .pure _
  · exact .bind memArg_shifts fun _ ↦ .pure _
  · exact .bind memArg_shifts fun _ ↦ .pure _
  · exact .bind memArg_shifts fun _ ↦ .pure _
  · exact .bind memArg_shifts fun _ ↦ .pure _
  · exact .bind memArg_shifts fun _ ↦ .pure _
  · exact .bind memArg_shifts fun _ ↦ .pure _
  · exact .bind memArg_shifts fun _ ↦ .pure _
  · exact .bind (reservedByte_shifts start _) fun _ ↦ .pure _
  · exact .bind (reservedByte_shifts start _) fun _ ↦ .pure _
  · exact .bind varint32_shifts fun _ ↦ .pure _
  · exact offset_bind_shifts fun pos ↦ failAt_shifts pos _
  · exact .bind (fixed_shifts 4) fun _ ↦ .pure _
  · exact .bind (fixed_shifts 8) fun _ ↦ .pure _
  · split
    · exact .pure _
    · exact .pure _
    · exact failAt_shifts start _

/-- Instructions are read alike at any place. -/
theorem instr_shifts : Shifts k instr instr :=
  offset_bind_shifts fun start ↦ .bind byte_shifts fun opcode ↦ immediates_shifts start opcode.toNat

theorem localDecl_shifts : Shifts k localDecl localDecl :=
  .bind varuint32_shifts fun n ↦ .bind valueType_shifts fun t ↦ .pure (n, t)

end Reader

/-! ## Compilation -/

def Scope.relocate (φ : Nat → Nat) (s : Scope) : Scope := { s with offset := φ s.offset }

def Draft.relocate (φ : Nat → Nat) (d : Draft) : Draft :=
  { d with scope := d.scope.relocate φ, outer := d.outer.map (Scope.relocate φ) }

/-- All scopes of a draft move together. -/
theorem Draft.scopes_relocate (φ : Nat → Nat) (d : Draft) :
    (d.relocate φ).scopes = d.scopes.map (Scope.relocate φ) := rfl

namespace Build

variable {α : Type} {φ : Nat → Nat}

/-- The second step does to a moved draft what the first one does to the draft itself. -/
abbrev Relocates (φ : Nat → Nat) (b b' : Build α) : Prop :=
  Moves (Draft.relocate φ) (DecodeError.relocate φ) id b b'

/-- What the compiler reports moves to where the instruction is. -/
theorem fail_relocates (pos : Nat) (fault : Fault) :
    Relocates φ (fail pos fault : Build α) (fail (φ pos) (fault.relocate φ)) := .throw _

theorem emit_relocates (stmt : Stmt) : Relocates φ (emit stmt) (emit stmt) := .modify fun _ ↦ rfl

theorem cut_relocates : Relocates φ cut cut := .modify fun _ ↦ rfl

/-- Operands have no place in the binary. -/
theorem push_relocates (t : ValueType) : Relocates φ (push t) (push t) := fun _ ↦ rfl

theorem push?_relocates (t : Option ValueType) : Relocates φ (push? t) (push? t) := by
  cases t with
  | none => exact .pure none
  | some t => exact .bind (push_relocates t) fun slot ↦ .pure (some slot)

/-- An operand is taken off alike, and only the report of a missing one moves. -/
theorem pop_relocates (pos : Nat) (expected : Option ValueType) :
    Relocates φ (pop pos expected) (pop (φ pos) expected) := by
  refine .get_bind fun d ↦ ?_
  have htypes : (d.relocate φ).scope.types = d.scope.types := rfl
  have houter : (d.relocate φ).outer.any (!·.types.isEmpty) = d.outer.any (!·.types.isEmpty) := by
    simp [Draft.relocate, Scope.relocate, Function.comp_def]
  rw [htypes, houter]
  cases d.scope.types with
  | nil =>
    exact .ite (.bind (.set _) fun _ ↦ .pure _) (.ite (fail_relocates pos _) (fail_relocates pos _))
  | cons t types =>
    refine .bind (.set _) fun _ ↦ ?_
    cases expected with
    | none => exact .pure _
    | some e => exact .ite (.bind (fail_relocates pos _) fun _ ↦ .pure _) (.pure _)

theorem popType_relocates (pos : Nat) (t : ValueType) :
    Relocates φ (popType pos t) (popType (φ pos) t) :=
  .bind (pop_relocates pos (some t)) fun p ↦ .pure p.2

theorem pop?_relocates (pos : Nat) (t : Option ValueType) :
    Relocates φ (pop? pos t) (pop? (φ pos) t) := by
  cases t with
  | none => exact .pure none
  | some t => exact .bind (popType_relocates pos t) fun slot ↦ .pure (some slot)

theorem popArgs_relocates (pos : Nat) (ts : List ValueType) :
    Relocates φ (popArgs pos ts) (popArgs (φ pos) ts) := by
  induction ts with
  | nil => exact .pure []
  | cons t ts ih =>
    exact .bind ih fun slots ↦ .bind (popType_relocates pos t) fun slot ↦ .pure (slot :: slots)

/-- A scope remembers where it was opened, and that is what moves in it. -/
theorem openScope_relocates (ctx : Context) (pos : Nat) (kind : Scope.Kind)
    (result : Option ValueType) :
    Relocates φ (openScope ctx pos kind result) (openScope ctx (φ pos) kind result) := by
  refine .get_bind fun d ↦ ?_
  rw [Draft.scopes_relocate, List.length_map]
  exact .ite (.bind (fail_relocates pos _) fun _ ↦ .set _) (.set _)

/-- The end of a scope is checked alike, wherever the scope was opened. -/
theorem checkEnd_relocates (pos : Nat) (s : Scope) :
    Relocates φ (checkEnd pos s) (checkEnd (φ pos) (s.relocate φ)) := by
  have hresult : (s.relocate φ).result = s.result := rfl
  have htypes : (s.relocate φ).types = s.types := rfl
  refine .ite (.bind (fail_relocates pos _) fun _ ↦ ?_) ?_
  all_goals
    simp only [hresult, htypes]
    split
    · exact .ite (fail_relocates pos _) (.pure ())
    · exact .pure ()

theorem beginElse_relocates (pos : Nat) : Relocates φ (beginElse pos) (beginElse (φ pos)) := by
  refine .get_bind fun d ↦ ?_
  have hkind : (d.relocate φ).scope.kind = d.scope.kind := rfl
  simp only [hkind]
  split
  · exact .bind (checkEnd_relocates pos d.scope) fun _ ↦ .set _
  · exact fail_relocates pos _

/-- A conditional that lacks its second arm is reported at the place where it was opened. -/
theorem closed_relocates (s : Scope) : Relocates φ (closed s) (closed (s.relocate φ)) := by
  have hkind : (s.relocate φ).kind = s.kind := rfl
  unfold closed
  simp only [hkind]
  split
  · exact .pure _
  · exact .pure _
  · exact .pure _
  · exact .ite (fail_relocates s.offset _) (.pure _)
  · exact .pure _

/-- A scope and those around it move together when it is closed. -/
theorem endScope_relocates (pos : Nat) (s parent : Scope) (outer : List Scope) :
    Relocates φ (endScope pos s parent outer)
      (endScope (φ pos) (s.relocate φ) (parent.relocate φ) (outer.map (Scope.relocate φ))) :=
  .bind (checkEnd_relocates pos s) fun _ ↦ .bind (closed_relocates s) fun stmt ↦
    .bind (.modify fun _ ↦ rfl) fun _ ↦ .bind (emit_relocates stmt) fun _ ↦
      .bind (push?_relocates s.result) fun _ ↦ .pure ()

/-- A branch finds the same scope, moved. -/
theorem scopeAt_relocates (pos depth : Nat) :
    Moves (Draft.relocate φ) (DecodeError.relocate φ) (Scope.relocate φ) (scopeAt pos depth)
      (scopeAt (φ pos) depth) := by
  refine .get_bind fun d ↦ ?_
  rw [Draft.scopes_relocate, List.getElem?_map]
  cases d.scopes[depth]? with
  | some s => exact .pure s
  | none => exact .throw _

/-- A branch table finds the same scopes, moved, by induction on its depths. -/
theorem tableScopes_relocates (pos : Nat) (label : Option ValueType) (depths : List Nat) :
    Moves (Draft.relocate φ) (DecodeError.relocate φ) (List.map (Scope.relocate φ))
      (tableScopes pos label depths) (tableScopes (φ pos) label depths) := by
  induction depths with
  | nil => exact .pure []
  | cons depth depths ih =>
    refine .bind (scopeAt_relocates pos depth) fun s ↦ ?_
    have hrest : Moves (Draft.relocate φ) (DecodeError.relocate φ) (List.map (Scope.relocate φ))
        (do return s :: (← tableScopes pos label depths))
        (do return s.relocate φ :: (← tableScopes (φ pos) label depths)) :=
      .bind ih fun ss ↦ .pure (s :: ss)
    exact .ite (.bind (fail_relocates pos _) fun _ ↦ hrest) hrest

theorem funcType_relocates (ctx : Context) (pos index : Nat) :
    Relocates φ (funcType ctx pos index) (funcType ctx (φ pos) index) := by
  unfold funcType
  split
  · exact .pure _
  · exact fail_relocates pos _

theorem typeAt_relocates (ctx : Context) (pos index : Nat) :
    Relocates φ (typeAt ctx pos index) (typeAt ctx (φ pos) index) := by
  unfold typeAt
  split
  · exact .pure _
  · exact fail_relocates pos _

theorem localType_relocates (ctx : Context) (pos index : Nat) :
    Relocates φ (localType ctx pos index) (localType ctx (φ pos) index) := by
  unfold localType
  split
  · exact .pure _
  · exact fail_relocates pos _

theorem globalType_relocates (ctx : Context) (pos index : Nat) :
    Relocates φ (globalType ctx pos index) (globalType ctx (φ pos) index) := by
  unfold globalType
  split
  · exact .pure _
  · exact fail_relocates pos _

theorem requireTable_relocates (ctx : Context) (pos : Nat) :
    Relocates φ (requireTable ctx pos) (requireTable ctx (φ pos)) :=
  .ite (fail_relocates pos _) (.pure ())

theorem requireMemory_relocates (ctx : Context) (pos : Nat) :
    Relocates φ (requireMemory ctx pos) (requireMemory ctx (φ pos)) :=
  .ite (fail_relocates pos _) (.pure ())

/-- An access is checked against the module, which does not move. -/
theorem checkAccess_relocates (ctx : Context) (pos : Nat) (access : Access) (arg : MemArg) :
    Relocates φ (checkAccess ctx pos access arg) (checkAccess ctx (φ pos) access arg) :=
  .bind (requireMemory_relocates ctx pos) fun _ ↦ .ite (fail_relocates pos _) (.pure ())

/-- Compiling an instruction, one case for each: each is made of the parts above. -/
theorem step_relocates (ctx : Context) (pos : Nat) (i : Instr) :
    Relocates φ (step ctx pos i) (step ctx (φ pos) i) := by
  cases i with
  | unreachable => exact .bind (emit_relocates _) fun _ ↦ cut_relocates
  | nop => exact .pure ()
  | block result => exact openScope_relocates ctx pos .block result
  | loop result => exact openScope_relocates ctx pos .loop result
  | conditional result =>
    exact .bind (popType_relocates pos .i32) fun cond ↦
      openScope_relocates ctx pos (.thenArm cond) result
  | otherwise => exact beginElse_relocates pos
  | close =>
    refine .get_bind fun d ↦ ?_
    cases houter : d.outer with
    | nil =>
      have hshift : (d.relocate φ).outer = [] := by rw [Draft.relocate, houter]; rfl
      rw [hshift]
      exact .pure ()
    | cons parent outer =>
      have hshift : (d.relocate φ).outer = parent.relocate φ :: outer.map (Scope.relocate φ) := by
        rw [Draft.relocate, houter]
        rfl
      rw [hshift]
      exact endScope_relocates pos d.scope parent outer
  | br depth =>
    exact .bind (scopeAt_relocates pos depth) fun s ↦ .bind (pop?_relocates pos _) fun carried ↦
      .bind (emit_relocates _) fun _ ↦ cut_relocates
  | brIf depth =>
    exact .bind (scopeAt_relocates pos depth) fun s ↦ .bind (popType_relocates pos .i32) fun cond ↦
      .bind (pop?_relocates pos _) fun carried ↦ .bind (push?_relocates _) fun _ ↦ emit_relocates _
  | brTable depths default =>
    refine .bind (scopeAt_relocates pos default) fun s ↦
      .bind (tableScopes_relocates pos _ depths) fun scopes ↦
        .bind (popType_relocates pos .i32) fun index ↦ .bind (pop?_relocates pos _) fun carried ↦ ?_
    rw [List.map_map]
    exact .bind (emit_relocates _) fun _ ↦ cut_relocates
  | ret =>
    exact .bind (pop?_relocates pos _) fun value ↦ .bind (emit_relocates _) fun _ ↦ cut_relocates
  | call func =>
    exact .bind (funcType_relocates ctx pos func) fun callee ↦
      .bind (popArgs_relocates pos _) fun _ ↦ .bind (push?_relocates _) fun _ ↦ emit_relocates _
  | callIndirect type =>
    exact .bind (requireTable_relocates ctx pos) fun _ ↦
      .bind (typeAt_relocates ctx pos type) fun _ ↦ .bind (popType_relocates pos .i32) fun _ ↦
        .bind (popArgs_relocates pos _) fun _ ↦ .bind (push?_relocates _) fun _ ↦ emit_relocates _
  | drop => exact .bind (pop_relocates pos none) fun _ ↦ .pure ()
  | select =>
    exact .bind (popType_relocates pos .i32) fun _ ↦ .bind (pop_relocates pos none) fun p ↦
      .bind (popType_relocates pos p.1) fun _ ↦ .bind (push_relocates p.1) fun _ ↦ emit_relocates _
  | localGet index =>
    exact .bind (localType_relocates ctx pos index) fun t ↦ .bind (push_relocates t) fun _ ↦
      emit_relocates _
  | localSet index =>
    exact .bind (localType_relocates ctx pos index) fun t ↦ .bind (popType_relocates pos t) fun _ ↦
      emit_relocates _
  | localTee index =>
    exact .bind (localType_relocates ctx pos index) fun t ↦ .bind (popType_relocates pos t) fun _ ↦
      .bind (push_relocates t) fun _ ↦ emit_relocates _
  | globalGet index =>
    exact .bind (globalType_relocates ctx pos index) fun g ↦ .bind (push_relocates g.type) fun _ ↦
      emit_relocates _
  | globalSet index =>
    refine .bind (globalType_relocates ctx pos index) fun g ↦ ?_
    have hstore : Relocates φ (do emit (.globalSet index (← popType pos g.type)))
        (do emit (.globalSet index (← popType (φ pos) g.type))) :=
      .bind (popType_relocates pos g.type) fun _ ↦ emit_relocates _
    exact .ite (.bind (fail_relocates pos _) fun _ ↦ hstore) hstore
  | load access arg =>
    exact .bind (checkAccess_relocates ctx pos access arg) fun _ ↦
      .bind (popType_relocates pos .i32) fun _ ↦
        .bind (push_relocates .i32) fun _ ↦ emit_relocates _
  | store access arg =>
    exact .bind (checkAccess_relocates ctx pos access arg) fun _ ↦
      .bind (popType_relocates pos .i32) fun _ ↦ .bind (popType_relocates pos .i32) fun _ ↦
        emit_relocates _
  | memorySize =>
    exact .bind (requireMemory_relocates ctx pos) fun _ ↦ .bind (push_relocates .i32) fun _ ↦
      emit_relocates _
  | memoryGrow =>
    exact .bind (requireMemory_relocates ctx pos) fun _ ↦ .bind (popType_relocates pos .i32) fun _ ↦
      .bind (push_relocates .i32) fun _ ↦ emit_relocates _
  | const value => exact .bind (push_relocates value.type) fun _ ↦ emit_relocates _
  | unary op =>
    exact .bind (popType_relocates pos op.operand) fun _ ↦ .bind (push_relocates op.result) fun _ ↦
      emit_relocates _
  | binary op =>
    exact .bind (popType_relocates pos op.operand) fun _ ↦
      .bind (popType_relocates pos op.operand) fun _ ↦ .bind (push_relocates op.result) fun _ ↦
        emit_relocates _

/-- A function ends alike, wherever it stands. -/
theorem finish_relocates (pos : Nat) : Relocates φ (finish pos) (finish (φ pos)) :=
  .get_bind fun d ↦ .bind (checkEnd_relocates pos d.scope) fun _ ↦ .ite (.pure _) (.pure _)

end Build

/-! ## Bodies -/

namespace Reader

variable {k : Nat}

/-- A compiler that moves with its draft, run inside a reader that moves with its input. -/
theorem building_shifts {α : Type} {b b' : Build α} (h : Build.Relocates (· + k) b b') (d : Draft) :
    Moves (Cursor.shift k) (DecodeError.relocate (· + k)) (fun p ↦ (p.1, p.2.relocate (· + k)))
      (building d b) (building (d.relocate (· + k)) b') := by
  unfold building
  rw [h d]
  cases b.run d with
  | ok a d' => exact .pure (a, d')
  | error e d' => exact .throw e

/-- A function body moves as a whole, by induction on the bytes that are left of it. -/
theorem instructions_shifts (ctx : Context) (n : Nat) (d : Draft) :
    Shifts k (instructions ctx n d) (instructions ctx n (d.relocate (· + k))) := by
  induction n generalizing d with
  | zero => exact endOfInput_shifts
  | succ n ih =>
    have houter : (d.relocate (· + k)).outer.isEmpty = d.outer.isEmpty := by simp [Draft.relocate]
    unfold instructions
    rw [houter]
    exact offset_bind_shifts fun pos ↦ .bind instr_shifts fun i ↦
      .ite (.bind (building_shifts (Build.finish_relocates pos) d) fun p ↦ .pure _)
        (.bind (building_shifts (Build.step_relocates ctx pos i) d) fun p ↦ ih p.2)

/-- The code of a function does not depend on where it stands in the binary. -/
theorem code_shifts (config : Config) (m : Module) (type : FuncType)
    (decls : List (Nat × ValueType)) :
    Shifts k (code config m type decls) (code config m type decls) := by
  refine offset_bind_shifts fun start ↦ .ite (.bind (failAt_shifts start _) fun _ ↦ ?_) ?_
  all_goals
    refine .get_bind fun c ↦ ?_
    exact Moves.bind (v := id) (instructions_shifts _ c.remaining (Draft.start type start))
      fun _ ↦ .pure _

end Reader

end WasmEngine
