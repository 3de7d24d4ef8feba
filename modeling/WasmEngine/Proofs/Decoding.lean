import WasmEngine.Module.Encoding
import WasmEngine.Proofs.Bodies
import WasmEngine.Proofs.ImportCounts
import WasmEngine.Proofs.Reading

/-!
# What decoding checks

Every index, type and initializer in a decoded module is good for what earlier sections declare.
The sections of a binary come in a fixed order. So a section never changes what an earlier one was
checked against, and whatever belongs to a later one is still empty while it is read.
-/

namespace WasmEngine

/-- The type of an initializer, given the imported globals. -/
def ConstExpr.HasType (globals : List GlobalType) : ConstExpr → ValueType → Prop
  | .value v, t => v.type = t
  | .globalGet index, t => ∃ g, globals[index]? = some g ∧ g.type = t

namespace Module

/-- What the sections read so far have been checked for. -/
structure Checked (m : Module) : Prop where
  counted : m.Counted
  imports : ∀ t ∈ m.importedFuncs, t < m.types.length
  funcs : ∀ t ∈ m.funcs, t < m.types.length
  globals : ∀ g ∈ m.globals, g.init.HasType m.importedGlobals g.type.type
  exports : ∀ e ∈ m.exports, e.index < m.spaceSize e.kind
  start : ∀ index, m.start = some index → m.funcType? index = some ⟨[], []⟩
  elements : ∀ seg ∈ m.elements, m.tableSpace ≠ [] ∧
    seg.offset.HasType m.importedGlobals .i32 ∧ ∀ f ∈ seg.funcs, f < m.funcSpace.length
  code : ∀ (i : Nat) (code : Code), m.code[i]? = some code → ∃ t, m.funcs[i]? = some t ∧
    m.types[t]? = some code.type ∧ ∃ is, code.CompiledFrom m is
  data : ∀ seg ∈ m.data, m.memorySpace ≠ [] ∧ seg.offset.HasType m.importedGlobals .i32

/-- What belongs to sections with numbers above `n` is empty. -/
structure Filled (n : Nat) (m : Module) : Prop where
  types : n < 1 → m.types = []
  imports : n < 2 → m.imports = []
  funcs : n < 3 → m.funcs = []
  tables : n < 4 → m.tables = []
  memories : n < 5 → m.memories = []
  globals : n < 6 → m.globals = []
  exports : n < 7 → m.exports = []
  start : n < 8 → m.start = none
  elements : n < 9 → m.elements = []
  code : n < 10 → m.code = []
  data : n < 11 → m.data = []

theorem Filled.mono {n n' : Nat} {m : Module} (h : m.Filled n) (hle : n ≤ n') : m.Filled n' where
  types hn := h.types (by omega)
  imports hn := h.imports (by omega)
  funcs hn := h.funcs (by omega)
  tables hn := h.tables (by omega)
  memories hn := h.memories (by omega)
  globals hn := h.globals (by omega)
  exports hn := h.exports (by omega)
  start hn := h.start (by omega)
  elements hn := h.elements (by omega)
  code hn := h.code (by omega)
  data hn := h.data (by omega)

/-- A module that was read up to the section with number `n`. -/
structure Upto (n : Nat) (m : Module) : Prop where
  checked : m.Checked
  filled : m.Filled n

/-- A section that is missing leaves its part empty. -/
theorem Upto.mono {n n' : Nat} {m : Module} (h : m.Upto n) (hle : n ≤ n') : m.Upto n' :=
  ⟨h.checked, h.filled.mono hle⟩

theorem declarations_eq_self {m : Module} (hcode : m.code = []) (hdata : m.data = []) :
    m.declarations = m := by
  cases m
  cases hcode
  cases hdata
  rfl

/-- Nothing has been checked of an empty module, and nothing has to be. -/
theorem upto_empty : Upto 0 {} where
  checked := by
    constructor
    · rfl
    all_goals simp [importedFuncs]
  filled := by constructor <;> simp

end Module

namespace Reader

/-- The instructions of an entry of the code section. -/
def bodyEntry : Reader (List Instr) := do
  let size ← varuint32
  let body ← sub size
  within body do
    let _ ← vector localDecl
    opcodes (← get).remaining 0

end Reader

namespace Reader.Yields

variable {α : Type} {P : α → Prop}

/-- An invariant of the entries of a section, by induction on how many are to come. -/
theorem entries {entry : α → Reader α} (hentry : ∀ a, P a → Yields (entry a) P) (n : Nat) {a : α}
    (ha : P a) : Yields (entries entry n a) P := by
  induction n generalizing a with
  | zero => exact pure ha
  | succ n ih => exact bind (hentry a ha) fun a' ha' ↦ ih ha'

theorem counted {entry : α → Reader α} (hentry : ∀ a, P a → Yields (entry a) P) {a : α}
    (ha : P a) : Yields (counted entry a) P :=
  bind varuint32_yields fun n _ ↦ entries hentry n ha

/-- If a check passes for all items, each has what it checks. -/
theorem forM {f : α → Reader Unit} {l : List α} (hf : ∀ a ∈ l, Yields (f a) fun _ ↦ P a) :
    Yields (l.forM f) fun _ ↦ ∀ a ∈ l, P a := by
  induction l with
  | nil => exact pure (by simp)
  | cons a l ih =>
    refine bind (hf a List.mem_cons_self) fun _ ha ↦ ?_
    refine (ih fun b hb ↦ hf b (List.mem_cons_of_mem a hb)).mono fun _ hl ↦ ?_
    exact List.forall_mem_cons.mpr ⟨ha, hl⟩

end Reader.Yields

namespace Module

open Reader

variable {m : Module}

/-! ## Parts of entries -/

theorem requireType_yields (pos index : Nat) :
    Yields (m.requireType pos index) fun type ↦ m.types[index]? = some type := by
  unfold requireType
  split
  · rename_i htype
    exact .pure htype
  · exact .failAt

/-- Looking for a type reads nothing. -/
theorem requireType_eq_ok {pos index : Nat} {c c' : Cursor} {type : FuncType}
    (h : (m.requireType pos index).run c = .ok type c') :
    m.types[index]? = some type ∧ c = c' := by
  unfold requireType at h
  split at h
  · rename_i htype
    obtain ⟨rfl, rfl⟩ := run_pure_eq_ok.mp h
    exact ⟨htype, rfl⟩
  · exact (run_throw_eq_ok.mp h).elim

theorem requireFunc_yields (pos index : Nat) :
    Yields (m.requireFunc pos index) fun type ↦ m.funcType? index = some type := by
  unfold requireFunc
  split
  · rename_i htype
    exact .pure htype
  · exact .failAt

theorem checkSingletons_yields (pos : Nat) : Yields (m.checkSingletons pos) fun _ ↦ True := by
  unfold checkSingletons
  exact .guard fun _ ↦ .ite (fun _ ↦ .failAt) fun _ ↦ .pure trivial

theorem constExpr_yields : Yields constExpr fun _ ↦ True := by
  have hinit (start : Nat) : Yields (initializer start) fun _ ↦ True := by
    refine .bind .byte fun opcode _ ↦ ?_
    split
    · exact .bind varint32_yields fun _ _ ↦ .pure trivial
    · exact varint64_yields
    · exact .bind (.fixed 4) fun _ _ ↦ .pure trivial
    · exact .bind (.fixed 8) fun _ _ ↦ .pure trivial
    · exact .bind varuint32_yields fun _ _ ↦ .pure trivial
    · exact .failAt
  exact .bind .offset fun start _ ↦ .bind (hinit start) fun _ _ ↦ .bind .byte fun _ _ ↦
    .guard fun _ ↦ .pure trivial

/-- An initializer that passes has the expected type, and reads imported globals only. -/
theorem checkConstExpr_yields (hm : m.Counted) (pos : Nat) (e : ConstExpr) (t : ValueType) :
    Yields (m.checkConstExpr pos e t) fun _ ↦ e.HasType m.importedGlobals t := by
  have htype : Yields (m.constExprType pos e) fun found ↦ e.HasType m.importedGlobals found := by
    cases e with
    | value v => exact .pure rfl
    | globalGet index =>
      simp only [constExprType]
      refine .guard fun hindex ↦ ?_
      split
      · rename_i g hg
        exact .pure ⟨g, hm.importedGlobals_eq_some_iff.mpr ⟨Nat.lt_of_not_le hindex, hg⟩, rfl⟩
      · exact .failAt
  refine .bind htype fun found hfound ↦ .ite (fun _ ↦ .failAt) fun heq ↦ .pure ?_
  rw [not_not] at heq
  exact heq ▸ hfound

/-- A segment that passes has a target. -/
theorem segmentTarget_yields (place : ReservedIndex) (space : IndexSpace) (available : Nat) :
    Yields (segmentTarget place space available) fun _ ↦ available ≠ 0 :=
  .bind .offset fun _ _ ↦ .bind varuint32_yields fun _ _ ↦ .guard fun _ ↦
    .ite (fun _ ↦ .failAt) fun h ↦ .pure h

theorem segmentOffset_yields (hm : m.Counted) :
    Yields m.segmentOffset fun e ↦ e.HasType m.importedGlobals .i32 :=
  .bind .offset fun pos _ ↦ .bind constExpr_yields fun e _ ↦
    .bind (checkConstExpr_yields hm pos e .i32) fun _ he ↦ .pure he

/-- A function that has a type is in the index space. -/
theorem funcType?_lt (hm : m.Counted) {index : Nat} {type : FuncType}
    (h : m.funcType? index = some type) : index < m.funcSpace.length := by
  rw [hm.funcType?_eq] at h
  obtain ⟨t, ht, -⟩ := Option.bind_eq_some_iff.mp h
  exact (List.getElem?_eq_some_iff.mp ht).1

/-! ## Sections -/

/-- Types refer to nothing else. -/
theorem typeSection_yields (h : m.Upto 0) : Yields m.typeSection (Upto 1) := by
  refine .bind (vector_yields funcType_yields) fun types _ ↦ .pure ?_
  have hf := h.filled
  exact {
    checked := by
      constructor
      · exact h.checked.counted
      all_goals simp [importedFuncs, hf.imports, hf.funcs, hf.globals, hf.exports, hf.start,
        hf.elements, hf.code, hf.data]
    filled := { hf.mono (Nat.zero_le 1) with types := fun hn ↦ absurd hn (by decide) } }

theorem importDesc_yields (start : Nat) :
    Yields (m.importDesc start) fun desc ↦ ∀ t ∈ desc.func?, t < m.types.length := by
  refine .bind externKind_yields fun kind _ ↦ ?_
  split
  · refine .bind varuint32_yields fun index _ ↦ .bind (requireType_yields start index) ?_
    intro type htype
    refine .pure ?_
    simpa [ImportDesc.func?] using (List.getElem?_eq_some_iff.mp htype).1
  · exact .bind tableType_yields fun _ _ ↦ .pure (by simp [ImportDesc.func?])
  · exact .bind memoryType_yields fun _ _ ↦ .pure (by simp [ImportDesc.func?])
  · exact .bind globalType_yields fun _ _ ↦ .pure (by simp [ImportDesc.func?])

/-- An import is counted as it is appended, so that the counts stay right. -/
theorem importEntry_yields (h : m.Upto 2) : Yields m.importEntry (Upto 2) := by
  refine .bind .offset fun start _ ↦ .bind name_yields fun module _ ↦
    .bind name_yields fun item _ ↦ .bind (importDesc_yields start) fun desc hdesc ↦
      .bind (checkSingletons_yields start) fun _ _ ↦ .pure ?_
  have hf := h.filled
  refine ⟨⟨h.checked.counted.pushImport _, ?_, ?_, ?_, ?_, ?_, ?_, ?_, ?_⟩,
    { hf with imports := fun hn ↦ absurd hn (by decide) }⟩
  · intro t ht
    simp only [importedFuncs, pushImport, List.filterMap_append, List.mem_append] at ht
    obtain ht | ht := ht
    · exact h.checked.imports t ht
    · simp only [List.filterMap_cons, List.filterMap_nil] at ht
      split at ht
      · simp at ht
      · rename_i t' ht'
        obtain rfl := List.mem_singleton.mp ht
        exact hdesc t ht'
  all_goals
    simp [pushImport, hf.funcs, hf.globals, hf.exports, hf.start, hf.elements, hf.code, hf.data]

/-- All functions have types. -/
theorem functionSection_yields (h : m.Upto 2) : Yields m.functionSection (Upto 3) := by
  have hindex : Yields (do
      let pos ← offset
      let index ← varuint32
      return (pos, index)) fun _ ↦ True :=
    .bind .offset fun _ _ ↦ .bind varuint32_yields fun _ _ ↦ .pure trivial
  refine .bind (vector_yields hindex) fun indices _ ↦ ?_
  have hcheck (p : Nat × Nat) : Yields (do let _ ← m.requireType p.1 p.2)
      fun _ ↦ p.2 < m.types.length :=
    .bind (requireType_yields p.1 p.2) fun _ htype ↦
      .pure (List.getElem?_eq_some_iff.mp htype).1
  refine .bind (.forM fun p _ ↦ hcheck p) fun _ hindices ↦ .pure ?_
  have hf := h.filled
  refine ⟨⟨h.checked.counted, h.checked.imports, ?_, ?_, ?_, ?_, ?_, ?_, ?_⟩,
    { hf.mono (Nat.le_succ 2) with funcs := fun hn ↦ absurd hn (by decide) }⟩
  · intro t ht
    obtain ⟨p, hp, rfl⟩ := List.mem_map.mp ht
    exact hindices p hp
  all_goals simp [hf.globals, hf.exports, hf.start, hf.elements, hf.code, hf.data]

/-- Tables come before whatever needs one, so that nothing has to be checked again. -/
theorem tableSection_yields (h : m.Upto 3) : Yields m.tableSection (Upto 4) := by
  refine .bind .offset fun start _ ↦ .bind (vector_yields tableType_yields) fun tables _ ↦
    .bind (checkSingletons_yields start) fun _ _ ↦ .pure ?_
  have hf := h.filled
  exact {
    checked := { h.checked with
      exports := by simp [hf.exports]
      elements := by simp [hf.elements]
      code := by simp [hf.code] }
    filled := { hf.mono (Nat.le_succ 3) with tables := fun hn ↦ absurd hn (by decide) } }

theorem memorySection_yields (h : m.Upto 4) : Yields m.memorySection (Upto 5) := by
  refine .bind .offset fun start _ ↦ .bind (vector_yields memoryType_yields) fun memories _ ↦
    .bind (checkSingletons_yields start) fun _ _ ↦ .pure ?_
  have hf := h.filled
  exact {
    checked := { h.checked with
      exports := by simp [hf.exports]
      code := by simp [hf.code]
      data := by simp [hf.data] }
    filled := { hf.mono (Nat.le_succ 4) with memories := fun hn ↦ absurd hn (by decide) } }

/-- A global may not read the globals before it, but only imported ones. -/
theorem globalEntry_yields (h : m.Upto 6) : Yields m.globalEntry (Upto 6) := by
  refine .bind globalType_yields fun type _ ↦ .bind .offset fun pos _ ↦
    .bind constExpr_yields fun init _ ↦
    .bind (checkConstExpr_yields h.checked.counted pos init type.type) fun _ hinit ↦
      .pure ?_
  have hf := h.filled
  exact {
    checked := { h.checked with
      globals := by
        intro g hg
        obtain hg | hg := List.mem_append.mp hg
        · exact h.checked.globals g hg
        · obtain rfl := List.mem_singleton.mp hg
          exact hinit
      exports := by simp [hf.exports]
      code := by simp [hf.code] }
    filled := { hf with globals := fun hn ↦ absurd hn (by decide) } }

/-- Exports come behind all index spaces, which are complete then. -/
theorem exportEntry_yields (h : m.Upto 7) : Yields m.exportEntry (Upto 7) := by
  refine .bind name_yields fun item _ ↦ .bind .offset fun pos _ ↦
    .bind externKind_yields fun kind _ ↦ .bind varuint32_yields fun index _ ↦
      .ite (fun _ ↦ .bind (P := fun _ ↦ False) .throw fun _ hfalse ↦ hfalse.elim) fun _ ↦
        .guard fun hindex ↦ .pure ?_
  have hf := h.filled
  exact {
    checked := { h.checked with
      exports := by
        intro e he
        obtain he | he := List.mem_append.mp he
        · exact h.checked.exports e he
        · obtain rfl := List.mem_singleton.mp he
          exact Nat.lt_of_not_le hindex
      code := by simp [hf.code] }
    filled := { hf with exports := fun hn ↦ absurd hn (by decide) } }

/-- The start function has no parameters and no result. -/
theorem startSection_yields (h : m.Upto 7) : Yields m.startSection (Upto 8) := by
  refine .bind .offset fun pos _ ↦ .bind varuint32_yields fun index _ ↦
    .bind (requireFunc_yields pos index) fun type htype ↦ .guard fun hempty ↦ .pure ?_
  rw [not_not] at hempty
  have hf := h.filled
  exact {
    checked := { h.checked with
      start := by
        rintro index' ⟨⟩
        rw [← hempty]
        exact htype
      code := by simp [hf.code] }
    filled := { hf.mono (Nat.le_succ 7) with start := fun hn ↦ absurd hn (by decide) } }

/-- The functions of a segment exist. -/
theorem elementEntry_yields (h : m.Upto 9) : Yields m.elementEntry (Upto 9) := by
  have hcounted := h.checked.counted
  have hfunc : Yields (do
      let pos ← offset
      let index ← varuint32
      let _ ← m.requireFunc pos index
      return index) fun index ↦ index < m.funcSpace.length :=
    .bind .offset fun pos _ ↦ .bind varuint32_yields fun index _ ↦
      .bind (requireFunc_yields pos index) fun _ htype ↦ .pure (funcType?_lt hcounted htype)
  refine .bind (segmentTarget_yields _ _ _) fun _ htable ↦
    .bind (segmentOffset_yields hcounted) fun e he ↦
      .bind (vector_yields hfunc) fun funcs hfuncs ↦ .pure ?_
  have hf := h.filled
  exact {
    checked := { h.checked with
      elements := by
        intro seg hseg
        obtain hseg | hseg := List.mem_append.mp hseg
        · exact h.checked.elements seg hseg
        · obtain rfl := List.mem_singleton.mp hseg
          exact ⟨mt hcounted.spaceSize_table_eq_zero.mpr htable, he, hfuncs⟩
      code := by simp [hf.code] }
    filled := { hf with elements := fun hn ↦ absurd hn (by decide) } }

/-- An entry of the code section that is compiled is a body, and what is compiled comes from its
instructions. -/
theorem codeEntry_eq_ok {config : Config} {typeIndex : Nat} {c c' : Cursor} {code : Code}
    (hm : m.declarations = m) (h : (m.codeEntry config typeIndex).run c = .ok code c') :
    c.Before c' ∧ m.types[typeIndex]? = some code.type ∧
      ∃ is, bodyEntry.run c = .ok is c' ∧ code.CompiledFrom m is := by
  obtain ⟨size, c₁, hsize, h⟩ := run_bind_eq_ok.mp h
  obtain ⟨body, c₂, hsub, h⟩ := run_bind_eq_ok.mp h
  obtain ⟨rfl, c₃, h⟩ := run_within_eq_ok.mp h
  obtain ⟨start, _, hstart, h⟩ := run_bind_eq_ok.mp h
  obtain ⟨-, rfl⟩ := run_offset_eq_ok.mp hstart
  obtain ⟨decls, c₄, hdecls, h⟩ := run_bind_eq_ok.mp h
  obtain ⟨type, c₅, hlook, h⟩ := run_bind_eq_ok.mp h
  obtain ⟨htype, rfl⟩ := requireType_eq_ok hlook
  obtain ⟨rfl, is, hopcodes, hcompiled⟩ := code_compiled hm h
  have hbefore := (varuint32_yields _ _ _ hsize).1.trans (Yields.sub _ _ _ _ hsub).1
  refine ⟨hbefore, htype, is, ?_, hcompiled⟩
  refine run_bind_eq_ok.mpr ⟨size, c₁, hsize, run_bind_eq_ok.mpr ⟨body, c₂, hsub, ?_⟩⟩
  refine run_within_eq_ok.mpr ⟨rfl, c₃, run_bind_eq_ok.mpr ⟨decls, c₄, hdecls, ?_⟩⟩
  exact run_bind_eq_ok.mpr ⟨c₄, c₄, run_get_eq_ok.mpr ⟨rfl, rfl⟩, hopcodes⟩

/-- Bodies are compiled one by one. The same bytes, read without compiling them, are lists of
instructions from which the code comes. -/
theorem codeEntries_eq_ok {config : Config} {ts : List Nat} {c c' : Cursor} {codes : List Code}
    (hm : m.declarations = m) (h : (m.codeEntries config ts).run c = .ok codes c') :
    c.Before c' ∧ List.Forall₂ (fun t code ↦ m.types[t]? = some code.type) ts codes ∧
      ∃ bodies, (repeated bodyEntry ts.length).run c = .ok bodies c' ∧
        List.Forall₂ (Code.CompiledFrom m) codes bodies := by
  induction ts generalizing c codes with
  | nil =>
    obtain ⟨rfl, rfl⟩ := run_pure_eq_ok.mp h
    exact ⟨.refl c, .nil, [], run_pure_eq_ok.mpr ⟨rfl, rfl⟩, .nil⟩
  | cons t ts ih =>
    obtain ⟨code, c₁, hcode, h⟩ := run_bind_eq_ok.mp h
    obtain ⟨codes, c₂, hcodes, h⟩ := run_bind_eq_ok.mp h
    obtain ⟨rfl, rfl⟩ := run_pure_eq_ok.mp h
    obtain ⟨hbefore, htype, is, hbody, hcompiled⟩ := codeEntry_eq_ok hm hcode
    obtain ⟨hbefore', htypes, bodies, hbodies, hall⟩ := ih hcodes
    refine ⟨hbefore.trans hbefore', .cons htype htypes, is :: bodies, ?_, .cons hcompiled hall⟩
    refine run_bind_eq_ok.mpr ⟨is, c₁, hbody, run_bind_eq_ok.mpr ⟨bodies, c₂, hbodies, ?_⟩⟩
    exact run_pure_eq_ok.mpr ⟨rfl, rfl⟩

/-- Each function has the code of its body. Code is compiled in a module that has none, but only its
declarations matter. -/
theorem codeSection_eq_ok {config : Config} {m' : Module} {c c' : Cursor} (h : m.Upto 9)
    (hrun : (m.codeSection config).run c = .ok m' c') :
    c.Before c' ∧ m'.Upto 10 ∧ ∃ bodies, (vector bodyEntry).run c = .ok bodies c' ∧
      List.Forall₂ (Code.CompiledFrom m') m'.code bodies := by
  have hf := h.filled
  have hm := declarations_eq_self (hf.code (by decide)) (hf.data (by decide))
  obtain ⟨count, c₁, hcount, hrun⟩ := run_bind_eq_ok.mp hrun
  rw [run_ite] at hrun
  split at hrun
  · simp only [run_bind_eq_ok, run_throw_eq_ok, false_and, exists_false] at hrun
  · rename_i hlength
    rw [not_not] at hlength
    obtain ⟨codes, c₂, hcodes, hrun⟩ := run_bind_eq_ok.mp hrun
    obtain ⟨rfl, rfl⟩ := run_pure_eq_ok.mp hrun
    obtain ⟨hbefore, htypes, bodies, hbodies, hall⟩ := codeEntries_eq_ok hm hcodes
    rw [← hlength] at hbodies
    have hcompiled : List.Forall₂ (Code.CompiledFrom { m with code := codes }) codes bodies :=
      hall
    refine ⟨(varuint32_yields _ _ _ hcount).1.trans hbefore, ⟨?_, ?_⟩, bodies,
      run_bind_eq_ok.mpr ⟨count, c₁, hcount, hbodies⟩, hcompiled⟩
    · refine { h.checked with code := ?_ }
      intro i code hcode
      obtain ⟨t, ht, htype⟩ := forall₂_getElem?_right htypes hcode
      obtain ⟨is, -, his⟩ := forall₂_getElem?_left hcompiled hcode
      exact ⟨t, ht, htype, is, his⟩
    · exact { hf.mono (Nat.le_succ 9) with code := fun hn ↦ absurd hn (by decide) }

/-- A data segment has a memory, and an offset that is an `i32`. -/
theorem dataEntry_yields (h : m.Upto 11) : Yields m.dataEntry (Upto 11) := by
  have hcounted := h.checked.counted
  refine .bind (segmentTarget_yields _ _ _) fun _ hmemory ↦
    .bind (segmentOffset_yields hcounted) fun e he ↦ .bind byteString_yields fun bytes _ ↦ .pure ?_
  exact {
    checked := { h.checked with
      data := by
        intro seg hseg
        obtain hseg | hseg := List.mem_append.mp hseg
        · exact h.checked.data seg hseg
        · obtain rfl := List.mem_singleton.mp hseg
          exact ⟨mt hcounted.spaceSize_memory_eq_zero.mpr hmemory, he⟩ }
    filled := { h.filled with data := fun hn ↦ absurd hn (by decide) } }

/-- Each section passes its own checks, and keeps what those before it have passed. -/
theorem sectionPayload_yields {config : Config} {previous : Nat} {id : SectionId}
    (h : m.Upto previous) (hid : previous < id.number) :
    Yields (m.sectionPayload config id) (Upto id.number) := by
  cases id with
  | custom => exact absurd hid (Nat.not_lt_zero _)
  | type => exact typeSection_yields (h.mono (Nat.le_of_lt_succ hid))
  | imports => exact .counted (fun _ ↦ importEntry_yields) (h.mono (Nat.le_of_lt hid))
  | function => exact functionSection_yields (h.mono (Nat.le_of_lt_succ hid))
  | table => exact tableSection_yields (h.mono (Nat.le_of_lt_succ hid))
  | memory => exact memorySection_yields (h.mono (Nat.le_of_lt_succ hid))
  | global => exact .counted (fun _ ↦ globalEntry_yields) (h.mono (Nat.le_of_lt hid))
  | exports => exact .counted (fun _ ↦ exportEntry_yields) (h.mono (Nat.le_of_lt hid))
  | start => exact startSection_yields (h.mono (Nat.le_of_lt_succ hid))
  | element => exact .counted (fun _ ↦ elementEntry_yields) (h.mono (Nat.le_of_lt hid))
  | code =>
    intro c m' c' hrun
    obtain ⟨hbefore, hm', -⟩ := codeSection_eq_ok (h.mono (Nat.le_of_lt_succ hid)) hrun
    exact ⟨hbefore, hm'⟩
  | data => exact .counted (fun _ ↦ dataEntry_yields) (h.mono (Nat.le_of_lt hid))

end Module

/-! ## Modules -/

namespace Reader

open WasmEngine.Module

variable {config : Config} {m m' : Module} {c c' : Cursor} {previous : Nat}

theorem run_skip_eq_ok {n : Nat} {u : Unit} :
    (skip n).run c = .ok u c' ↔ n ≤ c.remaining ∧ c' = c.advance n := by
  have hbytes {bs : List UInt8} {c' : Cursor} : (bytes n).run c = .ok bs c' ↔
      n ≤ c.remaining ∧ bs = c.rest.take n ∧ c' = c.advance n := by
    change (if n ≤ c.remaining then EStateM.Result.ok (c.rest.take n) (c.advance n)
      else endOfInput c) = .ok bs c' ↔ _
    split
    · rename_i hn
      simp [hn, eq_comm]
    · rename_i hn
      simp [hn, endOfInput]
  simp only [skip, run_bind_eq_ok, hbytes, run_pure_eq_ok]
  constructor
  · rintro ⟨_, _, ⟨hn, -, rfl⟩, -, rfl⟩
    exact ⟨hn, rfl⟩
  · rintro ⟨hn, rfl⟩
    exact ⟨_, _, ⟨hn, rfl, rfl⟩, trivial, rfl⟩

/-- The payload starts where the header ends. -/
theorem sectionHeader_eq_ok {hd : SectionHeader} (h : sectionHeader.run c = .ok hd c') :
    hd.payload = c'.offset := by
  simp only [sectionHeader, run_bind_eq_ok, run_offset_eq_ok] at h
  obtain ⟨_, _, ⟨-, rfl⟩, _, _, -, h⟩ := h
  split at h
  · exact (run_throw_eq_ok.mp h).elim
  · simp only [run_bind_eq_ok, run_offset_eq_ok, run_pure_eq_ok] at h
    obtain ⟨_, _, -, _, _, ⟨rfl, rfl⟩, rfl, rfl⟩ := h
    rfl

/-- A section ends where its header says, however far its entries reach. -/
theorem finishSection_eq_ok {hd : SectionHeader} {c₁ : Cursor} {u : Unit}
    (hpayload : hd.payload = c₁.offset) (hbefore : c₁.Before c)
    (h : (finishSection hd).run c = .ok u c') : (skip hd.length).run c₁ = .ok () c' := by
  obtain ⟨k, hk, rfl⟩ := hbefore
  simp only [finishSection, run_bind_eq_ok, run_offset_eq_ok] at h
  obtain ⟨_, _, ⟨rfl, rfl⟩, h⟩ := h
  have hend : hd.endOffset = c₁.offset + hd.length := by rw [SectionHeader.endOffset, hpayload]
  have hpos : (c₁.advance k).offset = c₁.offset + k := rfl
  have hremaining : (c₁.advance k).remaining = c₁.remaining - k := List.length_drop
  rw [run_ite] at h
  split at h
  · simp only [failAt, run_bind_eq_ok, run_throw_eq_ok, false_and, exists_false] at h
  · rename_i hover
    rw [run_ite] at h
    split at h
    · obtain ⟨hn, rfl⟩ := run_skip_eq_ok.mp h
      rw [Cursor.advance_advance]
      refine run_skip_eq_ok.mpr ⟨by omega, congrArg _ (by omega)⟩
    · obtain ⟨-, rfl⟩ := run_pure_eq_ok.mp h
      have hlength : k = hd.length := by omega
      exact run_skip_eq_ok.mpr ⟨hlength ▸ hk, congrArg _ hlength⟩

/-- A section is custom, and then changes nothing, or its entries are read into the module. -/
theorem oneSection_eq_ok {p : Nat} (h : m.Upto previous)
    (hrun : (oneSection config previous m).run c = .ok (p, m') c') :
    ∃ hd c₁, sectionHeader.run c = .ok hd c₁ ∧ (skip hd.length).run c₁ = .ok () c' ∧
      ((hd.id = .custom ∧ previous = p ∧ m = m') ∨
        (previous < hd.id.number ∧ hd.id.number = p ∧
          ∃ c₂, (m.sectionPayload config hd.id).run c₁ = .ok m' c₂)) := by
  simp only [oneSection, run_bind_eq_ok, run_offset_eq_ok] at hrun
  obtain ⟨_, _, ⟨-, rfl⟩, hd, c₁, hheader, hrun⟩ := hrun
  refine ⟨hd, c₁, hheader, ?_⟩
  rw [run_ite] at hrun
  split at hrun
  · rename_i hcustom
    simp only [run_bind_eq_ok, run_pure_eq_ok, Prod.mk.injEq] at hrun
    obtain ⟨_, c₂, hskip, ⟨rfl, rfl⟩, rfl⟩ := hrun
    exact ⟨hskip, .inl ⟨hcustom, rfl, rfl⟩⟩
  · rw [run_ite] at hrun
    split at hrun
    · simp only [failAt, run_bind_eq_ok, run_throw_eq_ok, false_and, exists_false] at hrun
    · rename_i hnumber
      simp only [run_bind_eq_ok, run_pure_eq_ok, Prod.mk.injEq] at hrun
      obtain ⟨m₁, c₂, hpayload, _, c₃, hfinish, ⟨rfl, rfl⟩, rfl⟩ := hrun
      have hlt : previous < hd.id.number := Nat.lt_of_not_le hnumber
      have hbefore := (sectionPayload_yields h hlt _ _ _ hpayload).1
      exact ⟨finishSection_eq_ok (sectionHeader_eq_ok hheader) hbefore hfinish,
        .inr ⟨hlt, rfl, c₂, hpayload⟩⟩

/-- The instructions of all functions: those of the code section, which other sections may precede.
The number of bytes left bounds how many sections there are. -/
def bodies : Nat → Reader (List (List Instr))
  | 0 => return []
  | n + 1 => do
    if (← get).isEnd then return []
    let hd ← sectionHeader
    if hd.id = .code then vector bodyEntry
    else
      skip hd.length
      bodies n

theorem bodies_of_isEnd {n : Nat} (h : c.isEnd = true) : (bodies (n + 1)).run c = .ok [] c := by
  simp only [bodies, EStateM.run_bind, EStateM.run_get, h, if_true, EStateM.run_pure]

/-- Bodies are found by skipping all sections before that of the code. -/
theorem bodies_of_section {n : Nat} {hd : SectionHeader} {c₁ : Cursor} (hend : ¬c.isEnd = true)
    (hheader : sectionHeader.run c = .ok hd c₁) :
    (bodies (n + 1)).run c =
      if hd.id = .code then (vector bodyEntry).run c₁
      else (do skip hd.length; bodies n : Reader _).run c₁ := by
  simp only [bodies, EStateM.run_bind, EStateM.run_get, hend, Bool.false_eq_true, if_false,
    hheader, run_ite]

/-- Data segments come after the code and leave it as it is. -/
theorem dataSection_yields (hm : m.Counted) : Yields m.dataSection
    fun m' ↦ m'.code = m.code ∧ m'.declarations = m.declarations := by
  have hentry (m₁ : Module) (h : m₁.Counted ∧ m₁.code = m.code ∧ m₁.declarations = m.declarations) :
      Yields m₁.dataEntry fun m' ↦
        m'.Counted ∧ m'.code = m.code ∧ m'.declarations = m.declarations :=
    .bind (segmentTarget_yields _ _ _) fun _ _ ↦ .bind (segmentOffset_yields h.1) fun _ _ ↦
      .bind byteString_yields fun _ _ ↦ .pure h
  exact (Yields.counted hentry ⟨hm, rfl, rfl⟩).mono fun _ h ↦ h.2

/-- Going through the sections, the decoder finds the code section where the bodies are. -/
theorem allSections_eq_ok {n : Nat} (h : m.Upto previous)
    (hrun : (allSections config n previous m).run c = .ok m' c') :
    m'.Checked ∧ ∃ bs c₁, (bodies n).run c = .ok bs c₁ ∧
      (previous < 10 → List.Forall₂ (Code.CompiledFrom m') m'.code bs) ∧
      (10 ≤ previous → bs = [] ∧ m'.code = m.code ∧ m'.declarations = m.declarations) := by
  induction n generalizing previous m c with
  | zero =>
    obtain ⟨rfl, rfl⟩ := run_pure_eq_ok.mp hrun
    refine ⟨h.checked, [], c, run_pure_eq_ok.mpr ⟨rfl, rfl⟩, fun hn ↦ ?_, fun _ ↦ ⟨rfl, rfl, rfl⟩⟩
    rw [h.filled.code hn]
    exact .nil
  | succ n ih =>
    simp only [allSections, run_bind_eq_ok, run_get_eq_ok, run_ite] at hrun
    obtain ⟨_, _, ⟨rfl, rfl⟩, hrun⟩ := hrun
    split at hrun
    · rename_i hend
      obtain ⟨rfl, rfl⟩ := run_pure_eq_ok.mp hrun
      refine ⟨h.checked, [], c, bodies_of_isEnd hend, fun hn ↦ ?_, fun _ ↦ ⟨rfl, rfl, rfl⟩⟩
      rw [h.filled.code hn]
      exact .nil
    · rename_i hend
      simp only [run_bind_eq_ok, Prod.exists] at hrun
      obtain ⟨p, m₁, c₁, hone, hrun⟩ := hrun
      obtain ⟨hd, c₂, hheader, hskip, hsection⟩ := oneSection_eq_ok h hone
      rw [bodies_of_section hend hheader]
      obtain ⟨hcustom, rfl, rfl⟩ | ⟨hnumber, rfl, c₃, hpayload⟩ := hsection
      · obtain ⟨hchecked, bs, c₄, hbodies, hresult⟩ := ih h hrun
        rw [if_neg (by simp [hcustom])]
        exact ⟨hchecked, bs, c₄, run_bind_eq_ok.mpr ⟨(), c₁, hskip, hbodies⟩, hresult⟩
      · have hm₁ := (sectionPayload_yields h hnumber _ _ _ hpayload).2
        obtain ⟨hchecked, bs, c₄, hbodies, hbefore, hafter⟩ := ih hm₁ hrun
        by_cases hcode : hd.id = .code
        · rw [hcode] at hnumber hpayload hafter
          obtain ⟨-, -, bs', hbodies', hall⟩ :=
            codeSection_eq_ok (h.mono (Nat.le_of_lt_succ hnumber)) hpayload
          obtain ⟨-, heq, hdecls⟩ := hafter (Nat.le_refl 10)
          rw [if_pos hcode]
          refine ⟨hchecked, bs', c₃, hbodies', fun _ ↦ ?_, fun hn ↦ absurd hnumber ?_⟩
          · rw [heq]
            exact hall.imp fun code is hfrom ↦ hfrom.congr hdecls.symm
          · exact Nat.not_lt_of_le hn
        · rw [if_neg hcode]
          refine ⟨hchecked, bs, c₄, run_bind_eq_ok.mpr ⟨(), c₁, hskip, hbodies⟩, ?_⟩
          by_cases hlate : hd.id.number < 10
          · exact ⟨fun _ ↦ hbefore hlate, fun hn ↦ absurd hnumber (by omega)⟩
          -- Only data segments come after the code section.
          · have hdata : hd.id = .data := by
              cases hid : hd.id <;> simp_all [SectionId.number]
            obtain ⟨rfl, heq, hdecls⟩ := hafter (by omega)
            rw [hdata] at hpayload
            obtain ⟨heq', hdecls'⟩ := (dataSection_yields h.checked.counted _ _ _ hpayload).2
            refine ⟨fun hn ↦ ?_, fun _ ↦ ⟨rfl, heq.trans heq', hdecls.trans hdecls'⟩⟩
            rw [heq, heq', h.filled.code hn]
            exact .nil

end Reader

namespace Module

def bodies (bytes : List UInt8) : Except DecodeError (List (List Instr)) :=
  match (do Reader.preamble; Reader.bodies (← get).remaining : Reader _).run (.ofBytes bytes) with
  | .ok bs _ => .ok bs
  | .error e _ => .error e

structure Valid (m : Module) : Prop extends Checked m where
  complete : m.code.length = m.funcs.length

/-- Every function of a decoded module is compiled from its body in the binary. -/
theorem decode_eq_ok {config : Config} {bytes : List UInt8} {m : Module}
    (h : decode config bytes = .ok m) :
    m.Valid ∧ ∃ bs, Module.bodies bytes = .ok bs ∧
      List.Forall₂ (Code.CompiledFrom m) m.code bs := by
  unfold decode at h
  split at h
  · rename_i m' c' hrun
    obtain rfl := Except.ok.inj h
    obtain ⟨_, c, hpreamble, hrun⟩ := run_bind_eq_ok.mp hrun
    obtain ⟨_, _, hget, hrun⟩ := run_bind_eq_ok.mp hrun
    obtain ⟨rfl, rfl⟩ := run_get_eq_ok.mp hget
    obtain ⟨m₁, c₁, hsections, hrun⟩ := run_bind_eq_ok.mp hrun
    rw [run_ite] at hrun
    split at hrun
    · simp only [run_bind_eq_ok, run_throw_eq_ok, false_and, exists_false] at hrun
    · rename_i hlength
      rw [not_not] at hlength
      obtain ⟨rfl, rfl⟩ := run_pure_eq_ok.mp hrun
      obtain ⟨hchecked, bs, c₂, hbodies, hall, -⟩ :=
        Reader.allSections_eq_ok upto_empty hsections
      refine ⟨⟨hchecked, hlength.symm⟩, bs, ?_, hall (by decide)⟩
      have hread : (do Reader.preamble; Reader.bodies (← get).remaining : Reader _).run
          (.ofBytes bytes) = .ok bs c₂ :=
        run_bind_eq_ok.mpr ⟨(), c, hpreamble,
          run_bind_eq_ok.mpr ⟨c, c, run_get_eq_ok.mpr ⟨rfl, rfl⟩, hbodies⟩⟩
      rw [Module.bodies, hread]
  · cases h

end Module

end WasmEngine
