import WasmEngine.Proofs.Bindings
import WasmEngine.Proofs.Instantiation

/-!
# Imports that link

Linking makes its checks one after the other, in a store that grows on the way. What they come to
together can be said of the store as it was before: every import is supplied with something that is
as declared, new tables and memories stay under the caps of the store, no mutable global is
exported, and every segment has room where it goes. Linking succeeds just if all of that is so.
-/

namespace WasmEngine

/-! ## Values that cross the border -/

theorem Number.exists_ofValue {v : Value} (h : v.type ≠ .i64) : ∃ x, Number.ofValue v = .ok x := by
  cases v with
  | i64 b => exact (h rfl).elim
  | _ => exact ⟨_, rfl⟩

theorem Number.type_of_toValue_ne {x : Number} {type : ValueType} {v : Value}
    (h : x.toValue type = .ok v) : v.type ≠ .i64 := by
  rw [Number.type_of_toValue h]
  rintro rfl
  cases h

theorem Grammar.type_of_constant {v : Value} {bs : List UInt8} (h : constant v bs) :
    v.type ≠ .i64 := by
  cases h <;> exact nofun

/-- No global of a decoded module starts with a constant of 64 bits, since none can be written. -/
theorem Module.Decoded.type_of_init {m : Module} (hm : m.Decoded) {g : GlobalDecl}
    (hg : g ∈ m.globals) {v : Value} (hv : g.init = .value v) : v.type ≠ .i64 := by
  obtain ⟨config, bytes, hdecode⟩ := hm
  obtain ⟨⟨fs, -, hspelled⟩, -⟩ := Module.decode_eq_ok_iff.mp hdecode
  by_cases hsection : ∃ f ∈ fs, f.id = .global
  · obtain ⟨f, hf, hid⟩ := hsection
    obtain ⟨enc, pad, -, hpayload⟩ := hspelled.payloads f hf
    rw [hid] at hpayload
    obtain ⟨count, rest, -, -, hitems⟩ := hpayload
    refine Grammar.items_forall (P := fun g ↦ ∀ v, g.init = .value v → v.type ≠ .i64) ?_ hitems
      g hg v hv
    rintro g' bs ⟨type, init, -, -, body, -, hinit⟩ v' hv'
    rw [hv'] at hinit
    cases hinit with
    | value hconstant => exact Grammar.type_of_constant hconstant
  · have habsent : m.globals = [] := hspelled.absent .global fun f hf hid ↦ hsection ⟨f, hf, hid⟩
    rw [habsent] at hg
    cases hg

namespace Module

variable {m : Module} {s t : Store} {imports : Imports}

/-! ## What modules and imports have to be like -/

/-- The place of a segment, read as unsigned. -/
def offset? (m : Module) (imports : Imports) (e : ConstExpr) : Option Nat := do
  return (← (← m.constant? imports e).i32?).toNat

namespace Item

/-- How many slots a table has that is imported, or has once it is made. -/
def slots? (s : Store) (imports : Imports) : Item → Option Nat
  | imported imp => do
    let r ← (← imports.get? imp.module imp.name).table?
    return (← s.tables[r.address]?).size
  | table l => some l.min
  | _ => none

/-- How many bytes a memory has that is imported, or has once it is made. -/
def bytes? (s : Store) (imports : Imports) : Item → Option Nat
  | imported imp => do
    let r ← (← imports.get? imp.module imp.name).memory?
    return (← s.memories[r.address]?).bytes.size
  | memory l => some (l.min * pageSize)
  | _ => none

end Item

/-- A segment of the given length has room in what it goes to. -/
def HasRoom (m : Module) (imports : Imports) (size? : Option Nat) (offset : ConstExpr)
    (length : Nat) : Prop :=
  ∃ n size, m.offset? imports offset = some n ∧ size? = some size ∧ n + length ≤ size

/-- The export can be represented outside: globals that are exported do not change. -/
def Exportable (m : Module) (e : Export) : Prop :=
  e.kind = .global → ∀ g ∈ m.globalType? e.index, g.isMutable = false

theorem exportable_of_ne {e : Export} (h : e.kind ≠ .global) : m.Exportable e :=
  fun hkind ↦ (h hkind).elim

/-- The module can be linked with the imports in the store. -/
structure Compatible (m : Module) (s : Store) (imports : Imports) : Prop where
  items : ∀ item ∈ m.items, item.Admitted s m imports
  exports : ∀ e ∈ m.exports, m.Exportable e
  elements : ∀ seg ∈ m.elements, m.HasRoom imports
    ((m.itemsOf .table).head?.bind (Item.slots? s imports)) seg.offset seg.funcs.length
  data : ∀ seg ∈ m.data, m.HasRoom imports
    ((m.itemsOf .memory).head?.bind (Item.bytes? s imports)) seg.offset seg.bytes.length

/-! ## Index spaces -/

theorem length_importsOf (m : Module) :
    (m.importsOf .func).length = m.importedFuncs.length ∧
    (m.importsOf .table).length = m.importedTables.length ∧
    (m.importsOf .memory).length = m.importedMemories.length ∧
    (m.importsOf .global).length = m.importedGlobals.length := by
  have hlength {α : Type} {proj : ImportDesc → Option α} {k : ExternKind}
      (hproj : ∀ d, (proj d).isSome ↔ d.kind = k) :
      (m.importsOf k).length = (m.imports.filterMap (proj ·.desc)).length := by
    rw [importsOf, ← List.length_map (proj ·.desc), map_filter_kind hproj, List.length_map]
  refine ⟨hlength fun d ↦ ?_, hlength fun d ↦ ?_, hlength fun d ↦ ?_, hlength fun d ↦ ?_⟩
  · cases d <;> simp [ImportDesc.func?, ImportDesc.kind]
  · cases d <;> simp [ImportDesc.table?, ImportDesc.kind]
  · cases d <;> simp [ImportDesc.memory?, ImportDesc.kind]
  · cases d <;> simp [ImportDesc.global?, ImportDesc.kind]

theorem length_itemsOf (hm : m.Valid) (k : ExternKind) : (m.itemsOf k).length = m.spaceSize k := by
  obtain ⟨hfuncs, htables, hmemories, hglobals⟩ := m.length_importsOf
  have hcounted := hm.counted
  cases k with
  | func => simp [itemsOf, definitions, spaceSize, hfuncs, hcounted.funcs_eq, hm.complete]
  | table => simp [itemsOf, definitions, spaceSize, htables, hcounted.tables_eq]
  | memory => simp [itemsOf, definitions, spaceSize, hmemories, hcounted.memories_eq]
  | global => simp [itemsOf, definitions, spaceSize, hglobals, hcounted.globals_eq]

theorem kind_of_mem_itemsOf {item : Item} {k : ExternKind} (h : item ∈ m.itemsOf k) :
    item.kind = k := by
  rw [← filter_items] at h
  simpa using (List.mem_filter.mp h).2

def Item.globalType? : Item → Option GlobalType
  | imported imp => imp.desc.global?
  | global g => some g.type
  | _ => none

theorem globalType?_itemsOf (hm : m.Counted) {index : Nat} {item : Item}
    (h : (m.itemsOf .global)[index]? = some item) : m.globalType? index = item.globalType? := by
  have hmap : (m.itemsOf .global).map Item.globalType? = m.globalSpace.map some := by
    simp only [itemsOf, definitions, globalSpace, List.map_append, List.map_map,
      ← map_importsOf_global]
    rfl
  have hindex := congrArg (·[index]?) hmap
  simp only [List.getElem?_map, h, Option.map_some] at hindex
  obtain ⟨g, hg, heq⟩ := Option.map_eq_some_iff.mp hindex.symm
  rw [hm.globalType?_eq]
  exact hg.trans heq

/-- The value of an initializer has 64 bits only if it is spelled out. -/
theorem type_of_constant? {e : ConstExpr} {v : Value} (h : m.constant? imports e = some v) :
    e = .value v ∨ v.type ≠ .i64 := by
  cases e with
  | value v' =>
    obtain rfl := Option.some.inj h
    exact .inl rfl
  | globalGet index =>
    simp only [constant?, Option.bind_eq_bind, Option.bind_eq_some_iff] at h
    obtain ⟨imp, -, type, -, item, -, x, -, hx⟩ := h
    exact .inr (Number.type_of_toValue_ne (except_toOption_eq_some hx))

/-! ## Items that are bound -/

namespace Item.Bound

variable {item : Item} {addr : Nat}

/-- A global that is bound has the type that is declared, and the host can see its value. -/
theorem exists_global (hm : m.Decoded) (hitem : item ∈ m.itemsOf .global)
    (h : item.Bound s m imports t addr) : ∃ g x, t.globals[addr]? = some g ∧
      item.globalType? = some g.type ∧ Number.ofValue g.value = .ok x := by
  have hkind := kind_of_mem_itemsOf hitem
  cases h with
  | @imported imp _ _ hget hbinds =>
    obtain ⟨module, name, desc⟩ := imp
    cases hbinds with
    | global hv _ ht =>
      obtain ⟨x, hx⟩ := Number.exists_ofValue (Number.type_of_toValue_ne hv)
      exact ⟨_, x, ht, rfl, hx⟩
    | _ => cases hkind
  | @global g v _ _ hv ht =>
    have hg : g ∈ m.globals := by
      obtain hg | hg := List.mem_append.mp hitem
      · simp at hg
      · simpa [definitions] using hg
    have htype : v.type ≠ .i64 := (type_of_constant? hv).elim (hm.type_of_init hg) id
    obtain ⟨x, hx⟩ := Number.exists_ofValue htype
    exact ⟨_, x, ht, rfl, hx⟩
  | _ => cases hkind

/-- A table that is bound has as many slots as it had before linking, or as its least size says. -/
theorem exists_table (hkind : item.kind = .table) (hgrows : s.Grows t)
    (h : item.Bound s m imports t addr) :
    ∃ x, t.tables[addr]? = some x ∧ item.slots? s imports = some x.size := by
  cases h with
  | @imported imp _ _ hget hbinds =>
    obtain ⟨module, name, desc⟩ := imp
    cases hbinds with
    | table haddr =>
      have hx := Array.getElem?_eq_getElem haddr
      refine ⟨_, getElem?_of_prefix hgrows.tables hx, ?_⟩
      simp [slots?, hget, Extern.table?, Store.ref, hx]
    | _ => cases hkind
  | @table l x _ _ hx ht =>
    refine ⟨x, ht, ?_⟩
    simp only [Table.new] at hx
    split at hx
    · cases hx
    · cases hx
      simp [slots?, Table.size]
  | _ => cases hkind

/-- A memory that is bound has as many bytes as it had before linking, or as its least size says. -/
theorem exists_memory (hkind : item.kind = .memory) (hgrows : s.Grows t)
    (h : item.Bound s m imports t addr) :
    ∃ x, t.memories[addr]? = some x ∧ item.bytes? s imports = some x.bytes.size := by
  cases h with
  | @imported imp _ _ hget hbinds =>
    obtain ⟨module, name, desc⟩ := imp
    cases hbinds with
    | memory haddr =>
      have hx := Array.getElem?_eq_getElem haddr
      refine ⟨_, getElem?_of_prefix hgrows.memories hx, ?_⟩
      simp [bytes?, hget, Extern.memory?, Store.ref, hx]
    | _ => cases hkind
  | @memory l x _ _ hx ht =>
    refine ⟨x, ht, ?_⟩
    simp only [Memory.new] at hx
    split at hx
    · cases hx
    · cases hx
      simp [bytes?]
  | _ => cases hkind

end Item.Bound

end Module

/-! ## Exports and segments -/

/-- What stands outside for the item at an address: a reference, or the number for a global. -/
def Store.extern? (s : Store) (addr : Nat) : ExternKind → Option Extern
  | .func => some (.func (s.ref addr))
  | .table => some (.table (s.ref addr))
  | .memory => some (.memory (s.ref addr))
  | .global => do return .global (← (Number.ofValue (← s.globals[addr]?).value).toOption)

/-- The item of an index space that an export names, under the name of the export. -/
def Export.Names (t : Store) (sp : IndexSpaces) (e : Export) (p : String × Extern) : Prop :=
  p.1 = e.name ∧ ∃ addr, (sp.space e.kind)[e.index]? = some addr ∧ t.extern? addr e.kind = some p.2

namespace Link

open WasmEngine.Module

variable {s t : Store} {m : Module} {imports : Imports} {sp : IndexSpaces}
  {E : InstantiationError → Store → Prop}

/-- Every index that a module can use is bound. -/
theorem Bindings.exists_bound (h : Bindings s m imports m.items sp t) (hm : m.Valid)
    {k : ExternKind} {index : Nat} (hindex : index < m.spaceSize k) :
    ∃ item addr, (m.itemsOf k)[index]? = some item ∧ (sp.space k)[index]? = some addr ∧
      item.Bound s m imports t addr := by
  rw [← length_itemsOf hm] at hindex
  have hitem := List.getElem?_eq_getElem hindex
  have hbound := h.bound k
  rw [filter_items] at hbound
  obtain ⟨addr, haddr, hitemBound⟩ := forall₂_getElem?_left hbound hitem
  rw [Array.getElem?_toList] at haddr
  exact ⟨_, addr, hitem, haddr, hitemBound⟩

theorem addressIn_binds {space : Array Nat} {what : Referent} {index addr : Nat}
    (h : space[index]? = some addr) :
    Ensures (addressIn space what index) t (fun addr' t' ↦ t' = t ∧ addr' = addr) E := by
  unfold addressIn
  rw [h]
  exact .pure ⟨rfl, rfl⟩

/-- An export is bound to the item it names, or cannot be represented. -/
theorem bindExport_binds {e : Export} (hm : m.Decoded) (h : Bindings s m imports m.items sp t)
    (he : e.index < m.spaceSize e.kind) :
    Ensures (bindExport sp e) t (fun p t' ↦ t' = t ∧ m.Exportable e ∧ e.Names t sp p)
      fun _ _ ↦ ¬m.Exportable e := by
  obtain ⟨item, addr, hitem, haddr, hbound⟩ := h.exists_bound hm.valid he
  obtain ⟨name, kind, index⟩ := e
  suffices hexport : Ensures (exportItem sp ⟨name, kind, index⟩) t (fun x t' ↦ t' = t ∧
      m.Exportable ⟨name, kind, index⟩ ∧ t.extern? addr kind = some x)
      fun _ _ ↦ ¬m.Exportable ⟨name, kind, index⟩ by
    refine .bind hexport ?_
    rintro x t' ⟨rfl, hexportable, hx⟩
    exact .pure ⟨rfl, hexportable, rfl, addr, haddr, hx⟩
  cases kind with
  | global =>
    obtain ⟨g, x, hg, htype, hx⟩ := hbound.exists_global hm (List.mem_of_getElem? hitem)
    rw [← globalType?_itemsOf hm.valid.counted hitem] at htype
    have hiff : m.Exportable ⟨name, .global, index⟩ ↔ g.type.isMutable = false := by
      simp [Exportable, htype]
    have haddr : sp.globals[index]? = some addr := haddr
    simp only [exportItem, globalAt, haddr, hiff]
    refine .bind (Q := fun g' t' ↦ t' = t ∧ g' = g) (.get_bind ?_) ?_
    · rw [hg]
      exact .pure ⟨rfl, rfl⟩
    · rintro g' t' ⟨rfl, rfl⟩
      refine .ite (fun hmutable ↦ .throw_bind (by simp [hmutable])) fun hmutable ↦ ?_
      rw [hx]
      exact .pure ⟨rfl, by simpa using hmutable, by simp [Store.extern?, hg, hx, Except.toOption]⟩
  | func =>
    refine .get_bind (.bind (addressIn_binds haddr) ?_)
    rintro _ t' ⟨rfl, rfl⟩
    exact .pure ⟨rfl, exportable_of_ne (by simp), rfl⟩
  | table =>
    refine .get_bind (.bind (addressIn_binds haddr) ?_)
    rintro _ t' ⟨rfl, rfl⟩
    exact .pure ⟨rfl, exportable_of_ne (by simp), rfl⟩
  | memory =>
    refine .get_bind (.bind (addressIn_binds haddr) ?_)
    rintro _ t' ⟨rfl, rfl⟩
    exact .pure ⟨rfl, exportable_of_ne (by simp), rfl⟩

theorem segmentOffset_binds {e : ConstExpr} (h : Bindings s m imports m.items sp t)
    (he : e.HasType m.importedGlobals .i32) :
    Ensures (segmentOffset sp.globals e) t
      (fun offset t' ↦ t' = t ∧ m.offset? imports e = some offset) E := by
  have hitems : m.items = m.imports.map .imported ++ (m.code.map .code ++ m.tables.map .table ++
      m.memories.map .memory ++ m.globals.map .global) := by
    simp only [items, List.append_assoc]
  rw [hitems] at h
  refine .bind (evalConst_binds (h.bound .global) he) ?_
  rintro v t' ⟨rfl, hv, htype⟩
  cases v with
  | i32 w => exact .pure ⟨rfl, by simp [offset?, hv, Value.i32?]⟩
  | _ => cases htype

/-- The check of a segment finds out whether it has room. -/
theorem checkSegment_binds {kind : SegmentKind} {e : ConstExpr} {offset len size : Nat}
    {size? : Option Nat} (hoffset : m.offset? imports e = some offset) (hsize : size? = some size) :
    Ensures (checkSegment kind offset len size) t
      (fun _ t' ↦ t' = t ∧ m.HasRoom imports size? e len)
      fun _ _ ↦ ¬m.HasRoom imports size? e len := by
  have hiff : m.HasRoom imports size? e len ↔ offset + len ≤ size := by
    simp [HasRoom, hoffset, hsize]
  rw [hiff]
  exact .ite (fun hgt ↦ .throw (Nat.not_le_of_lt hgt)) fun hle ↦ .pure ⟨rfl, Nat.le_of_not_gt hle⟩

theorem planElement_binds {seg : ElementSegment} (hm : m.Decoded)
    (h : Bindings s m imports m.items sp t)
    (hseg : m.tableSpace ≠ [] ∧ seg.offset.HasType m.importedGlobals .i32 ∧
      ∀ f ∈ seg.funcs, f < m.funcSpace.length) :
    Ensures (planElement sp seg) t (fun _ t' ↦ t' = t ∧ m.HasRoom imports
        ((m.itemsOf .table).head?.bind (Item.slots? s imports)) seg.offset seg.funcs.length)
      fun _ _ ↦ ¬m.HasRoom imports
        ((m.itemsOf .table).head?.bind (Item.slots? s imports)) seg.offset seg.funcs.length := by
  obtain ⟨htable, hoffset, hfuncs⟩ := hseg
  have hcounted := hm.valid.counted
  obtain ⟨item, addr, hitem, haddr, hbound⟩ := h.exists_bound (k := .table) hm.valid
    (Nat.pos_of_ne_zero (mt hcounted.spaceSize_table_eq_zero.mp htable))
  obtain ⟨x, hx, hslots⟩ :=
    hbound.exists_table (kind_of_mem_itemsOf (List.mem_of_getElem? hitem)) h.grows
  have hsize : (m.itemsOf .table).head?.bind (Item.slots? s imports) = some x.size := by
    rw [List.head?_eq_getElem?, hitem]
    exact hslots
  refine .bind (segmentOffset_binds h hoffset) ?_
  rintro offset t₁ ⟨rfl, hoffset⟩
  refine .bind (addressIn_binds haddr) ?_
  rintro _ t₂ ⟨rfl, rfl⟩
  refine .get_bind ?_
  rw [hx]
  refine .bind (checkSegment_binds hoffset hsize) ?_
  rintro _ t₃ ⟨rfl, hroom⟩
  refine .bind (.mapM (R := fun _ _ ↦ True) fun f hf ↦ ?_) fun _ t' ht' ↦ .pure ⟨ht'.1, hroom⟩
  obtain ⟨_, _, -, hf, -⟩ := h.exists_bound (k := .func) hm.valid
    (hcounted.spaceSize_func.symm ▸ hfuncs f hf)
  exact (addressIn_binds hf).mono (fun _ _ ht' ↦ ⟨ht'.1, trivial⟩) fun _ _ he ↦ he

theorem planData_binds {seg : DataSegment} (hm : m.Decoded)
    (h : Bindings s m imports m.items sp t)
    (hseg : m.memorySpace ≠ [] ∧ seg.offset.HasType m.importedGlobals .i32) :
    Ensures (planData sp seg) t (fun _ t' ↦ t' = t ∧ m.HasRoom imports
        ((m.itemsOf .memory).head?.bind (Item.bytes? s imports)) seg.offset seg.bytes.length)
      fun _ _ ↦ ¬m.HasRoom imports
        ((m.itemsOf .memory).head?.bind (Item.bytes? s imports)) seg.offset seg.bytes.length := by
  obtain ⟨hmemory, hoffset⟩ := hseg
  obtain ⟨item, addr, hitem, haddr, hbound⟩ := h.exists_bound (k := .memory) hm.valid
    (Nat.pos_of_ne_zero (mt hm.valid.counted.spaceSize_memory_eq_zero.mp hmemory))
  obtain ⟨x, hx, hbytes⟩ :=
    hbound.exists_memory (kind_of_mem_itemsOf (List.mem_of_getElem? hitem)) h.grows
  have hsize : (m.itemsOf .memory).head?.bind (Item.bytes? s imports) = some x.bytes.size := by
    rw [List.head?_eq_getElem?, hitem]
    exact hbytes
  refine .bind (segmentOffset_binds h hoffset) ?_
  rintro offset t₁ ⟨rfl, hoffset⟩
  refine .bind (addressIn_binds haddr) ?_
  rintro _ t₂ ⟨rfl, rfl⟩
  refine .get_bind ?_
  rw [hx]
  refine .bind (checkSegment_binds hoffset hsize) ?_
  rintro _ t₃ ⟨rfl, hroom⟩
  exact .pure ⟨rfl, hroom⟩

/-! ## Linking as a whole -/

theorem not_compatible {item : Item} (hitem : item ∈ m.items)
    (h : ¬item.Admitted s m imports) : ¬m.Compatible s imports :=
  fun hc ↦ h (hc.items item hitem)

theorem imports_bind (hm : m.Valid) (hknown : imports.KnownTo s) :
    Ensures (m.imports.foldlM (bindImport m imports) {}) s
      (Bindings s m imports ([] ++ m.imports.map .imported)) fun _ _ ↦ ¬m.Compatible s imports := by
  refine foldlM_binds (fun imp himp done sp t h ↦ ?_)
    (fun imp himp ↦ not_compatible (by simp [items, himp])) ?_
  · refine bindImport_adds hknown h.grows fun type hdesc ↦ hm.imports type ?_
    exact List.mem_filterMap.mpr ⟨imp, himp, by rw [hdesc]; rfl⟩
  · exact {
      grows := .refl s
      admitted := List.forall_mem_nil _
      bound k := by cases k <;> exact .nil
      fresh k := by cases k <;> simp [IndexSpaces.space] }

variable {before : List Item}

theorem code_binds (h : Bindings s m imports before sp t) :
    Ensures (m.code.foldlM (defineFunc s.instances.size) sp) t
      (Bindings s m imports (before ++ m.code.map .code)) fun _ _ ↦ ¬m.Compatible s imports :=
  foldlM_binds (fun _ _ _ _ _ h ↦ defineFunc_adds h.grows)
    (fun code hcode ↦ not_compatible (by simp [items, hcode])) h

theorem tables_bind (hm : m.Decoded) (h : Bindings s m imports before sp t) :
    Ensures (m.tables.foldlM defineTable sp) t
      (Bindings s m imports (before ++ m.tables.map .table)) fun _ _ ↦ ¬m.Compatible s imports := by
  obtain ⟨config, bytes, hdecode⟩ := hm
  have hordered := (Module.wellFormed_of_decode hdecode).tables
  refine foldlM_binds (fun l hl _ _ _ h ↦ ?_) (fun l hl ↦ not_compatible (by simp [items, hl])) h
  exact defineTable_adds (hordered l (List.mem_append_right _ hl)) h.grows

theorem memories_bind (hm : m.Decoded) (h : Bindings s m imports before sp t) :
    Ensures (m.memories.foldlM defineMemory sp) t
      (Bindings s m imports (before ++ m.memories.map .memory))
      fun _ _ ↦ ¬m.Compatible s imports := by
  obtain ⟨config, bytes, hdecode⟩ := hm
  have hordered := (Module.wellFormed_of_decode hdecode).memories
  refine foldlM_binds (fun l hl _ _ _ h ↦ ?_) (fun l hl ↦ not_compatible (by simp [items, hl])) h
  exact defineMemory_adds (hordered l (List.mem_append_right _ hl)).1 h.grows

theorem globals_bind (hm : m.Valid)
    (h : Bindings s m imports (m.imports.map .imported ++ before) sp t) :
    Ensures (m.globals.foldlM defineGlobal sp) t
      (Bindings s m imports (m.imports.map .imported ++ before ++ m.globals.map .global))
      fun _ _ ↦ ¬m.Compatible s imports := by
  refine foldlM_binds (fun g hg done sp t h ↦ ?_)
    (fun g hg ↦ not_compatible (by simp [items, hg])) h
  rw [List.append_assoc] at h
  exact defineGlobal_adds (hm.globals g hg) h.grows (h.bound .global)

/-- What linking leads to, seen from the store `t` as it is before the new instance gets its place
there. -/
structure Assigns (s : Store) (m : Module) (imports : Imports) (t : Store) (i : Instance) :
    Prop where
  module : i.module = m
  bindings : Bindings s m imports m.items i.toIndexSpaces t
  exports : List.Forall₂ (Export.Names t i.toIndexSpaces) m.exports i.exports

/-- Every check of linking is made on the way to an instance, and one fails just if the imports are
not compatible. -/
theorem link_assigns (hs : s.WellFormed) (hm : m.Decoded) (hknown : imports.KnownTo s) :
    Ensures (link m imports) s (fun r t' ↦ m.Compatible s imports ∧ r.1 = s.instances.size ∧
        ∃ t i, Assigns s m imports t i ∧
          t' = { t with instances := t.instances.setIfInBounds r.1 i })
      fun _ _ ↦ ¬m.Compatible s imports := by
  have hvalid := hm.valid
  -- The instances are kept track of along with the bindings until the new one has its address.
  refine .bind (((imports_ensures hs hvalid).and (imports_bind hvalid hknown)).mono
    (fun _ _ h ↦ h) fun _ _ h ↦ h.2) ?_
  rintro sp t ⟨hassembled, h⟩
  have hinstances : t.instances = s.instances := hassembled.underway.instances
  refine .bind (.modifyGet (Q := fun inst t' ↦ inst = s.instances.size ∧
    t' = { t with instances := t.instances.push { module := m } }) ⟨by rw [hinstances], rfl⟩) ?_
  rintro _ t₁ ⟨rfl, rfl⟩
  have hgrows : t.Grows { t with instances := t.instances.push { module := m } } :=
    { Store.Grows.refl t with instances := prefix_push _ _ }
  refine .bind (code_binds (h.withInstances (h.grows.trans hgrows))) fun sp t h ↦ ?_
  refine .bind (tables_bind hm h) fun sp t h ↦ ?_
  refine .bind (memories_bind hm h) fun sp t h ↦ ?_
  simp only [List.nil_append, List.append_assoc] at h
  refine .bind (globals_bind hvalid h) fun sp t h ↦ ?_
  have h : Bindings s m imports m.items sp t := by
    simpa only [items, List.append_assoc] using h
  refine .bind (.mapM fun e he ↦ (bindExport_binds hm h (hvalid.exports e he)).mono (fun _ _ h ↦ h)
    fun _ _ hnot hc ↦ hnot (hc.exports e he)) ?_
  rintro exports t₂ ⟨rfl, hexports⟩
  refine .bind (.mapM (R := fun seg _ ↦ m.HasRoom imports _ seg.offset seg.funcs.length)
    fun seg hseg ↦ (planElement_binds hm h (hvalid.elements seg hseg)).mono (fun _ _ h ↦ h)
      fun _ _ hnot hc ↦ hnot (hc.elements seg hseg)) ?_
  rintro elements t₃ ⟨rfl, helements⟩
  refine .bind (.mapM (R := fun seg _ ↦ m.HasRoom imports _ seg.offset seg.bytes.length)
    fun seg hseg ↦ (planData_binds hm h (hvalid.data seg hseg)).mono (fun _ _ h ↦ h)
      fun _ _ hnot hc ↦ hnot (hc.data seg hseg)) ?_
  rintro data t₄ ⟨rfl, hdata⟩
  refine .bind (.modify (Q := fun _ t' ↦ t' = _) rfl) fun _ t' ht' ↦ .pure ⟨?_, rfl, ?_⟩
  · refine ⟨h.admitted, fun e he ↦ ?_, fun seg hseg ↦ ?_, fun seg hseg ↦ ?_⟩
    · obtain ⟨_, -, hexportable, -⟩ := forall₂_exists_right hexports he
      exact hexportable
    · obtain ⟨_, -, hroom⟩ := forall₂_exists_right helements hseg
      exact hroom
    · obtain ⟨_, -, hroom⟩ := forall₂_exists_right hdata hseg
      exact hroom
  · exact ⟨t₄, _, ⟨rfl, h, hexports.imp fun _ _ he ↦ he.2⟩, ht'⟩

end Link

/-- Linking succeeds just if the module can be linked with the imports, judged by the store as it is
before, and an instantiation fails to link just if it cannot. -/
theorem World.Reachable.links_iff_compatible {w : World} (hw : w.Reachable) {m : Module}
    (hm : m.Decoded) {imports : Imports} (himports : w.Supplies imports) :
    ((∃ r t, (Link.link m imports).run w.store = .ok r t) ↔ m.Compatible w.store imports) ∧
    ∀ fuel, (∃ e s', w.store.instantiate fuel m imports = some (.error (.link e), s')) ↔
      ¬m.Compatible w.store imports := by
  have hwf := hw.sound.wellFormed
  have hlink := Link.link_assigns hwf hm himports.knownTo
  have hfails {e : InstantiationError} {t : Store}
      (h : (Link.link m imports).run w.store = .error e t) : ¬m.Compatible w.store imports :=
    hlink.of_error h
  have hlinks {r : Nat × SegmentPlan} {t : Store}
      (h : (Link.link m imports).run w.store = .ok r t) : m.Compatible w.store imports :=
    (hlink.of_ok h).1
  refine ⟨⟨fun ⟨r, t, hrun⟩ ↦ hlinks hrun, fun hc ↦ ?_⟩, fun fuel ↦ ?_⟩
  · cases hrun : (Link.link m imports).run w.store with
    | ok r t => exact ⟨r, t, rfl⟩
    | error e t => exact (hfails hrun hc).elim
  · unfold Store.instantiate
    obtain ⟨e, t, hrun, -, heq, hrefused⟩ |
        ⟨r, t, i, hmade, heq | ⟨index, addr, -, -, -, heq⟩⟩ :=
      Operation.instantiate_cases hwf hm imports
    · obtain ⟨e, rfl⟩ := hrefused himports.knownTo
      rw [heq]
      exact ⟨fun _ ↦ hfails hrun, fun _ ↦ ⟨e, w.store, rfl⟩⟩
    · rw [heq]
      refine ⟨?_, fun hc ↦ (hc (hlinks hmade.linked)).elim⟩
      rintro ⟨e, s', hresult⟩
      cases hresult
    · rw [heq]
      refine ⟨?_, fun hc ↦ (hc (hlinks hmade.linked)).elim⟩
      rintro ⟨e, s', hresult⟩
      obtain ⟨⟨r', s''⟩, -, hr⟩ := Option.bind_eq_some_iff.mp hresult
      cases r' <;> cases hr

/-- A binary that imports a function twice, a table and a global, and puts three functions into the
table from where the global says. -/
def importingBinary : List UInt8 :=
  [0, 0x61, 0x73, 0x6d, 1, 0, 0, 0,
   1, 4, 1, 0x60, 0, 0,
   2, 29, 4, 1, 0x65, 1, 0x66, 0, 0, 1, 0x65, 1, 0x67, 3, 0x7f, 0,
     1, 0x65, 1, 0x74, 1, 0x70, 1, 1, 4, 1, 0x65, 1, 0x66, 0, 0,
   3, 2, 1, 0,
   6, 6, 1, 0x7f, 0, 0x23, 0, 0x0b,
   7, 17, 4, 1, 0x66, 0, 0, 1, 0x68, 0, 2, 1, 0x74, 1, 0, 1, 0x67, 3, 1,
   9, 9, 1, 0, 0x23, 0, 0x0b, 3, 0, 1, 2,
   10, 4, 1, 2, 0, 0x0b]

def idleFunc : HostFunc := ⟨0, fun _ _ ↦ .done (.ok none)⟩

/-- A store with that function, which has no type, and with a table of four slots. -/
def suppliedStore : Store :=
  ((Store.newFunc { id := 0 } none idleFunc).2.answer (.newTable 4 (some 4))).2

/-- The function, the table and a number, under one module name. -/
def suppliedImports (x : Number) : Imports :=
  (({} : Imports).define "e" "f" (.func ⟨0, 0⟩)).define "e" "t" (.table ⟨0, 0⟩) |>.define "e" "g"
    (.global x)

theorem suppliedStore_reachable : (World.idle suppliedStore).Reachable := by
  have hlawful : idleFunc.Lawful := fun _ _ ↦ .done _
  exact ⟨0, {}, .tail (.single ⟨_, .newFunc _ none hlawful⟩) ⟨_, .query _ (.newTable 4 (some 4))⟩⟩

theorem suppliedStore_supplies (x : Number) :
    (World.idle suppliedStore).Supplies (suppliedImports x) := by
  have hlawful : idleFunc.Lawful := fun _ _ ↦ .done _
  have hfunc := World.Step.newFunc { id := 0 } none hlawful
  have htable := World.Step.query (Store.newFunc { id := 0 } none idleFunc).2 (.newTable 4 (some 4))
  intro p hp h hh _
  simp only [suppliedImports, Imports.define, List.mem_cons, List.not_mem_nil, or_false] at hp
  obtain rfl | rfl | rfl := hp
  · cases hh
  · cases hh
    exact ⟨_, _, _, ⟨0, {}, .single ⟨_, hfunc⟩⟩, htable, List.mem_singleton.mpr rfl, .refl⟩
  · cases hh
    exact ⟨_, _, _, World.reachable_new 0 {}, hfunc, List.mem_singleton.mpr rfl,
      .single ⟨_, htable⟩⟩

/-- There is room for the functions at the first place but not at the second. -/
theorem importing_links_iff_compatible :
    ∃ m, Module.decode {} importingBinary = .ok m ∧ (World.idle suppliedStore).Reachable ∧
      (World.idle suppliedStore).Supplies (suppliedImports (.ofInt 1)) ∧
      m.Compatible suppliedStore (suppliedImports (.ofInt 1)) ∧
      (World.idle suppliedStore).Supplies (suppliedImports (.ofInt 2)) ∧
      ¬m.Compatible suppliedStore (suppliedImports (.ofInt 2)) := by
  have hresults : ((Module.decode {} importingBinary).toOption.map fun m ↦
      ((suppliedStore.instantiate 9 m (suppliedImports (.ofInt 1))).map Prod.fst,
        (suppliedStore.instantiate 9 m (suppliedImports (.ofInt 2))).map Prod.fst)) =
      some (some (.ok ⟨0, 0⟩), some (.error (.link (.segmentOutOfBounds .element 2 3 4)))) := by
    decide +kernel
  obtain ⟨m, hdecode, hresults⟩ := Option.map_eq_some_iff.mp hresults
  injection hresults with hfits hoverflows
  obtain ⟨⟨r₁, s₁⟩, hfits, rfl⟩ := Option.map_eq_some_iff.mp hfits
  obtain ⟨⟨r₂, s₂⟩, hoverflows, rfl⟩ := Option.map_eq_some_iff.mp hoverflows
  have hdecode := except_toOption_eq_some hdecode
  have hsupplies := suppliedStore_supplies
  have hlinks (x : Number) := suppliedStore_reachable.links_iff_compatible ⟨_, _, hdecode⟩
    (hsupplies x)
  refine ⟨m, hdecode, suppliedStore_reachable, hsupplies _, ?_, hsupplies _,
    ((hlinks _).2 9).mp ⟨_, s₂, hoverflows⟩⟩
  by_contra hnot
  obtain ⟨e, s', hrefused⟩ := ((hlinks (.ofInt 1)).2 9).mpr hnot
  cases hfits.symm.trans hrefused

end WasmEngine
