import WasmEngine.Proofs.Binary
import WasmEngine.Proofs.Linking

/-!
# What linking binds

The items of a module are its imports and its definitions. Linking goes through them and gives each
an address, which it adds at the end of the index space of the item's kind. An import of a function
with a type, of a table or of a memory gets the address of what was supplied. Everything else is a
new item of the store, so that the new addresses of an index space are those that the arena has
gained, in order.

Whether an item is admitted is said in terms of the store before linking began. The step for an item
fails just if the item is not admitted.
-/

namespace WasmEngine

/-! ## Items of a module -/

/-- What an index of an index space stands for in a module. -/
inductive Module.Item where
  | imported (imp : Import)
  | code (code : Code)
  | table (limits : Limits)
  | memory (limits : Limits)
  | global (decl : GlobalDecl)

namespace Module

def Item.kind : Item → ExternKind
  | imported imp => imp.desc.kind
  | code _ => .func
  | table _ => .table
  | memory _ => .memory
  | global _ => .global

def importsOf (m : Module) (k : ExternKind) : List Import := m.imports.filter (·.desc.kind = k)

def definitions (m : Module) : ExternKind → List Item
  | .func => m.code.map .code
  | .table => m.tables.map .table
  | .memory => m.memories.map .memory
  | .global => m.globals.map .global

/-- What an index space is to hold: the imports of its kind, and after them the definitions. -/
def itemsOf (m : Module) (k : ExternKind) : List Item :=
  (m.importsOf k).map .imported ++ m.definitions k

/-- All items, in the order in which linking goes through them. -/
def items (m : Module) : List Item :=
  m.imports.map .imported ++ m.code.map .code ++ m.tables.map .table ++ m.memories.map .memory ++
    m.globals.map .global

/-- The value of an initializer, with imported globals as they are supplied. -/
def constant? (m : Module) (imports : Imports) : ConstExpr → Option Value
  | .value v => some v
  | .globalGet index => do
    let imp ← (m.importsOf .global)[index]?
    let type ← imp.desc.global?
    let x ← (← imports.get? imp.module imp.name).global?
    (x.toValue type.type).toOption

end Module

/-! ## Items that are admitted -/

/-- An object of the given size and maximum satisfies declared limits. -/
def Limits.Admits (l : Limits) (current : Nat) (maximum : Option Nat) : Prop :=
  l.min ≤ current ∧ ∀ max ∈ l.max, (∃ own ∈ maximum, own ≤ max) ∧ current ≤ max

/-- An item that is supplied for an import is as declared: it belongs to the store and has the type
that the import asks for, or can be given that type. -/
def ImportDesc.Accepts (s : Store) (types : List FuncType) : ImportDesc → Extern → Prop
  | .func t, .func f => f.store = s.id ∧ ∃ expected c, types[t]? = some expected ∧
      s.funcs[f.address]? = some c ∧
      (c.type? = some expected ∨ c.type? = none ∧ expected.mentionsI64 = false)
  | .table l, .table r => r.store = s.id ∧
      ∃ x, s.tables[r.address]? = some x ∧ l.Admits x.size x.max
  | .memory l, .memory r => r.store = s.id ∧
      ∃ x, s.memories[r.address]? = some x ∧ l.Admits x.pages x.max
  | .global g, .global _ => g.isMutable = false ∧ g.type ≠ .i64
  | _, _ => False

namespace Module.Item

/-- Linking in the store `s` can bind the item. -/
def Admitted (s : Store) (m : Module) (imports : Imports) : Item → Prop
  | imported imp => imports.hasModule imp.module = true ∧
      ∃ item, imports.get? imp.module imp.name = some item ∧ imp.desc.Accepts s m.types item
  | table l => l.min ≤ s.config.maxTableElements
  | memory l => l.min ≤ s.config.maxMemoryPages
  | code _ | global _ => True

end Module.Item

/-- The address that an item from outside is bound to, when linking in the store `s` has come to the
store `t`. -/
inductive ImportDesc.Binds (s : Store) (types : List FuncType) (t : Store) :
    ImportDesc → Extern → Nat → Prop
  /-- A function of the right type is the one supplied. -/
  | typed {type addr : Nat} {expected : FuncType} (htype : types[type]? = some expected)
      (hfunc : s.HasFunc addr expected) : Binds s types t (.func type) (.func (s.ref addr)) addr
  /-- A host function without a type is given one, as a new function. -/
  | untyped {type addr : Nat} {expected : FuncType} {f : Ref .func} {host : HostFunc}
      (htype : types[type]? = some expected) (hid : f.store = s.id)
      (hfunc : s.funcs[f.address]? = some (.host none host)) (hnew : s.funcs.size ≤ addr)
      (ht : t.funcs[addr]? = some (.host (some expected) host)) :
      Binds s types t (.func type) (.func f) addr
  | table {l : Limits} {addr : Nat} (haddr : addr < s.tables.size) :
      Binds s types t (.table l) (.table (s.ref addr)) addr
  | memory {l : Limits} {addr : Nat} (haddr : addr < s.memories.size) :
      Binds s types t (.memory l) (.memory (s.ref addr)) addr
  /-- A global is new and has the value that the number stands for. -/
  | global {g : GlobalType} {x : Number} {v : Value} {addr : Nat}
      (hv : x.toValue g.type = .ok v) (hnew : s.globals.size ≤ addr)
      (ht : t.globals[addr]? = some ⟨g, v⟩) : Binds s types t (.global g) (.global x) addr

/-- The address that an item is bound to. A definition is bound to a new item of the store. -/
inductive Module.Item.Bound (s : Store) (m : Module) (imports : Imports) (t : Store) :
    Item → Nat → Prop
  | imported {imp : Import} {item : Extern} {addr : Nat}
      (hitem : imports.get? imp.module imp.name = some item)
      (hbinds : imp.desc.Binds s m.types t item addr) : Bound s m imports t (.imported imp) addr
  | code {code : Code} {addr : Nat} (hnew : s.funcs.size ≤ addr)
      (ht : t.funcs[addr]? = some (.code s.instances.size code)) :
      Bound s m imports t (.code code) addr
  | table {l : Limits} {x : Table} {addr : Nat} (hnew : s.tables.size ≤ addr)
      (hx : Table.new l s.config.maxTableElements = .ok x) (ht : t.tables[addr]? = some x) :
      Bound s m imports t (.table l) addr
  | memory {l : Limits} {x : Memory} {addr : Nat} (hnew : s.memories.size ≤ addr)
      (hx : Memory.new l s.config.maxMemoryPages = .ok x) (ht : t.memories[addr]? = some x) :
      Bound s m imports t (.memory l) addr
  | global {g : GlobalDecl} {v : Value} {addr : Nat} (hnew : s.globals.size ≤ addr)
      (hv : m.constant? imports g.init = some v) (ht : t.globals[addr]? = some ⟨g.type, v⟩) :
      Bound s m imports t (.global g) addr

/-! ## Index spaces by kind -/

def Store.count (s : Store) : ExternKind → Nat
  | .func => s.funcs.size
  | .table => s.tables.size
  | .memory => s.memories.size
  | .global => s.globals.size

namespace IndexSpaces

def space (sp : IndexSpaces) : ExternKind → Array Nat
  | .func => sp.funcs
  | .table => sp.tables
  | .memory => sp.memories
  | .global => sp.globals

def push (sp : IndexSpaces) (k : ExternKind) (addr : Nat) : IndexSpaces :=
  match k with
  | .func => { sp with funcs := sp.funcs.push addr }
  | .table => { sp with tables := sp.tables.push addr }
  | .memory => { sp with memories := sp.memories.push addr }
  | .global => { sp with globals := sp.globals.push addr }

theorem space_push_self (sp : IndexSpaces) (k : ExternKind) (addr : Nat) :
    (sp.push k addr).space k = (sp.space k).push addr := by
  cases k <;> rfl

theorem space_push_of_ne (sp : IndexSpaces) {k k' : ExternKind} (addr : Nat) (h : k ≠ k') :
    (sp.push k addr).space k' = sp.space k' := by
  cases k <;> cases k' <;> simp_all [push, space]

end IndexSpaces

theorem Store.Grows.count_le {s t : Store} (h : s.Grows t) (k : ExternKind) :
    s.count k ≤ t.count k := by
  cases k with
  | func => exact size_le_of_prefix h.funcs
  | table => exact size_le_of_prefix h.tables
  | memory => exact size_le_of_prefix h.memories
  | global => exact size_le_of_prefix h.globals

theorem ImportDesc.Binds.mono {s t t' : Store} {types : List FuncType} {desc : ImportDesc}
    {item : Extern} {addr : Nat} (hfuncs : t.funcs.toList <+: t'.funcs.toList)
    (hglobals : t.globals.toList <+: t'.globals.toList) (h : desc.Binds s types t item addr) :
    desc.Binds s types t' item addr := by
  cases h with
  | typed htype hfunc => exact .typed htype hfunc
  | untyped htype hid hfunc hnew ht =>
    exact .untyped htype hid hfunc hnew <| getElem?_of_prefix hfuncs ht
  | table haddr => exact .table haddr
  | memory haddr => exact .memory haddr
  | global hv hnew ht => exact .global hv hnew <| getElem?_of_prefix hglobals ht

theorem Module.Item.Bound.mono {s t t' : Store} {m : Module} {imports : Imports} {item : Item}
    {addr : Nat} (hfuncs : t.funcs.toList <+: t'.funcs.toList)
    (htables : t.tables.toList <+: t'.tables.toList)
    (hmemories : t.memories.toList <+: t'.memories.toList)
    (hglobals : t.globals.toList <+: t'.globals.toList) (h : item.Bound s m imports t addr) :
    item.Bound s m imports t' addr := by
  cases h with
  | imported hitem hbinds => exact .imported hitem (hbinds.mono hfuncs hglobals)
  | code hnew ht => exact .code hnew <| getElem?_of_prefix hfuncs ht
  | table hnew hx ht => exact .table hnew hx <| getElem?_of_prefix htables ht
  | memory hnew hx ht => exact .memory hnew hx <| getElem?_of_prefix hmemories ht
  | global hnew hv ht => exact .global hnew hv <| getElem?_of_prefix hglobals ht

/-- One item of a kind was added to a store. -/
inductive Store.Gains (t : Store) : ExternKind → Store → Prop
  | func (c : Callable) : Gains t .func { t with funcs := t.funcs.push c }
  | table (x : Table) : Gains t .table { t with tables := t.tables.push x }
  | memory (x : Memory) : Gains t .memory { t with memories := t.memories.push x }
  | global (g : Global) : Gains t .global { t with globals := t.globals.push g }

theorem Store.Gains.grows {t t' : Store} {k : ExternKind} (h : t.Gains k t') : t.Grows t' := by
  cases h with
  | func c => exact { Grows.refl t with funcs := prefix_push _ _ }
  | table x => exact { Grows.refl t with tables := prefix_push _ _ }
  | memory x => exact { Grows.refl t with memories := prefix_push _ _ }
  | global g => exact { Grows.refl t with globals := prefix_push _ _ }

theorem Store.Gains.count_eq {t t' : Store} {k : ExternKind} (h : t.Gains k t')
    (k' : ExternKind) : t'.count k' = t.count k' + if k = k' then 1 else 0 := by
  cases h <;> cases k' <;> simp [count]

/-! ## New tables and memories -/

/-- Limits in order leave room for the least size just if the cap does. -/
theorem min_le_effectiveLimit {l : Limits} (hl : l.Ordered) {cap : Nat} :
    l.min ≤ effectiveLimit l cap ↔ l.min ≤ cap := by
  unfold effectiveLimit
  cases hmax : l.max with
  | none => simp
  | some n =>
    have hn := hl n hmax
    simp only [Option.getD_some]
    omega

theorem Table.exists_new_iff {l : Limits} (hl : l.Ordered) {cap : Nat} :
    (∃ x, Table.new l cap = .ok x) ↔ l.min ≤ cap := by
  rw [← min_le_effectiveLimit hl]
  simp only [new]
  split
  · rename_i hgt
    simp [Nat.not_le_of_lt hgt]
  · rename_i hle
    simp [Nat.le_of_not_lt hle]

theorem Memory.exists_new_iff {l : Limits} (hl : l.Ordered) {cap : Nat} :
    (∃ x, Memory.new l cap = .ok x) ↔ l.min ≤ cap := by
  rw [← min_le_effectiveLimit hl]
  simp only [new]
  split
  · rename_i hgt
    simp [Nat.not_le_of_lt hgt]
  · rename_i hle
    simp [Nat.le_of_not_lt hle]

/-! ## Items of a kind -/

namespace Module

variable {m : Module}

/-- What the imports of a kind declare, where `proj` takes apart descriptions of that kind. -/
theorem map_filter_kind {α : Type} {proj : ImportDesc → Option α} {k : ExternKind}
    (hproj : ∀ d, (proj d).isSome ↔ d.kind = k) (imps : List Import) :
    (imps.filter (·.desc.kind = k)).map (proj ·.desc) =
      (imps.filterMap (proj ·.desc)).map some := by
  induction imps with
  | nil => rfl
  | cons imp imps ih =>
    by_cases hk : imp.desc.kind = k
    · obtain ⟨a, ha⟩ := Option.isSome_iff_exists.mp ((hproj _).mpr hk)
      simp [hk, ha, ih]
    · have hnone : proj imp.desc = none := by simpa using mt (hproj _).mp hk
      simp [hk, hnone, ih]

theorem map_importsOf_global :
    (m.importsOf .global).map (·.desc.global?) = m.importedGlobals.map some :=
  map_filter_kind (fun d ↦ by cases d <;> simp [ImportDesc.global?, ImportDesc.kind]) m.imports

/-- The import that an imported global is declared by. -/
theorem getElem?_importsOf_global {index : Nat} {g : GlobalType}
    (h : m.importedGlobals[index]? = some g) :
    ∃ imp, (m.importsOf .global)[index]? = some imp ∧ imp.desc.global? = some g := by
  have hmap := congrArg (·[index]?) (map_importsOf_global (m := m))
  simp only [List.getElem?_map, h, Option.map_some] at hmap
  exact Option.map_eq_some_iff.mp hmap

/-- Of the imports, an index space holds those of its kind. -/
theorem filter_imported (m : Module) (k : ExternKind) :
    (m.imports.map Item.imported).filter (·.kind = k) = (m.importsOf k).map Item.imported := by
  rw [List.filter_map]
  rfl

/-- Definitions all go to the index space of their kind. -/
theorem filter_defined {α : Type} {f : α → Item} {k : ExternKind} (hf : ∀ a, (f a).kind = k)
    (l : List α) (k' : ExternKind) :
    (l.map f).filter (·.kind = k') = if k = k' then l.map f else [] := by
  rw [List.filter_map]
  split
  · rename_i hk
    subst hk
    simp [Function.comp_def, hf]
  · rename_i hk
    simp [Function.comp_def, hf, hk]

/-- Every index space gets the imports of its kind and then the definitions. -/
theorem filter_items (m : Module) (k : ExternKind) : m.items.filter (·.kind = k) = m.itemsOf k := by
  simp only [items, List.filter_append, filter_imported,
    filter_defined (f := Item.code) (k := .func) (fun _ ↦ rfl),
    filter_defined (f := Item.table) (k := .table) (fun _ ↦ rfl),
    filter_defined (f := Item.memory) (k := .memory) (fun _ ↦ rfl),
    filter_defined (f := Item.global) (k := .global) (fun _ ↦ rfl)]
  cases k <;> simp [itemsOf, definitions]

end Module

namespace Link

open WasmEngine.Module

variable {s t : Store} {m : Module} {imports : Imports} {sp : IndexSpaces}

/-- Index spaces that hold addresses of the items that linking has gone through, and of them in each
index space those of its kind. Of these addresses, the ones that are new to the store `s` are those
that the arena has gained. -/
structure Bindings (s : Store) (m : Module) (imports : Imports) (done : List Item)
    (sp : IndexSpaces) (t : Store) : Prop where
  grows : s.Grows t
  admitted : ∀ item ∈ done, item.Admitted s m imports
  bound : ∀ k, List.Forall₂ (Item.Bound s m imports t) (done.filter (·.kind = k))
    (sp.space k).toList
  fresh : ∀ k, (sp.space k).toList.filter (s.count k ≤ ·) =
    List.range' (s.count k) (t.count k - s.count k)

/-- What the step for one item does: it binds the item to an address that the store had before
linking, or to that of an item which it adds. -/
structure Adds (s : Store) (m : Module) (imports : Imports) (item : Item) (sp : IndexSpaces)
    (t : Store) (sp' : IndexSpaces) (t' : Store) : Prop where
  grows : t.Grows t'
  admitted : item.Admitted s m imports
  binds : ∃ addr, sp' = sp.push item.kind addr ∧ item.Bound s m imports t' addr ∧
    (addr < s.count item.kind ∧ t' = t ∨
      addr = t.count item.kind ∧ ∀ k, t'.count k = t.count k + if item.kind = k then 1 else 0)

/-- The index space of each kind stays in line with the items gone through. -/
theorem Adds.bound {done : List Item} {item : Item} {sp' : IndexSpaces} {t' : Store}
    (hadds : Adds s m imports item sp t sp' t') {k : ExternKind}
    (h : List.Forall₂ (Item.Bound s m imports t) (done.filter (·.kind = k)) (sp.space k).toList) :
    List.Forall₂ (Item.Bound s m imports t') ((done ++ [item]).filter (·.kind = k))
      (sp'.space k).toList := by
  obtain ⟨hgrows, -, addr, rfl, hbound, -⟩ := hadds
  have hold := h.imp fun _ _ hb ↦
    hb.mono hgrows.funcs hgrows.tables hgrows.memories hgrows.globals
  rw [List.filter_append]
  by_cases hk : item.kind = k
  · subst hk
    rw [IndexSpaces.space_push_self, List.filter_cons_of_pos (by simp), List.filter_nil]
    exact forall₂_push hold hbound
  · rw [IndexSpaces.space_push_of_ne _ _ hk, List.filter_cons_of_neg (by simpa using hk),
      List.filter_nil, List.append_nil]
    exact hold

theorem Adds.fresh {item : Item} {sp' : IndexSpaces} {t' : Store}
    (hadds : Adds s m imports item sp t sp' t') (hgrows : s.Grows t) {k : ExternKind}
    (h : (sp.space k).toList.filter (s.count k ≤ ·) =
      List.range' (s.count k) (t.count k - s.count k)) :
    (sp'.space k).toList.filter (s.count k ≤ ·) =
      List.range' (s.count k) (t'.count k - s.count k) := by
  obtain ⟨-, -, addr, rfl, -, hcount⟩ := hadds
  have hle := hgrows.count_le k
  by_cases hk : item.kind = k
  · subst hk
    rw [IndexSpaces.space_push_self, Array.toList_push, List.filter_append, h]
    obtain ⟨hold, rfl⟩ | ⟨rfl, hcount⟩ := hcount
    · rw [List.filter_cons_of_neg (by simpa using hold), List.filter_nil, List.append_nil]
    · -- The new address is the one after those that the arena has gained so far.
      rw [List.filter_cons_of_pos (by simpa using hle), List.filter_nil, hcount, if_pos rfl,
        Nat.sub_add_comm hle, List.range'_1_concat, Nat.add_sub_cancel' hle]
  · rw [IndexSpaces.space_push_of_ne _ _ hk, h]
    obtain ⟨-, rfl⟩ | ⟨-, hcount⟩ := hcount
    · rfl
    · rw [hcount, if_neg hk, Nat.add_zero]

theorem Bindings.add {done : List Item} {item : Item} {sp' : IndexSpaces} {t' : Store}
    (h : Bindings s m imports done sp t) (hadds : Adds s m imports item sp t sp' t') :
    Bindings s m imports (done ++ [item]) sp' t' where
  grows := h.grows.trans hadds.grows
  admitted := List.forall_mem_append.mpr
    ⟨h.admitted, List.forall_mem_singleton.mpr hadds.admitted⟩
  bound k := hadds.bound (h.bound k)
  fresh k := hadds.fresh h.grows (h.fresh k)

theorem Adds.of_gains (item : Item) {t' : Store} (h : t.Gains item.kind t')
    (hadmitted : item.Admitted s m imports)
    (hbound : item.Bound s m imports t' (t.count item.kind)) :
    Adds s m imports item sp t (sp.push item.kind (t.count item.kind)) t' :=
  ⟨h.grows, hadmitted, _, rfl, hbound, .inr ⟨rfl, h.count_eq⟩⟩

/-! ## Imports -/

/-- The limits are satisfied just if no fault is found. -/
theorem limitsFault?_eq_none {l : Limits} {current : Nat} {maximum : Option Nat} :
    limitsFault? l current maximum = none ↔ l.Admits current maximum := by
  unfold limitsFault? Limits.Admits
  split
  · rename_i hlt
    exact ⟨nofun, fun h ↦ absurd h.1 (Nat.not_le_of_lt hlt)⟩
  · rename_i hle
    have hle := Nat.le_of_not_lt hle
    cases l.max with
    | none => simp [hle]
    | some max =>
      cases maximum with
      | none => simp
      | some own =>
        dsimp only
        split
        · rename_i hgt
          simp [Nat.not_le_of_lt hgt]
        · split
          · rename_i hgt
            simp [Nat.not_le_of_lt hgt]
          · rename_i hown hcurrent
            simp [hle, Nat.le_of_not_lt hown, Nat.le_of_not_lt hcurrent]

theorem kind_of_accepts {types : List FuncType} {desc : ImportDesc} {item : Extern}
    (h : desc.Accepts s types item) : item.kind = desc.kind := by
  cases desc <;> cases item <;> simp_all [ImportDesc.Accepts, ImportDesc.kind, Extern.kind]

/-- With an item supplied for it, an import is admitted just if the item is accepted. -/
theorem admitted_iff {imp : Import} {item : Extern} (hmodule : imports.hasModule imp.module = true)
    (hitem : imports.get? imp.module imp.name = some item) :
    (Item.imported imp).Admitted s m imports ↔ imp.desc.Accepts s m.types item := by
  refine ⟨?_, fun h ↦ ⟨hmodule, item, hitem, h⟩⟩
  rintro ⟨-, item', hitem', h⟩
  obtain rfl := Option.some.inj (hitem.symm.trans hitem')
  exact h

theorem importedItem_binds {imp : Import} :
    Ensures (importedItem imports imp) t (fun item t' ↦ t' = t ∧
      imports.hasModule imp.module = true ∧ imports.get? imp.module imp.name = some item ∧
      item.kind = imp.desc.kind) fun _ _ ↦ ¬(Item.imported imp).Admitted s m imports := by
  refine .ite (fun hmissing ↦ .throw_bind fun h ↦ ?_) fun hmodule ↦ ?_
  · simp [h.1] at hmissing
  · have hmodule : imports.hasModule imp.module = true := by simpa using hmodule
    split
    · rename_i hnone
      refine .throw fun h ↦ ?_
      obtain ⟨-, item, hitem, -⟩ := h
      cases hnone.symm.trans hitem
    · rename_i item hitem
      refine .ite (fun hkind ↦ .throw_bind ?_) fun hkind ↦ .pure ?_
      · rw [admitted_iff hmodule hitem]
        exact fun haccepts ↦ hkind (kind_of_accepts haccepts)
      · exact ⟨rfl, hmodule, hitem, not_not.mp hkind⟩

theorem resolve_binds {arena : Arena} {imp : Import} {r : Ref arena} (h : s.Grows t) :
    Ensures (resolve imp r) t (fun addr t' ↦ t' = t ∧ r = s.ref addr) fun _ _ ↦ r.store ≠ s.id := by
  refine .get_bind ?_
  split
  · rename_i addr haddr
    refine .pure ⟨rfl, ?_⟩
    simp only [Store.resolve] at haddr
    split at haddr
    · rename_i hid
      cases haddr
      rw [Store.ref, ← h.id, ← hid]
    · cases haddr
  · rename_i hnone
    refine .throw fun hid ↦ ?_
    simp [Store.resolve, hid, h.id] at hnone

/-- A function with a type is taken as it is, and one without is given the expected type. -/
theorem linkFunc_binds {imp : Import} {expected : FuncType} {addr : Nat} {c : Callable}
    (hc : t.funcs[addr]? = some c) :
    Ensures (linkFunc imp expected addr) t (fun addr' t' ↦
      c.type? = some expected ∧ addr' = addr ∧ t' = t ∨
      ∃ f, c = .host none f ∧ expected.mentionsI64 = false ∧ addr' = t.funcs.size ∧
        t' = { t with funcs := t.funcs.push (.host (some expected) f) })
      fun _ _ ↦ ¬(c.type? = some expected ∨ c.type? = none ∧ expected.mentionsI64 = false) := by
  refine .get_bind ?_
  rw [hc]
  split
  · rename_i hnone
    cases hnone
  · rename_i f hf
    cases hf
    refine .ite (fun hi64 ↦ .throw ?_) fun hi64 ↦ .modifyGet (.inr ⟨f, rfl, ?_, rfl, rfl⟩)
    · simp [Callable.type?, hi64]
    · simpa using hi64
  · rename_i callable huntyped hcallable
    cases hcallable
    obtain ⟨type, htype⟩ := Callable.exists_type huntyped
    rw [htype]
    refine .ite (fun hsignature ↦ .pure (.inl ⟨?_, rfl, rfl⟩)) fun hsignature ↦ .throw ?_
    · exact congrArg some (FuncType.signature_injective hsignature)
    · rintro (h | ⟨h, -⟩)
      · cases h
        exact hsignature rfl
      · cases h

theorem linkGlobal_binds {imp : Import} {g : GlobalType} {x : Number} :
    Ensures (linkGlobal imp g x) t (fun addr t' ↦ g.isMutable = false ∧ g.type ≠ .i64 ∧
      ∃ v, x.toValue g.type = .ok v ∧ addr = t.globals.size ∧
        t' = { t with globals := t.globals.push ⟨g, v⟩ })
      fun _ _ ↦ ¬(g.isMutable = false ∧ g.type ≠ .i64) := by
  refine .ite (fun hmutable ↦ .throw_bind ?_) fun hmutable ↦ ?_
  · simp [hmutable]
  · split
    · rename_i v hv
      refine .modifyGet ⟨by simpa using hmutable, ?_, v, hv, rfl, rfl⟩
      rintro htype
      rw [htype] at hv
      cases hv
    · rename_i e he
      refine .throw fun h ↦ ?_
      cases htype : g.type with
      | i64 => exact h.2 htype
      | _ =>
        rw [htype] at he
        cases he

theorem checkLimits_binds {imp : Import} {quota : Quota} {l : Limits} {current : Nat}
    {maximum : Option Nat} :
    Ensures (checkLimits imp quota l current maximum) t
      (fun _ t' ↦ t' = t ∧ l.Admits current maximum) fun _ _ ↦ ¬l.Admits current maximum := by
  unfold checkLimits
  split
  · rename_i fault hfault
    refine .throw fun h ↦ ?_
    cases hfault.symm.trans (limitsFault?_eq_none.mpr h)
  · rename_i hnone
    exact .pure ⟨rfl, limitsFault?_eq_none.mp hnone⟩

section Supplied

variable {imp : Import} {item : Extern} {addr : Nat}
  (hmodule : imports.hasModule imp.module = true)

include hmodule

theorem linkFunc_adds {type : Nat} {expected : FuncType} {c : Callable}
    (hdesc : imp.desc = .func type)
    (hitem : imports.get? imp.module imp.name = some (.func (s.ref addr)))
    (hexpected : m.types[type]? = some expected) (hc : s.funcs[addr]? = some c) (h : s.Grows t) :
    Ensures (linkFunc imp expected addr) t
      (fun addr' ↦ Adds s m imports (.imported imp) sp t (sp.push .func addr'))
      fun _ _ ↦ ¬(Item.imported imp).Admitted s m imports := by
  obtain ⟨module, name, desc⟩ := imp
  obtain rfl : desc = .func type := hdesc
  have hiff : (Item.imported ⟨module, name, .func type⟩).Admitted s m imports ↔
      (c.type? = some expected ∨ c.type? = none ∧ expected.mentionsI64 = false) := by
    rw [admitted_iff hmodule hitem]
    simp [ImportDesc.Accepts, Store.ref, hexpected, hc]
  have hlt := (Array.getElem?_eq_some_iff.mp hc).1
  refine (linkFunc_binds (h.extends.funcs hc)).mono ?_ fun _ _ hnot ↦ hnot ∘ hiff.mp
  rintro addr' t' (⟨hfound, rfl, rfl⟩ | ⟨host, rfl, hi64, rfl, rfl⟩)
  · refine ⟨.refl _, hiff.mpr (.inl hfound), addr', rfl, ?_, .inl ⟨hlt, rfl⟩⟩
    exact .imported hitem (.typed hexpected ⟨c, hc, hfound⟩)
  · refine .of_gains _ (.func _) (hiff.mpr (.inr ⟨rfl, hi64⟩)) ?_
    exact .imported hitem (.untyped hexpected rfl hc (h.count_le .func) Array.getElem?_push_size)

theorem linkGlobal_adds {g : GlobalType} {x : Number} (hdesc : imp.desc = .global g)
    (hitem : imports.get? imp.module imp.name = some (.global x)) (h : s.Grows t) :
    Ensures (linkGlobal imp g x) t
      (fun addr' ↦ Adds s m imports (.imported imp) sp t (sp.push .global addr'))
      fun _ _ ↦ ¬(Item.imported imp).Admitted s m imports := by
  obtain ⟨module, name, desc⟩ := imp
  obtain rfl : desc = .global g := hdesc
  have hiff := admitted_iff (s := s) (m := m) hmodule hitem
  refine linkGlobal_binds.mono ?_ fun _ _ hnot ↦ hnot ∘ hiff.mp
  rintro addr' t' ⟨hmutable, hi64, v, hv, rfl, rfl⟩
  refine .of_gains _ (.global _) (hiff.mpr ⟨hmutable, hi64⟩) ?_
  exact .imported hitem (.global hv (h.count_le .global) Array.getElem?_push_size)

/-- A table or memory that is supplied is bound if its size and maximum are as declared. -/
theorem checkLimits_adds {quota : Quota} {l : Limits} {current : Nat} {maximum : Option Nat}
    (hitem : imports.get? imp.module imp.name = some item)
    (hiff : imp.desc.Accepts s m.types item ↔ l.Admits current maximum)
    (hlt : addr < s.count imp.desc.kind) (hbinds : imp.desc.Binds s m.types t item addr) :
    Ensures (checkLimits imp quota l current maximum) t
      (fun _ ↦ Adds s m imports (.imported imp) sp t (sp.push imp.desc.kind addr))
      fun _ _ ↦ ¬(Item.imported imp).Admitted s m imports := by
  rw [admitted_iff hmodule hitem, hiff]
  refine checkLimits_binds.mono ?_ fun _ _ hnot ↦ hnot
  rintro _ t' ⟨rfl, hadmits⟩
  exact ⟨.refl _, (admitted_iff hmodule hitem).mpr (hiff.mpr hadmits), addr, rfl,
    .imported hitem hbinds, .inl ⟨hlt, rfl⟩⟩

end Supplied

/-- The step for an import binds it, or the import is not admitted. -/
theorem bindImport_adds {imp : Import} (hknown : imports.KnownTo s) (h : s.Grows t)
    (htype : ∀ type, imp.desc = .func type → type < m.types.length) :
    Ensures (bindImport m imports sp imp) t (Adds s m imports (.imported imp) sp t)
      fun _ _ ↦ ¬(Item.imported imp).Admitted s m imports := by
  obtain ⟨module, name, desc⟩ := imp
  refine .bind importedItem_binds fun item t' hitem ↦ ?_
  obtain ⟨rfl, hmodule, hitem, hkind⟩ := hitem
  have hitemKnown : item.KnownTo s := hknown _ (mem_of_lookup hitem)
  -- A reference to another store is found out before anything else is looked at.
  have hforeign (hnot : ¬desc.Accepts s m.types item) :
      ¬(Item.imported ⟨module, name, desc⟩).Admitted s m imports :=
    hnot ∘ (admitted_iff hmodule hitem).mp
  cases desc with
  | func type =>
    cases item with
    | func f =>
      obtain ⟨expected, hexpected⟩ : ∃ expected, m.types[type]? = some expected :=
        ⟨_, List.getElem?_eq_getElem (htype type rfl)⟩
      simp only [hexpected]
      refine .bind ((resolve_binds h).mono (fun _ _ hr ↦ hr) fun _ _ hid ↦ hforeign fun hacc ↦
        hid hacc.1) ?_
      rintro addr t₁ ⟨rfl, rfl⟩
      have hc := Array.getElem?_eq_getElem (hitemKnown rfl).2
      exact .bind (linkFunc_adds hmodule rfl hitem hexpected hc h) fun _ _ hadds ↦ .pure hadds
    | _ => cases hkind
  | global g =>
    cases item with
    | global x =>
      exact .bind (linkGlobal_adds hmodule rfl hitem h) fun _ _ hadds ↦ .pure hadds
    | _ => cases hkind
  | memory l =>
    cases item with
    | memory r =>
      refine .bind ((resolve_binds h).mono (fun _ _ hr ↦ hr) fun _ _ hid ↦ hforeign fun hacc ↦
        hid hacc.1) ?_
      rintro addr t₁ ⟨rfl, rfl⟩
      have hlt : addr < s.memories.size := (hitemKnown rfl).2
      have hx := Array.getElem?_eq_getElem hlt
      have hx' := getElem?_of_prefix h.memories hx
      refine .get_bind ?_
      simp only [hx']
      refine .bind (checkLimits_adds hmodule hitem ?_ hlt (.memory hlt)) fun _ _ hadds ↦ .pure hadds
      simp [ImportDesc.Accepts, Store.ref, hx]
    | _ => cases hkind
  | table l =>
    cases item with
    | table r =>
      refine .bind ((resolve_binds h).mono (fun _ _ hr ↦ hr) fun _ _ hid ↦ hforeign fun hacc ↦
        hid hacc.1) ?_
      rintro addr t₁ ⟨rfl, rfl⟩
      have hlt : addr < s.tables.size := (hitemKnown rfl).2
      have hx := Array.getElem?_eq_getElem hlt
      have hx' := getElem?_of_prefix h.tables hx
      refine .get_bind ?_
      simp only [hx']
      refine .bind (checkLimits_adds hmodule hitem ?_ hlt (.table hlt)) fun _ _ hadds ↦ .pure hadds
      simp [ImportDesc.Accepts, Store.ref, hx]
    | _ => cases hkind

/-! ## Definitions -/

variable {E : InstantiationError → Store → Prop}

theorem defineFunc_adds {code : Code} (h : s.Grows t) :
    Ensures (defineFunc s.instances.size sp code) t (Adds s m imports (.code code) sp t) E := by
  refine .bind (.modifyGet (Q := fun addr t' ↦ addr = t.funcs.size ∧
    t' = { t with funcs := t.funcs.push (.code s.instances.size code) }) ⟨rfl, rfl⟩) ?_
  rintro addr t' ⟨rfl, rfl⟩
  refine .pure (.of_gains (.code code) (.func _) trivial ?_)
  exact .code (h.count_le .func) Array.getElem?_push_size

theorem defineTable_adds {l : Limits} (hl : l.Ordered) (h : s.Grows t) :
    Ensures (defineTable sp l) t (Adds s m imports (.table l) sp t)
      fun _ _ ↦ ¬(Item.table l).Admitted s m imports := by
  refine .get_bind ?_
  dsimp only
  rw [h.config]
  split
  · rename_i e he
    refine .throw fun hadmitted ↦ ?_
    obtain ⟨x, hx⟩ := (Table.exists_new_iff hl).mpr hadmitted
    cases he.symm.trans hx
  · rename_i x hx
    refine .bind (.modifyGet (Q := fun addr t' ↦ addr = t.tables.size ∧
      t' = { t with tables := t.tables.push x }) ⟨rfl, rfl⟩) ?_
    rintro addr t' ⟨rfl, rfl⟩
    refine .pure (.of_gains (.table l) (.table _) ((Table.exists_new_iff hl).mp ⟨x, hx⟩) ?_)
    exact .table (h.count_le .table) hx Array.getElem?_push_size

theorem defineMemory_adds {l : Limits} (hl : l.Ordered) (h : s.Grows t) :
    Ensures (defineMemory sp l) t (Adds s m imports (.memory l) sp t)
      fun _ _ ↦ ¬(Item.memory l).Admitted s m imports := by
  refine .get_bind ?_
  dsimp only
  rw [h.config]
  split
  · rename_i e he
    refine .throw fun hadmitted ↦ ?_
    obtain ⟨x, hx⟩ := (Memory.exists_new_iff hl).mpr hadmitted
    cases he.symm.trans hx
  · rename_i x hx
    refine .bind (.modifyGet (Q := fun addr t' ↦ addr = t.memories.size ∧
      t' = { t with memories := t.memories.push x }) ⟨rfl, rfl⟩) ?_
    rintro addr t' ⟨rfl, rfl⟩
    refine .pure (.of_gains (.memory l) (.memory _) ((Memory.exists_new_iff hl).mp ⟨x, hx⟩) ?_)
    exact .memory (h.count_le .memory) hx Array.getElem?_push_size

/-- An initializer of a type has a value of that type once the imports are bound. -/
theorem evalConst_binds {more : List Item}
    (h : List.Forall₂ (Item.Bound s m imports t)
      ((m.imports.map Item.imported ++ more).filter (·.kind = .global)) (sp.space .global).toList)
    {e : ConstExpr} {type : ValueType} (he : e.HasType m.importedGlobals type) :
    Ensures (evalConst sp.globals e) t
      (fun v t' ↦ t' = t ∧ m.constant? imports e = some v ∧ v.type = type) E := by
  cases e with
  | value v => exact .pure ⟨rfl, rfl, he⟩
  | globalGet index =>
    obtain ⟨g, hg, rfl⟩ := he
    obtain ⟨imp, himp, hdesc⟩ := Module.getElem?_importsOf_global hg
    have hitem : ((m.imports.map Item.imported ++ more).filter (·.kind = .global))[index]? =
        some (.imported imp) := by
      have hlt := (List.getElem?_eq_some_iff.mp himp).1
      rw [List.filter_append, filter_imported, List.getElem?_append_left (by simpa using hlt),
        List.getElem?_map]
      exact congrArg (Option.map Item.imported) himp
    obtain ⟨addr, haddr, hbound⟩ := forall₂_getElem?_left h hitem
    rw [Array.getElem?_toList] at haddr
    have haddr : sp.globals[index]? = some addr := haddr
    obtain ⟨module, name, desc⟩ := imp
    cases hbound with
    | imported hget hbinds =>
      cases hbinds with
      | @global g' x v _ hv _ ht =>
        obtain rfl := Option.some.inj hdesc
        have hconstant : m.constant? imports (.globalGet index) = some v := by
          simp [constant?, himp, ImportDesc.global?, hget, Extern.global?, hv, Except.toOption]
        simp only [evalConst, globalAt, haddr]
        refine .bind (.get_bind ?_) fun g'' t' hg'' ↦ .pure hg''
        rw [ht]
        exact .pure ⟨rfl, hconstant, Number.type_of_toValue hv⟩
      | _ => cases hdesc

theorem defineGlobal_adds {more : List Item} {g : GlobalDecl}
    (hg : g.init.HasType m.importedGlobals g.type.type) (hgrows : s.Grows t)
    (h : List.Forall₂ (Item.Bound s m imports t)
      ((m.imports.map Item.imported ++ more).filter (·.kind = .global))
      (sp.space .global).toList) :
    Ensures (defineGlobal sp g) t (Adds s m imports (.global g) sp t) E := by
  refine .bind (evalConst_binds h hg) ?_
  rintro v t₁ ⟨rfl, hv, -⟩
  refine .bind (.modifyGet (Q := fun addr t' ↦ addr = t₁.globals.size ∧
    t' = { t₁ with globals := t₁.globals.push ⟨g.type, v⟩ }) ⟨rfl, rfl⟩) ?_
  rintro addr t' ⟨rfl, rfl⟩
  refine .pure (.of_gains (.global g) (.global _) trivial ?_)
  exact .global (hgrows.count_le .global) hv Array.getElem?_push_size

/-! ## All items -/

/-- A loop over declarations binds them one after the other. -/
theorem foldlM_binds {α : Type} {f : IndexSpaces → α → Link IndexSpaces} {mk : α → Item}
    {l : List α} {before : List Item} {P : Prop}
    (hstep : ∀ a ∈ l, ∀ done sp t, Bindings s m imports (before ++ done) sp t →
      Ensures (f sp a) t (Adds s m imports (mk a) sp t)
        fun _ _ ↦ ¬(mk a).Admitted s m imports)
    (hP : ∀ a ∈ l, ¬(mk a).Admitted s m imports → P) (h : Bindings s m imports before sp t) :
    Ensures (l.foldlM f sp) t (Bindings s m imports (before ++ l.map mk)) fun _ _ ↦ P := by
  refine .foldlM (fun done ↦ Bindings s m imports (before ++ done.map mk))
    (fun done a rest sp t hl h ↦ ?_) (by simpa using h)
  have ha : a ∈ l := hl ▸ List.mem_append_right done List.mem_cons_self
  rw [List.map_append, ← List.append_assoc]
  exact (hstep a ha _ sp t h).mono (fun _ _ hadds ↦ h.add hadds) fun _ _ hnot ↦ hP a ha hnot

/-- What has been bound stays so when only instances change. -/
theorem Bindings.withInstances {done : List Item} {insts : Array Instance}
    (h : Bindings s m imports done sp t) (hgrows : s.Grows { t with instances := insts }) :
    Bindings s m imports done sp { t with instances := insts } where
  grows := hgrows
  admitted := h.admitted
  bound k := (h.bound k).imp fun _ _ hb ↦
    hb.mono (t := t) List.prefix_rfl List.prefix_rfl List.prefix_rfl List.prefix_rfl
  fresh k := by
    rw [h.fresh]
    cases k <;> rfl

end Link

end WasmEngine
