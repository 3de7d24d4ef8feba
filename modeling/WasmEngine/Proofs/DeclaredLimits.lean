import WasmEngine.Proofs.IndexSpaces
import WasmEngine.Proofs.Provision

/-!
# Declared limits

The limits that a module declares for a table or a memory are checked when an instance is linked,
but the table or memory can be shared and goes on growing afterwards. The limits hold for good all
the same. Nothing shrinks, and nothing grows beyond its own limit, which is the lower of its maximum
and the cap of the store. Where a module declares a maximum, linking has made sure that the maximum
of what it binds is no higher.
-/

namespace WasmEngine

open Relation

/-! ## Tables and memories by themselves -/

/-- A memory of whole pages that has kept to its limit. -/
structure Memory.Fits (cap : Nat) (x : Memory) : Prop where
  whole : x.bytes.size = x.pages * pageSize
  within : x.pages ≤ x.limit
  declared : ∀ own ∈ x.max, x.limit ≤ own
  capped : x.limit ≤ cap

/-- A table that has kept to its limit. -/
structure Table.Fits (cap : Nat) (x : Table) : Prop where
  within : x.size ≤ x.limit
  declared : ∀ own ∈ x.max, x.limit ≤ own
  capped : x.limit ≤ cap

theorem effectiveLimit_le_max {l : Limits} {cap own : Nat} (h : own ∈ l.max) :
    effectiveLimit l cap ≤ own := by
  rw [Option.mem_def] at h
  simp only [effectiveLimit, h, Option.getD_some]
  exact Nat.min_le_left _ _

theorem effectiveLimit_le_cap (l : Limits) (cap : Nat) : effectiveLimit l cap ≤ cap :=
  Nat.min_le_right _ _

/-- Declared limits go on holding for something that grows and keeps to its own maximum. -/
theorem Limits.Admits.mono {l : Limits} {current current' : Nat} {maximum : Option Nat}
    (h : l.Admits current maximum) (hle : current ≤ current')
    (hmax : ∀ own ∈ maximum, current' ≤ own) : l.Admits current' maximum := by
  refine ⟨Nat.le_trans h.1 hle, fun max hmem ↦ ?_⟩
  obtain ⟨⟨own, hown, hle'⟩, -⟩ := h.2 max hmem
  exact ⟨⟨own, hown, hle'⟩, Nat.le_trans (hmax own hown) hle'⟩

/-- Limits admit what is made by them. -/
theorem Limits.admits_min {l : Limits} {cap : Nat} (h : l.min ≤ effectiveLimit l cap) :
    l.Admits l.min l.max :=
  ⟨Nat.le_refl _, fun max hmax ↦
    ⟨⟨max, hmax, Nat.le_refl _⟩, Nat.le_trans h (effectiveLimit_le_max hmax)⟩⟩

/-- What one change does to something that fits and may grow, any number of them do. -/
theorem fits_of_steps {α : Type} {step : α → α → Prop} {fits : α → Prop} {max : α → Option Nat}
    {size : α → Nat}
    (hstep : ∀ {x x'}, step x x' → fits x → fits x' ∧ max x' = max x ∧ size x ≤ size x') {x x' : α}
    (h : ReflTransGen step x x') (hx : fits x) : fits x' ∧ max x' = max x ∧ size x ≤ size x' := by
  induction h with
  | refl => exact ⟨hx, rfl, Nat.le_refl _⟩
  | tail _ hlast ih =>
    obtain ⟨hfits, hmax, hle⟩ := ih
    obtain ⟨hfits', hmax', hle'⟩ := hstep hlast hfits
    exact ⟨hfits', hmax'.trans hmax, Nat.le_trans hle hle'⟩

namespace Memory

variable {x x' : Memory} {cap : Nat}

theorem pages_of_size {n : Nat} (h : x.bytes.size = n * pageSize) : x.pages = n := by
  rw [pages, h]
  exact Nat.mul_div_cancel n (by decide)

theorem fits_of_new {l : Limits} (h : new l cap = .ok x) :
    x.Fits cap ∧ l.Admits x.pages x.max := by
  simp only [new] at h
  split at h
  · cases h
  · rename_i hle
    have hle := Nat.le_of_not_lt hle
    cases h
    have hpages :
        pages ⟨Array.replicate (l.min * pageSize) 0, l.max, effectiveLimit l cap⟩ = l.min :=
      pages_of_size (by simp)
    refine ⟨⟨?_, ?_, fun own hown ↦ effectiveLimit_le_max hown, effectiveLimit_le_cap l cap⟩, ?_⟩
    · rw [hpages, Array.size_replicate]
    · rw [hpages]
      exact hle
    · rw [hpages]
      exact Limits.admits_min hle

/-- A memory that fits goes on fitting, with the same maximum, and does not shrink. -/
theorem Change.fits (h : Change x x') (hx : x.Fits cap) :
    x'.Fits cap ∧ x'.max = x.max ∧ x.pages ≤ x'.pages := by
  cases h with
  | write addr bytes =>
    have hpages : (x.write addr bytes).pages = x.pages := by simp [pages, Memory.write]
    refine ⟨⟨?_, ?_, hx.declared, hx.capped⟩, rfl, Nat.le_of_eq hpages.symm⟩
    · rw [hpages, ← hx.whole]
      exact size_overlay _ _ _
    · rw [hpages]
      exact hx.within
  | @grow _ delta _ h =>
    simp only [Memory.grow] at h
    split at h
    · rename_i hle
      cases h
      have hsize : (x.bytes ++ Array.replicate (delta * pageSize) 0).size =
          (x.pages + delta) * pageSize := by
        rw [Array.size_append, Array.size_replicate, hx.whole, Nat.add_mul]
      have hpages : pages { x with bytes := x.bytes ++ Array.replicate (delta * pageSize) 0 } =
          x.pages + delta := pages_of_size hsize
      refine ⟨⟨?_, ?_, hx.declared, hx.capped⟩, rfl, ?_⟩
      · rw [hpages, hsize]
      · rw [hpages]
        exact hle
      · rw [hpages]
        exact Nat.le_add_right _ _
    · cases h

theorem fits_of_changes (h : ReflTransGen Change x x') (hx : x.Fits cap) :
    x'.Fits cap ∧ x'.max = x.max ∧ x.pages ≤ x'.pages :=
  fits_of_steps (fun hstep hfits ↦ Change.fits hstep hfits) h hx

end Memory

namespace Table

variable {x x' : Table} {cap : Nat}

theorem fits_of_new {l : Limits} (h : new l cap = .ok x) : x.Fits cap ∧ l.Admits x.size x.max := by
  simp only [new] at h
  split at h
  · cases h
  · rename_i hle
    have hle := Nat.le_of_not_lt hle
    cases h
    have hsize : size ⟨Array.replicate l.min none, l.max, effectiveLimit l cap⟩ = l.min :=
      Array.size_replicate
    refine ⟨⟨?_, fun own hown ↦ effectiveLimit_le_max hown, effectiveLimit_le_cap l cap⟩, ?_⟩
    · rw [hsize]
      exact hle
    · rw [hsize]
      exact Limits.admits_min hle

/-- A table that fits goes on fitting, with the same maximum, and does not shrink. -/
theorem Change.fits (h : Change x x') (hx : x.Fits cap) :
    x'.Fits cap ∧ x'.max = x.max ∧ x.size ≤ x'.size := by
  -- What is put into slots is of no account.
  have hsame {slots : Array (Option Nat)} (hslots : slots.size = x.slots.size) :
      Fits cap { x with slots } ∧ x.max = x.max ∧ x.size ≤ size { x with slots } :=
    ⟨⟨Nat.le_trans (Nat.le_of_eq hslots) hx.within, hx.declared, hx.capped⟩, rfl,
      Nat.le_of_eq hslots.symm⟩
  cases h with
  | write index funcs => exact hsame (size_overlay _ _ _)
  | set h =>
    simp only [Table.set] at h
    split at h
    · cases h
      exact hsame Array.size_setIfInBounds
    · cases h
  | @grow _ delta _ h =>
    simp only [Table.grow] at h
    split at h
    · rename_i hle
      cases h
      have hsize : size { x with slots := x.slots ++ Array.replicate delta none } =
          x.size + delta := by simp [size]
      refine ⟨⟨?_, hx.declared, hx.capped⟩, rfl, ?_⟩
      · rw [hsize]
        exact hle
      · rw [hsize]
        exact Nat.le_add_right _ _
    · cases h

theorem fits_of_changes (h : ReflTransGen Change x x') (hx : x.Fits cap) :
    x'.Fits cap ∧ x'.max = x.max ∧ x.size ≤ x'.size :=
  fits_of_steps (fun hstep hfits ↦ Change.fits hstep hfits) h hx

end Table

/-! ## Stores -/

namespace Store

structure Limited (s : Store) : Prop where
  tables : ∀ {a : Nat} {x : Table}, s.tables[a]? = some x → x.Fits s.config.maxTableElements
  memories : ∀ {a : Nat} {x : Memory}, s.memories[a]? = some x → x.Fits s.config.maxMemoryPages

def TableAdmitted (s : Store) (l : Limits) (addr : Nat) : Prop :=
  ∃ x, s.tables[addr]? = some x ∧ l.Admits x.size x.max

def MemoryAdmitted (s : Store) (l : Limits) (addr : Nat) : Prop :=
  ∃ x, s.memories[addr]? = some x ∧ l.Admits x.pages x.max

/-- Every table and memory that is new in the second store was made under the caps of the first. -/
structure Makes (s t : Store) : Prop where
  tables : ∀ {a : Nat} {x : Table}, t.tables[a]? = some x →
    a < s.tables.size ∨ ∃ l, Table.new l s.config.maxTableElements = .ok x
  memories : ∀ {a : Nat} {x : Memory}, t.memories[a]? = some x →
    a < s.memories.size ∨ ∃ l, Memory.new l s.config.maxMemoryPages = .ok x

variable {s t : Store}

theorem Makes.of_size_eq (htables : t.tables.size = s.tables.size)
    (hmemories : t.memories.size = s.memories.size) : s.Makes t where
  tables hx := .inl (htables ▸ (Array.getElem?_eq_some_iff.mp hx).1)
  memories hx := .inl (hmemories ▸ (Array.getElem?_eq_some_iff.mp hx).1)

/-- Of what was there before, only growth has to be looked at. -/
theorem Limited.extend (hs : s.Limited) (hext : s.Extends t) (hmakes : s.Makes t) :
    t.Limited where
  tables hx := by
    rw [hext.config]
    obtain hlt | ⟨l, hnew⟩ := hmakes.tables hx
    · have hold := Array.getElem?_eq_getElem hlt
      obtain ⟨x', hx', hchanges⟩ := hext.tables hold
      obtain rfl := Option.some.inj (hx.symm.trans hx')
      exact (Table.fits_of_changes hchanges (hs.tables hold)).1
    · exact (Table.fits_of_new hnew).1
  memories hx := by
    rw [hext.config]
    obtain hlt | ⟨l, hnew⟩ := hmakes.memories hx
    · have hold := Array.getElem?_eq_getElem hlt
      obtain ⟨x', hx', hchanges⟩ := hext.memories hold
      obtain rfl := Option.some.inj (hx.symm.trans hx')
      exact (Memory.fits_of_changes hchanges (hs.memories hold)).1
    · exact (Memory.fits_of_new hnew).1

theorem TableAdmitted.mono (hs : s.Limited) (hext : s.Extends t) {l : Limits} {addr : Nat}
    (h : s.TableAdmitted l addr) : t.TableAdmitted l addr := by
  obtain ⟨x, hx, hadmits⟩ := h
  obtain ⟨x', hx', hchanges⟩ := hext.tables hx
  obtain ⟨hfits, hmax, hle⟩ := Table.fits_of_changes hchanges (hs.tables hx)
  refine ⟨x', hx', ?_⟩
  rw [hmax]
  exact hadmits.mono hle fun own hown ↦
    Nat.le_trans hfits.within (hfits.declared own (hmax ▸ hown))

theorem MemoryAdmitted.mono (hs : s.Limited) (hext : s.Extends t) {l : Limits} {addr : Nat}
    (h : s.MemoryAdmitted l addr) : t.MemoryAdmitted l addr := by
  obtain ⟨x, hx, hadmits⟩ := h
  obtain ⟨x', hx', hchanges⟩ := hext.memories hx
  obtain ⟨hfits, hmax, hle⟩ := Memory.fits_of_changes hchanges (hs.memories hx)
  refine ⟨x', hx', ?_⟩
  rw [hmax]
  exact hadmits.mono hle fun own hown ↦
    Nat.le_trans hfits.within (hfits.declared own (hmax ▸ hown))

theorem Makes.pushTable {l : Limits} {x : Table}
    (hx : Table.new l s.config.maxTableElements = .ok x) :
    s.Makes { s with tables := s.tables.push x } where
  tables hy := by
    rw [Array.getElem?_push] at hy
    split at hy
    · cases hy
      exact .inr ⟨l, hx⟩
    · exact .inl (Array.getElem?_eq_some_iff.mp hy).1
  memories hy := .inl (Array.getElem?_eq_some_iff.mp hy).1

theorem Makes.pushMemory {l : Limits} {x : Memory}
    (hx : Memory.new l s.config.maxMemoryPages = .ok x) :
    s.Makes { s with memories := s.memories.push x } where
  tables hy := .inl (Array.getElem?_eq_some_iff.mp hy).1
  memories hy := by
    rw [Array.getElem?_push] at hy
    split at hy
    · cases hy
      exact .inr ⟨l, hx⟩
    · exact .inl (Array.getElem?_eq_some_iff.mp hy).1

theorem Queried.makes (h : s.Queried t) : s.Makes t := by
  cases h with
  | same => exact .of_size_eq rfl rfl
  | newMemory hx => exact .pushMemory hx
  | newTable hx => exact .pushTable hx
  | setMemory _ _ => exact .of_size_eq rfl (by simp [Store.setMemory])
  | setTable _ _ => exact .of_size_eq (by simp [Store.setTable]) rfl

end Store

theorem SegmentPlan.apply_makes (plan : SegmentPlan) (s : Store) : s.Makes (plan.apply s) := by
  have helements (ps : List (Nat × Nat × List Nat)) (s : Store) :
      (ps.foldl writeElements s).tables.size = s.tables.size ∧
        (ps.foldl writeElements s).memories.size = s.memories.size := by
    induction ps generalizing s with
    | nil => exact ⟨rfl, rfl⟩
    | cons p ps ih => simpa [writeElements] using ih (writeElements s p)
  have hdata (ps : List (Nat × Nat × List UInt8)) (s : Store) :
      (ps.foldl writeData s).tables.size = s.tables.size ∧
        (ps.foldl writeData s).memories.size = s.memories.size := by
    induction ps generalizing s with
    | nil => exact ⟨rfl, rfl⟩
    | cons p ps ih => simpa [writeData] using ih (writeData s p)
  obtain ⟨htables, hmemories⟩ := helements plan.elements s
  obtain ⟨htables', hmemories'⟩ := hdata plan.data (plan.elements.foldl writeElements s)
  exact .of_size_eq (htables'.trans htables) (hmemories'.trans hmemories)

/-! ## Linking -/

namespace Module

def Item.tableLimits? : Item → Option Limits
  | imported imp => imp.desc.table?
  | table l => some l
  | _ => none

def Item.memoryLimits? : Item → Option Limits
  | imported imp => imp.desc.memory?
  | memory l => some l
  | _ => none

variable {m : Module} {s t : Store} {imports : Imports}

theorem map_tableLimits? :
    (m.itemsOf .table).map Item.tableLimits? = m.tableSpace.map some := by
  have himports : (m.importsOf .table).map (·.desc.table?) = m.importedTables.map some :=
    map_filter_kind (fun d ↦ by cases d <;> simp [ImportDesc.table?, ImportDesc.kind]) m.imports
  simp only [itemsOf, definitions, tableSpace, List.map_append, List.map_map, ← himports]
  rfl

theorem map_memoryLimits? :
    (m.itemsOf .memory).map Item.memoryLimits? = m.memorySpace.map some := by
  have himports : (m.importsOf .memory).map (·.desc.memory?) = m.importedMemories.map some :=
    map_filter_kind (fun d ↦ by cases d <;> simp [ImportDesc.memory?, ImportDesc.kind]) m.imports
  simp only [itemsOf, definitions, memorySpace, List.map_append, List.map_map, ← himports]
  rfl

variable {item : Item} {addr : Nat} {l : Limits}

theorem Item.Bound.tableAdmitted (h : item.Bound s m imports t addr) (hgrows : s.Grows t)
    (hadmitted : item.Admitted s m imports) (hl : item.tableLimits? = some l) :
    t.TableAdmitted l addr := by
  cases h with
  | @imported imp _ _ hitem hbinds =>
    obtain ⟨module, name, desc⟩ := imp
    obtain ⟨-, item', hitem', haccepts⟩ := hadmitted
    obtain rfl := Option.some.inj (hitem.symm.trans hitem')
    cases hbinds with
    | table _ =>
      cases hl
      obtain ⟨-, x, hx, hadmits⟩ := haccepts
      exact ⟨x, getElem?_of_prefix hgrows.tables hx, hadmits⟩
    | _ => cases hl
  | table _ hx ht =>
    cases hl
    exact ⟨_, ht, (Table.fits_of_new hx).2⟩
  | _ => cases hl

theorem Item.Bound.memoryAdmitted (h : item.Bound s m imports t addr) (hgrows : s.Grows t)
    (hadmitted : item.Admitted s m imports) (hl : item.memoryLimits? = some l) :
    t.MemoryAdmitted l addr := by
  cases h with
  | @imported imp _ _ hitem hbinds =>
    obtain ⟨module, name, desc⟩ := imp
    obtain ⟨-, item', hitem', haccepts⟩ := hadmitted
    obtain rfl := Option.some.inj (hitem.symm.trans hitem')
    cases hbinds with
    | memory _ =>
      cases hl
      obtain ⟨-, x, hx, hadmits⟩ := haccepts
      exact ⟨x, getElem?_of_prefix hgrows.memories hx, hadmits⟩
    | _ => cases hl
  | memory _ hx ht =>
    cases hl
    exact ⟨_, ht, (Memory.fits_of_new hx).2⟩
  | _ => cases hl

end Module

/-- The tables and memories of an instance satisfy the limits that its module declares. -/
structure Instance.Measured (s : Store) (i : Instance) : Prop where
  tables : List.Forall₂ s.TableAdmitted i.module.tableSpace i.tables.toList
  memories : List.Forall₂ s.MemoryAdmitted i.module.memorySpace i.memories.toList

theorem Instance.Measured.mono {s t : Store} {i : Instance} (hs : s.Limited) (hext : s.Extends t)
    (h : i.Measured s) : i.Measured t where
  tables := h.tables.imp fun _ _ hx ↦ hx.mono hs hext
  memories := h.memories.imp fun _ _ hx ↦ hx.mono hs hext

namespace Link

open WasmEngine.Module

variable {s t : Store} {m : Module} {imports : Imports} {sp : IndexSpaces}

/-- From what holds of the items of a kind to what holds of their declarations. -/
theorem Provided.forall₂_declared (h : Provided s m imports m.items sp t) {k : ExternKind}
    (hk : k ≠ .func) {proj : Item → Option Limits} {decls : List Limits}
    (hdecls : (m.itemsOf k).map proj = decls.map some) {R : Limits → Nat → Prop}
    (hR : ∀ {item addr l}, item.Bound s m imports t addr → item.Admitted s m imports →
      proj item = some l → R l addr) : List.Forall₂ R decls (sp.space k).toList := by
  have hbound := h.bound k hk
  rw [filter_items] at hbound
  have hitems : List.Forall₂ (fun item addr ↦ ∀ l, proj item = some l → R l addr) (m.itemsOf k)
      (sp.space k).toList := by
    refine ((List.forall₂_and_left _ _).mpr ⟨fun _ hitem ↦ hitem, hbound⟩).imp ?_
    rintro item addr ⟨hitem, hbound⟩ l hl
    have hkind := kind_of_mem_itemsOf hitem
    rw [← filter_items] at hitem
    exact hR hbound (h.admitted item (List.mem_filter.mp hitem).1 (hkind ▸ hk)) hl
  have hmap : List.Forall₂ (fun o addr ↦ ∀ l, o = some l → R l addr) ((m.itemsOf k).map proj)
      (sp.space k).toList := List.forall₂_map_left_iff.mpr hitems
  rw [hdecls, List.forall₂_map_left_iff] at hmap
  exact hmap.imp fun l _ hl ↦ hl l rfl

theorem Provides.measured {i : Instance} (h : Provides s m imports t i) : i.Measured t := by
  obtain rfl := h.module
  have hgrows := h.items.grows
  exact {
    tables := h.items.forall₂_declared (k := .table) nofun map_tableLimits?
      fun hbound hadmitted hl ↦ hbound.tableAdmitted hgrows hadmitted hl
    memories := h.items.forall₂_declared (k := .memory) nofun map_memoryLimits?
      fun hbound hadmitted hl ↦ hbound.memoryAdmitted hgrows hadmitted hl }

/-- Linking adds tables and memories only as the module declares them. -/
theorem Provided.makes {done : List Item} (h : Provided s m imports done sp t) : s.Makes t where
  tables := by
    intro a x hx
    refine (Nat.lt_or_ge a s.tables.size).imp_right fun hnew ↦ ?_
    obtain ⟨item, -, hkind, hbound⟩ :=
      h.exists_new (k := .table) nofun hnew (Array.getElem?_eq_some_iff.mp hx).1
    cases hbound with
    | @imported imp _ _ hitem hbinds =>
      have hlt := addr_lt_of_imported (.inl rfl) hkind (.imported hitem hbinds)
      exact absurd hnew (Nat.not_le_of_lt hlt)
    | @table l _ _ _ hmade hx' =>
      obtain rfl := Option.some.inj (hx.symm.trans hx')
      exact ⟨l, hmade⟩
    | _ => cases hkind
  memories := by
    intro a x hx
    refine (Nat.lt_or_ge a s.memories.size).imp_right fun hnew ↦ ?_
    obtain ⟨item, -, hkind, hbound⟩ :=
      h.exists_new (k := .memory) nofun hnew (Array.getElem?_eq_some_iff.mp hx).1
    cases hbound with
    | @imported imp _ _ hitem hbinds =>
      have hlt := addr_lt_of_imported (.inr rfl) hkind (.imported hitem hbinds)
      exact absurd hnew (Nat.not_le_of_lt hlt)
    | @memory l _ _ _ hmade hx' =>
      obtain rfl := Option.some.inj (hx.symm.trans hx')
      exact ⟨l, hmade⟩
    | _ => cases hkind

end Link

/-! ## Over time -/

namespace Store

variable {s t : Store}

theorem Change.limited (h : s.Change t) (hwf : s.WellFormed) (hs : s.Limited) : t.Limited := by
  have hext := h.extends hwf
  cases h with
  | count h =>
    obtain ⟨depth, journal, rfl⟩ := h
    exact hs.extend hext (.of_size_eq rfl rfl)
  | statement _ h =>
    cases h with
    | same => exact hs
    | memory _ _ _ => exact hs.extend hext (.of_size_eq rfl (by simp [setMemory]))
    | global _ _ _ _ => exact hs.extend hext (.of_size_eq rfl rfl)
  | query q => exact hs.extend hext (s.answer_queried q).makes
  | newFunc type _ => exact hs.extend hext (.of_size_eq rfl rfl)
  | @link m imports r t' _ hm h =>
    obtain ⟨i, hprovides⟩ := Link.link_provides hwf hm h.linked
    have hlinked := hs.extend hprovides.items.grows.extends hprovides.items.makes
    exact hlinked.extend (Link.extends_apply hwf hm h.linked) (r.2.apply_makes t')

theorem Change.measured (h : s.Change t) (hwf : s.WellFormed) (hs : s.Limited)
    (hinstances : ∀ {a : Nat} {i : Instance}, s.instances[a]? = some i → i.Measured s) {a : Nat}
    {i : Instance} (hi : t.instances[a]? = some i) : i.Measured t := by
  obtain hold | ⟨m, imports, r, t', hm, hrun, hprovides, rfl⟩ := h.instance_cases hwf hi
  · exact (hinstances hold).mono hs (h.extends hwf)
  · have hlinked := hs.extend hprovides.items.grows.extends hprovides.items.makes
    exact hprovides.measured.mono hlinked (Link.extends_apply hwf hm hrun)

/-- All instances are measured as long as the store changes only in the ways it can. -/
theorem Evolves.measured (h : s.Evolves t) (hs : s.Limited)
    (hinstances : ∀ {a : Nat} {i : Instance}, s.instances[a]? = some i → i.Measured s) :
    t.Limited ∧ ∀ {a : Nat} {i : Instance}, t.instances[a]? = some i → i.Measured t := by
  induction h with
  | refl => exact ⟨hs, hinstances⟩
  | tail _ hstep ih =>
    exact ⟨hstep.2.limited hstep.1 ih.1, fun hi ↦ hstep.2.measured hstep.1 ih.1 ih.2 hi⟩

end Store

/-- Whatever is done with a store, every memory consists of whole pages, no memory or table is
larger than the caps of the store allow, and the memories and tables of every instance satisfy the
limits that its module declares. -/
theorem World.Reachable.limits_hold {w : World} (hw : w.Reachable) :
    (∀ x ∈ w.store.memories, x.bytes.size = x.pages * pageSize ∧
      x.pages ≤ w.store.config.maxMemoryPages) ∧
    (∀ x ∈ w.store.tables, x.size ≤ w.store.config.maxTableElements) ∧
    ∀ i ∈ w.store.instances,
      List.Forall₂ (fun l addr ↦ ∃ x, w.store.memories[addr]? = some x ∧ l.Admits x.pages x.max)
        i.module.memorySpace i.memories.toList ∧
      List.Forall₂ (fun l addr ↦ ∃ x, w.store.tables[addr]? = some x ∧ l.Admits x.size x.max)
        i.module.tableSpace i.tables.toList := by
  obtain ⟨id, config, hevolves⟩ := hw.evolves
  obtain ⟨hlimited, hmeasured⟩ := hevolves.measured ⟨nofun, nofun⟩ nofun
  refine ⟨fun x hx ↦ ?_, fun x hx ↦ ?_, fun i hi ↦ ?_⟩
  · obtain ⟨a, ha⟩ := Array.mem_iff_getElem?.mp hx
    have hfits := hlimited.memories ha
    exact ⟨hfits.whole, Nat.le_trans hfits.within hfits.capped⟩
  · obtain ⟨a, ha⟩ := Array.mem_iff_getElem?.mp hx
    have hfits := hlimited.tables ha
    exact Nat.le_trans hfits.within hfits.capped
  · obtain ⟨a, ha⟩ := Array.mem_iff_getElem?.mp hi
    exact ⟨(hmeasured ha).memories, (hmeasured ha).tables⟩

/-- A binary with a table of one to three slots and a memory of up to one page. Its start function
grows the memory to that. -/
def growingBinary : List UInt8 :=
  [0, 0x61, 0x73, 0x6d, 1, 0, 0, 0,
   1, 4, 1, 0x60, 0, 0,
   3, 2, 1, 0,
   4, 5, 1, 0x70, 1, 1, 3,
   5, 4, 1, 1, 0, 1,
   8, 1, 0,
   10, 9, 1, 7, 0, 0x41, 1, 0x40, 0, 0x1a, 0x0b]

/-- The start function has grown the memory, and the host then grows the table as far as it can. -/
theorem grown_limits_hold :
    ∃ s t, Store.load 30 { id := 0 } growingBinary = some (.ok ⟨0, 0⟩, s) ∧
      s.tableGrow ⟨0, 0⟩ 2 = .ok (1, t) ∧ (World.idle t).Reachable ∧
      (∀ x ∈ t.memories, x.bytes.size = x.pages * pageSize ∧ x.pages ≤ t.config.maxMemoryPages) ∧
      (∀ x ∈ t.tables, x.size ≤ t.config.maxTableElements) ∧
      ∀ i ∈ t.instances,
        List.Forall₂ (fun l addr ↦ ∃ x, t.memories[addr]? = some x ∧ l.Admits x.pages x.max)
          i.module.memorySpace i.memories.toList ∧
        List.Forall₂ (fun l addr ↦ ∃ x, t.tables[addr]? = some x ∧ l.Admits x.size x.max)
          i.module.tableSpace i.tables.toList := by
  have hload : ((Store.load 30 { id := 0 } growingBinary).bind fun p ↦
      (p.2.tableGrow ⟨0, 0⟩ 2).toOption.map fun q ↦ (p.1, q.1)) = some (.ok ⟨0, 0⟩, 1) := by
    decide +kernel
  obtain ⟨⟨r, s⟩, hs, h⟩ := Option.bind_eq_some_iff.mp hload
  obtain ⟨⟨n, t⟩, hgrow, h⟩ := Option.map_eq_some_iff.mp h
  cases h
  have hgrow := except_toOption_eq_some hgrow
  have hstep : (World.idle s).Leads (.idle t) := by
    have hquery := World.Step.query s (.tableGrow ⟨0, 0⟩ 2)
    simp only [Store.answer, hgrow] at hquery
    exact .single ⟨_, hquery⟩
  obtain ⟨id, config, hleads⟩ := (World.reachable_new 0 {}).load hs
  have hw : (World.idle t).Reachable := ⟨id, config, hleads.trans hstep⟩
  exact ⟨s, t, hs, hgrow, hw, hw.limits_hold⟩

end WasmEngine
