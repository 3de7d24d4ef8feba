import WasmEngine.Proofs.StoreForm

/-!
# Changes that keep stores well formed

Memories and tables that change in place, globals that take a new value, host functions that are
added, and the operations of an embedder that run no code. Each leaves a well-formed store that
extends the one before, and the references it hands out stand for items of that store.
-/

namespace WasmEngine

open Relation

abbrev Handle := Sigma Ref

def Extern.handle? : Extern → Option Handle
  | .func f => some ⟨.func, f⟩
  | .table t => some ⟨.table, t⟩
  | .memory m => some ⟨.memory, m⟩
  | .global _ => none

def Query.handles : (q : Query) → q.Reply → List Handle
  | .exports _, items => items.filterMap (·.2.handle?)
  | .exportOf _ _, item => (item.bind Extern.handle?).toList
  | .newMemory _ _, .ok m => [⟨.memory, m⟩]
  | .newTable _ _, .ok t => [⟨.table, t⟩]
  | .tableGet _ _, .ok (some f) => [⟨.func, f⟩]
  | _, _ => []

theorem mem_of_lookup {α β : Type} [BEq α] [LawfulBEq α] {a : α} {b : β} {l : List (α × β)}
    (h : l.lookup a = some b) : (a, b) ∈ l := by
  obtain ⟨l₁, l₂, rfl, -⟩ := List.lookup_eq_some_iff.mp h
  simp

/-- What is in an overlaid array was there before, or was written. -/
theorem mem_overlay {α : Type} {a : Array α} {index : Nat} {bs : List α} {x : α}
    (h : x ∈ overlay a index bs) : x ∈ a ∨ x ∈ bs := by
  induction bs generalizing a index with
  | nil => exact .inl h
  | cons b bs ih =>
    obtain hx | hx := ih h
    · obtain hx | rfl := Array.mem_or_eq_of_mem_setIfInBounds hx
      · exact .inl hx
      · exact .inr List.mem_cons_self
    · exact .inr (List.mem_cons_of_mem b hx)

namespace Table

/-- A new table has nothing in it. -/
theorem slots_of_new {l : Limits} {cap : Nat} {x : Table} (h : new l cap = .ok x) :
    ∀ slot ∈ x.slots, slot = none := by
  simp only [new] at h
  split at h
  · cases h
  · cases h
    exact fun slot hslot ↦ (Array.mem_replicate.mp hslot).2

variable {s : Store} {x x' : Table}

/-- A table grows by empty slots, so that nothing untyped comes in. -/
theorem Typed.of_grow {delta previous : Nat} (hx : x.Typed s)
    (h : x.grow delta = .ok (previous, x')) : x'.Typed s := by
  simp only [grow] at h
  split at h
  · cases h
    intro addr haddr
    obtain haddr | haddr := Array.mem_append.mp haddr
    · exact hx addr haddr
    · exact absurd (Array.mem_replicate.mp haddr).2 (by simp)
  · cases h

/-- A slot that is set to a function with a type leaves the table typed. -/
theorem Typed.of_set {index : Nat} {slot : Option Nat} (hx : x.Typed s)
    (h : x.set index slot = .ok x')
    (hslot : ∀ addr, slot = some addr → ∃ type, s.HasFunc addr type) :
    x'.Typed s := by
  simp only [set] at h
  split at h
  · cases h
    intro addr haddr
    obtain haddr | rfl := Array.mem_or_eq_of_mem_setIfInBounds haddr
    · exact hx addr haddr
    · exact hslot addr rfl
  · cases h

/-- So do the functions of a segment. -/
theorem Typed.of_write {index : Nat} {funcs : List Nat} (hx : x.Typed s)
    (hfuncs : ∀ addr ∈ funcs, ∃ type, s.HasFunc addr type) : (x.write index funcs).Typed s := by
  intro addr haddr
  obtain haddr | haddr := mem_overlay haddr
  · exact hx addr haddr
  · obtain ⟨addr', hmem, heq⟩ := List.mem_map.mp haddr
    cases heq
    exact hfuncs addr hmem

end Table

namespace Store

variable {s t : Store}

/-- What has become of a store after some operations. -/
structure Kept (s t : Store) : Prop where
  ext : s.Extends t
  wellFormed : t.WellFormed

theorem Kept.refl (hs : s.WellFormed) : s.Kept s := ⟨.refl s, hs⟩

/-- Updates one after the other. -/
theorem Kept.trans {u : Store} (h : s.Kept t) (h' : t.Kept u) : s.Kept u :=
  ⟨h.ext.trans h'.ext, h'.wellFormed⟩

/-- Counting calls touches nothing that could be ill-formed. -/
theorem WellFormed.withDepth (hs : s.WellFormed) (depth : Nat) : s.Kept { s with depth } := by
  have hext : s.Extends { s with depth } := { Extends.refl s with }
  exact ⟨hext, hs.extend hext .inl .inl .inl .inl⟩

theorem WellFormed.withJournal (hs : s.WellFormed) (journal : Array HostCall) :
    s.Kept { s with journal } := by
  have hext : s.Extends { s with journal } := { Extends.refl s with }
  exact ⟨hext, hs.extend hext .inl .inl .inl .inl⟩

/-- Tables may be replaced by what changes of a table lead to, as long as they stay typed. -/
theorem WellFormed.withTables (hs : s.WellFormed) {tables : Array Table}
    (hchange : ∀ {a : Nat} {x : Table}, s.tables[a]? = some x →
      ∃ x', tables[a]? = some x' ∧ ReflTransGen Table.Change x x')
    (htyped : ∀ {a : Nat} {x : Table}, tables[a]? = some x → x.Typed s) :
    s.Kept { s with tables } := by
  have hext : s.Extends { s with tables } := { Extends.refl s with tables := hchange }
  exact ⟨hext, hs.extend hext .inl .inl (fun hx ↦ .inr ((htyped hx).mono hext)) .inl⟩

/-- Memories may be replaced by what changes of a memory lead to. -/
theorem WellFormed.withMemories (hs : s.WellFormed) {memories : Array Memory}
    (hchange : ∀ {a : Nat} {x : Memory}, s.memories[a]? = some x →
      ∃ x', memories[a]? = some x' ∧ ReflTransGen Memory.Change x x') :
    s.Kept { s with memories } := by
  have hext : s.Extends { s with memories } := { Extends.refl s with memories := hchange }
  exact ⟨hext, hs.extend hext .inl .inl .inl .inl⟩

/-- One table is changed in place. -/
theorem WellFormed.modifyTable (hs : s.WellFormed) (a : Nat) {f : Table → Table}
    (hf : ∀ x, Table.Change x (f x)) (htyped : ∀ x, x.Typed s → (f x).Typed s) :
    s.Kept { s with tables := s.tables.modify a f } := by
  refine hs.withTables (fun {b x} hx ↦ ?_) fun {b x} hx ↦ ?_
  · rw [Array.getElem?_modify, hx]
    split
    · exact ⟨f x, rfl, .single (hf x)⟩
    · exact ⟨x, rfl, .refl⟩
  · rw [Array.getElem?_modify] at hx
    split at hx
    · obtain ⟨y, hy, rfl⟩ := Option.map_eq_some_iff.mp hx
      exact htyped y (hs.tables hy)
    · exact hs.tables hx

/-- One memory is changed in place. Bytes have no type to respect. -/
theorem WellFormed.modifyMemory (hs : s.WellFormed) (a : Nat) {f : Memory → Memory}
    (hf : ∀ x, Memory.Change x (f x)) : s.Kept { s with memories := s.memories.modify a f } := by
  refine hs.withMemories fun {b x} hx ↦ ?_
  rw [Array.getElem?_modify, hx]
  split
  · exact ⟨f x, rfl, .single (hf x)⟩
  · exact ⟨x, rfl, .refl⟩

theorem WellFormed.setTable (hs : s.WellFormed) {a : Nat} {x x' : Table}
    (hx : s.tables[a]? = some x) (hchange : Table.Change x x') (htyped : x'.Typed s) :
    s.Kept (s.setTable a x') := by
  have hlt := (Array.getElem?_eq_some_iff.mp hx).1
  refine hs.withTables (fun {b y} hy ↦ ?_) fun {b y} hy ↦ ?_
  · rw [Array.getElem?_setIfInBounds]
    split
    · rename_i hab
      subst hab
      obtain rfl := Option.some.inj (hx.symm.trans hy)
      exact ⟨x', rfl, .single hchange⟩
    · exact ⟨y, hy, .refl⟩
  · rw [Array.getElem?_setIfInBounds] at hy
    split at hy
    · obtain rfl := Option.some.inj hy
      exact htyped
    · exact hs.tables hy

theorem WellFormed.setMemory (hs : s.WellFormed) {a : Nat} {x x' : Memory}
    (hx : s.memories[a]? = some x) (hchange : Memory.Change x x') : s.Kept (s.setMemory a x') := by
  have hlt := (Array.getElem?_eq_some_iff.mp hx).1
  refine hs.withMemories fun {b y} hy ↦ ?_
  rw [Array.getElem?_setIfInBounds]
  split
  · rename_i hab
    subst hab
    obtain rfl := Option.some.inj (hx.symm.trans hy)
    exact ⟨x', rfl, .single hchange⟩
  · exact ⟨y, hy, .refl⟩

/-- A global keeps its type when it is set. -/
theorem extends_setGlobal (s : Store) (a : Nat) (v : Value) :
    s.Extends { s with globals := s.globals.modify a fun g ↦ { g with value := v } } :=
  { Extends.refl s with
    globals := by
      intro b g hg
      rw [Array.getElem?_modify, hg]
      split
      · exact ⟨_, rfl, rfl⟩
      · exact ⟨_, rfl, rfl⟩ }

/-- A global takes a new value of its type. -/
theorem WellFormed.setGlobal (hs : s.WellFormed) {a : Nat} {g : Global} {v : Value}
    (hg : s.globals[a]? = some g) (hv : v.type = g.type.type) :
    s.Kept { s with globals := s.globals.modify a fun g ↦ { g with value := v } } := by
  have hext := s.extends_setGlobal a v
  refine ⟨hext, hs.extend hext .inl .inl .inl fun {b g'} hg' ↦ ?_⟩
  rw [Array.getElem?_modify] at hg'
  split at hg'
  · rename_i hab
    subst hab
    rw [hg] at hg'
    obtain rfl := Option.some.inj hg'
    exact .inr hv
  · exact .inl hg'

/-- A host function is new at its address, and the handle that is given out leads to it. -/
theorem WellFormed.newFunc (hs : s.WellFormed) {type : Option FuncType} {f : HostFunc}
    (hf : f.Lawful) :
    s.Kept (s.newFunc type f).2 ∧ (s.newFunc type f).2.Holds (s.newFunc type f).1 := by
  have hgrows : s.Grows (s.newFunc type f).2 := { Grows.refl s with funcs := prefix_push _ _ }
  refine ⟨⟨hgrows.extends, hs.extend hgrows.extends .inl (fun {a c} hc ↦ ?_) .inl .inl⟩, rfl, ?_⟩
  · simp only [Store.newFunc, Array.getElem?_push] at hc
    split at hc
    · obtain rfl := Option.some.inj hc
      exact .inr hf
    · exact .inl hc
  · simp [Store.newFunc, size, ref]

/-! ## Queries -/

/-- The store of an operation that changes nothing when it fails. -/
theorem orUnchanged_cases {α ε : Type} (s : Store) (x : Except ε (α × Store)) :
    (∃ a s', x = .ok (a, s') ∧ s.orUnchanged x = (.ok a, s')) ∨
      ∃ e, s.orUnchanged x = (.error e, s) := by
  cases x with
  | ok p => exact .inl ⟨p.1, p.2, rfl, rfl⟩
  | error e => exact .inr ⟨e, rfl⟩

/-- An operation that may fail keeps the store well formed if it does when it succeeds. -/
theorem WellFormed.orUnchanged {α ε : Type} (hs : s.WellFormed) {x : Except ε (α × Store)}
    (h : ∀ a t, x = .ok (a, t) → s.Kept t) : s.Kept (s.orUnchanged x).2 := by
  obtain ⟨a, t, hx, heq⟩ | ⟨e, heq⟩ := s.orUnchanged_cases x
  · rw [heq]
    exact h a t hx
  · rw [heq]
    exact .refl hs

/-- A handle that is resolved leads to a memory of the store. -/
theorem memory_eq_ok {r : Ref .memory} {a : Nat} {x : Memory} (h : s.memory r = .ok (a, x)) :
    s.memories[a]? = some x := by
  unfold Store.memory at h
  split at h
  · cases h
  · split at h
    · cases h
    · rename_i hx
      cases h
      exact hx

/-- A handle that is resolved leads to a table of the store. -/
theorem table_eq_ok {r : Ref .table} {a : Nat} {x : Table} (h : s.table r = .ok (a, x)) :
    s.tables[a]? = some x := by
  unfold Store.table at h
  split at h
  · cases h
  · split at h
    · cases h
    · rename_i hx
      cases h
      exact hx

/-- Only functions with a type can be put into tables. -/
theorem elementAddress_eq_ok {r : Ref .func} {addr : Nat} (h : s.elementAddress r = .ok addr) :
    ∃ type, s.HasFunc addr type := by
  unfold elementAddress at h
  split at h
  · cases h
  · split at h
    · cases h
    · rename_i c hc
      split at h
      · rename_i htype
        cases h
        obtain ⟨type, htype⟩ := Option.isSome_iff_exists.mp htype
        exact ⟨type, c, hc, htype⟩
      · cases h

/-- A new memory is put behind all others, so that no address changes its meaning. -/
theorem WellFormed.newMemory (hs : s.WellFormed) {initial : Nat} {maximum : Option Nat}
    {r : Ref .memory} (h : s.newMemory initial maximum = .ok (r, t)) : s.Kept t ∧ t.Holds r := by
  simp only [Store.newMemory, except_bind_eq_ok] at h
  obtain ⟨limits, -, x, -, h⟩ := h
  cases h
  have hgrows : s.Grows { s with memories := s.memories.push x } :=
    { Grows.refl s with memories := prefix_push _ _ }
  exact ⟨⟨hgrows.extends, hs.extend hgrows.extends .inl .inl .inl .inl⟩, rfl, by simp [size, ref]⟩

/-- A new table is put behind all others and has nothing in it. -/
theorem WellFormed.newTable (hs : s.WellFormed) {initial : Nat} {maximum : Option Nat}
    {r : Ref .table} (h : s.newTable initial maximum = .ok (r, t)) : s.Kept t ∧ t.Holds r := by
  simp only [Store.newTable, except_bind_eq_ok] at h
  obtain ⟨limits, -, x, hx, h⟩ := h
  cases h
  have hgrows : s.Grows { s with tables := s.tables.push x } :=
    { Grows.refl s with tables := prefix_push _ _ }
  refine ⟨⟨hgrows.extends, hs.extend hgrows.extends .inl .inl (fun {a y} hy ↦ ?_) .inl⟩, rfl,
    by simp [size, ref]⟩
  rw [Array.getElem?_push] at hy
  split at hy
  · obtain rfl := Option.some.inj hy
    exact .inr fun addr haddr ↦ absurd (Table.slots_of_new hx _ haddr) (by simp)
  · exact .inl hy

theorem WellFormed.memoryWrite (hs : s.WellFormed) {r : Ref .memory} {addr : Nat}
    {bytes : List UInt8} {b : Bool} (h : s.memoryWrite r addr bytes = .ok (b, t)) : s.Kept t := by
  simp only [Store.memoryWrite, except_bind_eq_ok, Prod.exists] at h
  obtain ⟨a, x, hx, h⟩ := h
  split at h
  · cases h
    exact hs.setMemory (memory_eq_ok hx) (.write x addr bytes)
  · cases h
    exact .refl hs

theorem WellFormed.memoryGrow (hs : s.WellFormed) {r : Ref .memory} {delta previous : Nat}
    (h : s.memoryGrow r delta = .ok (previous, t)) : s.Kept t := by
  simp only [Store.memoryGrow, except_bind_eq_ok, Prod.exists] at h
  obtain ⟨a, x, hx, previous', x', hgrow, h⟩ := h
  cases h
  exact hs.setMemory (memory_eq_ok hx) (.grow hgrow)

theorem WellFormed.tableGrow (hs : s.WellFormed) {r : Ref .table} {delta previous : Nat}
    (h : s.tableGrow r delta = .ok (previous, t)) : s.Kept t := by
  simp only [Store.tableGrow, except_bind_eq_ok, Prod.exists] at h
  obtain ⟨a, x, hx, previous', x', hgrow, h⟩ := h
  cases h
  have hx := table_eq_ok hx
  exact hs.setTable hx (.grow hgrow) ((hs.tables hx).of_grow hgrow)

/-- An embedder can only put functions of this store into its tables. -/
theorem WellFormed.tableSet (hs : s.WellFormed) {r : Ref .table} {index : Nat}
    {f : Option (Ref .func)} (h : s.tableSet r index f = .ok t) : s.Kept t := by
  simp only [Store.tableSet] at h
  split at h
  · cases h
  · simp only [except_bind_eq_ok, Prod.exists] at h
    obtain ⟨slot, hslot, a, x, hx, x', hset, h⟩ := h
    cases h
    have hx := table_eq_ok hx
    refine hs.setTable hx (.set hset) ((hs.tables hx).of_set hset fun addr haddr ↦ ?_)
    subst haddr
    cases f with
    | none => cases hslot
    | some r =>
      simp only [Option.mapM_some, Functor.map, Except.map] at hslot
      split at hslot
      · cases hslot
      · rename_i haddr
        cases hslot
        exact elementAddress_eq_ok haddr

/-- What a table holds is a function of its store, and so is its handle. -/
theorem WellFormed.tableGet (hs : s.WellFormed) {r : Ref .table} {index : Nat} {f : Ref .func}
    (h : s.tableGet r index = .ok (some f)) : s.Holds f := by
  simp only [Store.tableGet, except_bind_eq_ok, Prod.exists] at h
  obtain ⟨a, x, hx, h⟩ := h
  split at h
  · rename_i slot hslot
    cases hslot' : slot with
    | none =>
      rw [hslot'] at h
      cases h
    | some addr =>
      rw [hslot'] at h hslot
      cases h
      obtain ⟨type, c, hc, -⟩ := hs.tables (table_eq_ok hx) addr (Array.mem_of_getElem? hslot)
      exact ⟨rfl, (Array.getElem?_eq_some_iff.mp hc).1⟩
  · cases h

/-- What an instance exports belongs to its store. -/
theorem WellFormed.findInstance (hs : s.WellFormed) {r : Ref .inst} {i : Instance}
    (h : s.findInstance r = some i) {e : String × Extern} (he : e ∈ i.exports) {x : Handle}
    (hx : e.2.handle? = some x) : s.Holds x.2 := by
  obtain ⟨a, -, hi⟩ := Option.bind_eq_some_iff.mp h
  have hheld := (hs.instances hi).exports e he
  obtain ⟨name, item⟩ := e
  cases item <;> cases hx <;> exact hheld

/-- A query keeps the store well formed and hands out references to what is in it. -/
theorem WellFormed.answer (hs : s.WellFormed) (q : Query) :
    s.Kept (s.answer q).2 ∧ ∀ x ∈ q.handles (s.answer q).1, (s.answer q).2.Holds x.2 := by
  cases q with
  | exports r =>
    refine ⟨.refl hs, fun x hx ↦ ?_⟩
    obtain ⟨e, he, hx⟩ := List.mem_filterMap.mp hx
    simp only [Store.answer, Store.exports] at he
    split at he
    · rename_i i hi
      exact hs.findInstance hi he hx
    · cases he
  | exportOf r name =>
    refine ⟨.refl hs, fun x hx ↦ ?_⟩
    obtain ⟨item, hitem, hx⟩ := Option.bind_eq_some_iff.mp (Option.mem_toList.mp hx)
    obtain ⟨i, hi, hlookup⟩ := Option.bind_eq_some_iff.mp hitem
    exact hs.findInstance hi (mem_of_lookup hlookup) hx
  | newMemory initial maximum =>
    obtain ⟨r, t, h, heq⟩ | ⟨e, heq⟩ := s.orUnchanged_cases (s.newMemory initial maximum)
    · simpa [Store.answer, heq, Query.handles] using hs.newMemory h
    · simpa [Store.answer, heq, Query.handles] using Kept.refl hs
  | newTable initial maximum =>
    obtain ⟨r, t, h, heq⟩ | ⟨e, heq⟩ := s.orUnchanged_cases (s.newTable initial maximum)
    · simpa [Store.answer, heq, Query.handles] using hs.newTable h
    · simpa [Store.answer, heq, Query.handles] using Kept.refl hs
  | memoryWrite r addr bytes =>
    exact ⟨hs.orUnchanged fun _ _ ↦ hs.memoryWrite, by simp [Query.handles]⟩
  | memoryGrow r delta => exact ⟨hs.orUnchanged fun _ _ ↦ hs.memoryGrow, by simp [Query.handles]⟩
  | tableGrow r delta => exact ⟨hs.orUnchanged fun _ _ ↦ hs.tableGrow, by simp [Query.handles]⟩
  | tableSet r index f =>
    refine ⟨hs.orUnchanged fun _ t h ↦ ?_, by simp [Query.handles]⟩
    obtain ⟨t', hset, hpure⟩ := except_bind_eq_ok.mp h
    cases hpure
    exact hs.tableSet hset
  | tableGet r index =>
    refine ⟨.refl hs, fun x hx ↦ ?_⟩
    cases h : s.tableGet r index with
    | error e => simp [Store.answer, Query.handles, h] at hx
    | ok slot =>
      cases slot with
      | none => simp [Store.answer, Query.handles, h] at hx
      | some f =>
        simp only [Store.answer, Query.handles, h, List.mem_singleton] at hx
        subst hx
        exact hs.tableGet h
  | _ => exact ⟨.refl hs, by simp [Query.handles]⟩

end Store

end WasmEngine
