import Mathlib.Logic.Relation
import WasmEngine.Store
import WasmEngine.Proofs.Decoding

/-!
# Well-formed stores

What a store holds is well formed when every instance is linked as its module declares, every
compiled function belongs to an instance of the module that it was compiled in, tables hold only
functions with a type, and globals hold values of their type.

A store changes along three lines. Items are added at the end of an arena, memories and tables are
written to and grow in place, and globals take new values of their type. `Extends` says that nothing
else has happened, so that an address never comes to mean another item. `Grows` says that items
were added and nothing else has changed, which is what a rollback undoes.
-/

namespace WasmEngine

/-- The module is what some binary decodes to. -/
def Module.Decoded (m : Module) : Prop := ∃ config bytes, Module.decode config bytes = .ok m

theorem Module.Decoded.valid {m : Module} (h : m.Decoded) : m.Valid := by
  obtain ⟨config, bytes, hdecode⟩ := h
  exact (Module.decode_eq_ok hdecode).1

/-- A program that makes instances of decoded modules only. -/
inductive HostProgram.Lawful : HostProgram → Prop
  | done (result : Except Trap (Option Number)) : Lawful (.done result)
  | query {q : Query} {next : q.Reply → HostProgram} (hnext : ∀ reply, Lawful (next reply)) :
      Lawful (.query q next)
  | call {f : Ref .func} {args : List Number} {next : Except Trap (Option Number) → HostProgram}
      (hnext : ∀ r, Lawful (next r)) : Lawful (.call f args next)
  | callValues {f : Ref .func} {args : List Value}
      {next : Except Trap (Option Value) → HostProgram} (hnext : ∀ r, Lawful (next r)) :
      Lawful (.callValues f args next)
  | instantiate {m : Module} {imports : Imports}
      {next : Except InstantiationError (Ref .inst) → HostProgram} (hm : m.Decoded)
      (hnext : ∀ r, Lawful (next r)) : Lawful (.instantiate m imports next)
  | newFunc {type : Option FuncType} {tag : Nat}
      {body : Option (Ref .inst) → List Number → HostProgram} {next : Ref .func → HostProgram}
      (hbody : ∀ caller args, Lawful (body caller args)) (hnext : ∀ f, Lawful (next f)) :
      Lawful (.newFunc type tag body next)

def HostFunc.Lawful (f : HostFunc) : Prop := ∀ caller args, (f.body caller args).Lawful

inductive Memory.Change : Memory → Memory → Prop
  | write (m : Memory) (addr : Nat) (bytes : List UInt8) : Change m (m.write addr bytes)
  | grow {m m' : Memory} {delta previous : Nat} (h : m.grow delta = .ok (previous, m')) :
      Change m m'

inductive Table.Change : Table → Table → Prop
  | set {t t' : Table} {index : Nat} {slot : Option Nat} (h : t.set index slot = .ok t') :
      Change t t'
  | write (t : Table) (index : Nat) (funcs : List Nat) : Change t (t.write index funcs)
  | grow {t t' : Table} {delta previous : Nat} (h : t.grow delta = .ok (previous, t')) :
      Change t t'

namespace Store

open Relation

/-- Everything in the first store is in the second, at the same address. -/
structure Extends (s t : Store) : Prop where
  id : t.id = s.id
  config : t.config = s.config
  funcs : ∀ {a : Nat} {c : Callable}, s.funcs[a]? = some c → t.funcs[a]? = some c
  tables : ∀ {a : Nat} {x : Table}, s.tables[a]? = some x →
    ∃ x', t.tables[a]? = some x' ∧ ReflTransGen Table.Change x x'
  memories : ∀ {a : Nat} {x : Memory}, s.memories[a]? = some x →
    ∃ x', t.memories[a]? = some x' ∧ ReflTransGen Memory.Change x x'
  globals : ∀ {a : Nat} {g : Global}, s.globals[a]? = some g →
    ∃ g', t.globals[a]? = some g' ∧ g'.type = g.type
  instances : ∀ {a : Nat} {i : Instance}, s.instances[a]? = some i → t.instances[a]? = some i

/-- The second store is the first with items added at the ends of its arenas. -/
structure Grows (s t : Store) : Prop where
  id : t.id = s.id
  config : t.config = s.config
  depth : t.depth = s.depth
  journal : t.journal = s.journal
  funcs : s.funcs.toList <+: t.funcs.toList
  tables : s.tables.toList <+: t.tables.toList
  memories : s.memories.toList <+: t.memories.toList
  globals : s.globals.toList <+: t.globals.toList
  instances : s.instances.toList <+: t.instances.toList

def HasFunc (s : Store) (addr : Nat) (type : FuncType) : Prop :=
  ∃ c, s.funcs[addr]? = some c ∧ c.type? = some type

def HasGlobal (s : Store) (addr : Nat) (type : GlobalType) : Prop :=
  ∃ g, s.globals[addr]? = some g ∧ g.type = type

def size (s : Store) : Arena → Nat
  | .func => s.funcs.size
  | .table => s.tables.size
  | .memory => s.memories.size
  | .inst => s.instances.size

/-- The reference stands for an item of the store. -/
def Holds {arena : Arena} (s : Store) (r : Ref arena) : Prop :=
  r.store = s.id ∧ r.address < s.size arena

end Store

/-- What the item stands for is in the store. -/
def Extern.HeldBy (s : Store) : Extern → Prop
  | .func f => s.Holds f
  | .table t => s.Holds t
  | .memory m => s.Holds m
  | .global _ => True

/-- Addresses of items that are as declared, one for each declaration. Functions are declared by
indices of types of the module. -/
structure IndexSpaces.Binds (s : Store) (m : Module) (funcs : List Nat)
    (tables memories : List Limits) (globals : List GlobalType) (sp : IndexSpaces) : Prop where
  funcs : List.Forall₂ (fun t addr ↦ ∃ type, m.types[t]? = some type ∧ s.HasFunc addr type)
    funcs sp.funcs.toList
  tables : List.Forall₂ (fun _ addr ↦ addr < s.tables.size) tables sp.tables.toList
  memories : List.Forall₂ (fun _ addr ↦ addr < s.memories.size) memories sp.memories.toList
  globals : List.Forall₂ (fun type addr ↦ s.HasGlobal addr type) globals sp.globals.toList

/-- An instance at an address whose index spaces are those of its module. -/
structure Instance.Linked (s : Store) (addr : Nat) (i : Instance) : Prop where
  decoded : i.module.Decoded
  spaces : i.toIndexSpaces.Binds s i.module i.module.funcSpace i.module.tableSpace
    i.module.memorySpace i.module.globalSpace
  /-- The functions that the module defines run its code in this instance. -/
  defined : ∀ (k : Nat) (code : Code), i.module.code[k]? = some code →
    ∃ a, i.funcs[i.module.importedFuncs.length + k]? = some a ∧
      s.funcs[a]? = some (.code addr code)
  exports : ∀ e ∈ i.exports, e.2.HeldBy s

/-- Code belongs to an instance of its module, and a function of the host keeps to the rules. -/
def Callable.Known (s : Store) : Callable → Prop
  | .code inst c => ∃ i, s.instances[inst]? = some i ∧ c ∈ i.module.code
  | .host _ f => f.Lawful

/-- Every slot that is not empty holds the address of a function with a type. -/
def Table.Typed (s : Store) (x : Table) : Prop :=
  ∀ addr, some addr ∈ x.slots → ∃ type, s.HasFunc addr type

structure Store.WellFormed (s : Store) : Prop where
  instances : ∀ {a : Nat} {i : Instance}, s.instances[a]? = some i → i.Linked s a
  funcs : ∀ {a : Nat} {c : Callable}, s.funcs[a]? = some c → c.Known s
  tables : ∀ {a : Nat} {x : Table}, s.tables[a]? = some x → x.Typed s
  globals : ∀ {a : Nat} {g : Global}, s.globals[a]? = some g → g.value.type = g.type.type

/-- All functions but host functions without a type have one. -/
theorem Callable.exists_type {c : Callable} (h : ∀ f, c = .host none f → False) :
    ∃ type, c.type? = some type := by
  cases c with
  | code inst code => exact ⟨code.type, rfl⟩
  | host type f =>
    cases type with
    | none => exact (h f rfl).elim
    | some type => exact ⟨type, rfl⟩

/-- The function at an index of a linked instance has the type that the module declares. -/
theorem Instance.Linked.hasFunc {s : Store} {addr : Nat} {i : Instance} (h : i.Linked s addr)
    {index : Nat} {type : FuncType} (htype : i.module.funcType? index = some type) :
    ∃ a, i.funcs[index]? = some a ∧ s.HasFunc a type := by
  rw [h.decoded.valid.counted.funcType?_eq] at htype
  obtain ⟨t, ht, htype⟩ := Option.bind_eq_some_iff.mp htype
  obtain ⟨a, ha, type', htype', hfunc⟩ := forall₂_getElem?_left h.spaces.funcs ht
  obtain rfl := Option.some.inj (htype.symm.trans htype')
  rw [Array.getElem?_toList] at ha
  exact ⟨a, ha, hfunc⟩

/-! ## More items -/

namespace Store

variable {s t u : Store}

theorem Extends.refl (s : Store) : s.Extends s where
  id := rfl
  config := rfl
  funcs h := h
  tables h := ⟨_, h, .refl⟩
  memories h := ⟨_, h, .refl⟩
  globals h := ⟨_, h, rfl⟩
  instances h := h

theorem Extends.trans (h : s.Extends t) (h' : t.Extends u) : s.Extends u where
  id := h'.id.trans h.id
  config := h'.config.trans h.config
  funcs hc := h'.funcs (h.funcs hc)
  tables hx := by
    obtain ⟨y, hy, hxy⟩ := h.tables hx
    obtain ⟨z, hz, hyz⟩ := h'.tables hy
    exact ⟨z, hz, hxy.trans hyz⟩
  memories hx := by
    obtain ⟨y, hy, hxy⟩ := h.memories hx
    obtain ⟨z, hz, hyz⟩ := h'.memories hy
    exact ⟨z, hz, hxy.trans hyz⟩
  globals hg := by
    obtain ⟨g', hg', htype⟩ := h.globals hg
    obtain ⟨g'', hg'', htype'⟩ := h'.globals hg'
    exact ⟨g'', hg'', htype'.trans htype⟩
  instances hi := h'.instances (h.instances hi)

theorem Grows.refl (s : Store) : s.Grows s :=
  ⟨rfl, rfl, rfl, rfl, List.prefix_rfl, List.prefix_rfl, List.prefix_rfl, List.prefix_rfl,
    List.prefix_rfl⟩

theorem Grows.trans (h : s.Grows t) (h' : t.Grows u) : s.Grows u where
  id := h'.id.trans h.id
  config := h'.config.trans h.config
  depth := h'.depth.trans h.depth
  journal := h'.journal.trans h.journal
  funcs := h.funcs.trans h'.funcs
  tables := h.tables.trans h'.tables
  memories := h.memories.trans h'.memories
  globals := h.globals.trans h'.globals
  instances := h.instances.trans h'.instances

theorem Grows.extends (h : s.Grows t) : s.Extends t where
  id := h.id
  config := h.config
  funcs := getElem?_of_prefix h.funcs
  tables hx := ⟨_, getElem?_of_prefix h.tables hx, .refl⟩
  memories hx := ⟨_, getElem?_of_prefix h.memories hx, .refl⟩
  globals hg := ⟨_, getElem?_of_prefix h.globals hg, rfl⟩
  instances := getElem?_of_prefix h.instances

/-- Going back to the mark of a store undoes all growth. -/
theorem Grows.rollback_eq (h : s.Grows t) : t.rollback s.mark = s := by
  have hfuncs := take_size_of_prefix h.funcs
  have htables := take_size_of_prefix h.tables
  have hmemories := take_size_of_prefix h.memories
  have hglobals := take_size_of_prefix h.globals
  have hinstances := take_size_of_prefix h.instances
  simp only [rollback, mark, hfuncs, htables, hmemories, hglobals, hinstances, h.id, h.config,
    h.depth, h.journal]

theorem Extends.size_le (h : s.Extends t) (arena : Arena) : s.size arena ≤ t.size arena := by
  cases arena with
  | func => exact size_le_of_forall fun _ _ hx ↦ ⟨_, h.funcs hx⟩
  | table => exact size_le_of_forall fun _ _ hx ↦ ⟨_, (h.tables hx).choose_spec.1⟩
  | memory => exact size_le_of_forall fun _ _ hx ↦ ⟨_, (h.memories hx).choose_spec.1⟩
  | inst => exact size_le_of_forall fun _ _ hx ↦ ⟨_, h.instances hx⟩

theorem HasFunc.mono (h : s.Extends t) {addr : Nat} {type : FuncType} (hf : s.HasFunc addr type) :
    t.HasFunc addr type := by
  obtain ⟨c, hc, htype⟩ := hf
  exact ⟨c, h.funcs hc, htype⟩

theorem HasGlobal.mono (h : s.Extends t) {addr : Nat} {type : GlobalType}
    (hg : s.HasGlobal addr type) : t.HasGlobal addr type := by
  obtain ⟨g, hg, rfl⟩ := hg
  exact h.globals hg

theorem Holds.mono (h : s.Extends t) {arena : Arena} {r : Ref arena} (hr : s.Holds r) :
    t.Holds r :=
  ⟨hr.1.trans h.id.symm, Nat.lt_of_lt_of_le hr.2 (h.size_le arena)⟩

end Store

section Mono

variable {s t : Store} (h : s.Extends t)

include h

theorem Extern.HeldBy.mono {e : Extern} (he : e.HeldBy s) : e.HeldBy t := by
  cases e with
  | func f => exact Store.Holds.mono h he
  | table x => exact Store.Holds.mono h he
  | memory x => exact Store.Holds.mono h he
  | global x => trivial

theorem IndexSpaces.Binds.mono {m : Module} {funcs : List Nat} {tables memories : List Limits}
    {globals : List GlobalType} {sp : IndexSpaces}
    (hsp : sp.Binds s m funcs tables memories globals) :
    sp.Binds t m funcs tables memories globals where
  funcs := hsp.funcs.imp fun _ _ ⟨type, htype, hf⟩ ↦ ⟨type, htype, hf.mono h⟩
  tables := hsp.tables.imp fun _ _ ha ↦ Nat.lt_of_lt_of_le ha (h.size_le .table)
  memories := hsp.memories.imp fun _ _ ha ↦ Nat.lt_of_lt_of_le ha (h.size_le .memory)
  globals := hsp.globals.imp fun _ _ hg ↦ hg.mono h

theorem Instance.Linked.mono {addr : Nat} {i : Instance} (hi : i.Linked s addr) :
    i.Linked t addr where
  decoded := hi.decoded
  spaces := hi.spaces.mono h
  defined k code hcode := by
    obtain ⟨a, ha, hfunc⟩ := hi.defined k code hcode
    exact ⟨a, ha, h.funcs hfunc⟩
  exports e he := (hi.exports e he).mono h

theorem Callable.Known.mono {c : Callable} (hc : c.Known s) : c.Known t := by
  cases c with
  | code inst c =>
    obtain ⟨i, hi, hcode⟩ := hc
    exact ⟨i, h.instances hi, hcode⟩
  | host type f => exact hc

theorem Table.Typed.mono {x : Table} (hx : x.Typed s) : x.Typed t := by
  intro addr haddr
  obtain ⟨type, hf⟩ := hx addr haddr
  exact ⟨type, hf.mono h⟩

/-- To keep a store well formed, only what is new or changed has to be looked at. -/
theorem Store.WellFormed.extend (hs : s.WellFormed)
    (hinstances : ∀ {a : Nat} {i : Instance}, t.instances[a]? = some i →
      s.instances[a]? = some i ∨ i.Linked t a)
    (hfuncs : ∀ {a : Nat} {c : Callable}, t.funcs[a]? = some c →
      s.funcs[a]? = some c ∨ c.Known t)
    (htables : ∀ {a : Nat} {x : Table}, t.tables[a]? = some x →
      s.tables[a]? = some x ∨ x.Typed t)
    (hglobals : ∀ {a : Nat} {g : Global}, t.globals[a]? = some g →
      s.globals[a]? = some g ∨ g.value.type = g.type.type) : t.WellFormed where
  instances hi := (hinstances hi).elim (fun hi ↦ (hs.instances hi).mono h) fun hi ↦ hi
  funcs hc := (hfuncs hc).elim (fun hc ↦ (hs.funcs hc).mono h) fun hc ↦ hc
  tables hx := (htables hx).elim (fun hx ↦ (hs.tables hx).mono h) fun hx ↦ hx
  globals hg := (hglobals hg).elim hs.globals fun hg ↦ hg

end Mono

end WasmEngine
