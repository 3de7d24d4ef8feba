import WasmEngine.Link
import WasmEngine.Proofs.Updates

/-!
# Linking keeps stores well formed

Linking only adds items to the store. What it adds is good by itself, and the index spaces that it
builds bind every declaration that it has gone through to an item which is as declared. So the
instance is linked as its module declares once all is done, and everything can be dropped again if
it is not. Nothing that a decoded module asks for is ever missing on the way.
-/

namespace WasmEngine

/-- If the item refers to this store, it stands for something in it. -/
def Extern.KnownTo (s : Store) : Extern → Prop
  | .func r => r.store = s.id → s.Holds r
  | .table r => r.store = s.id → s.Holds r
  | .memory r => r.store = s.id → s.Holds r
  | .global _ => True

/-- No item of the imports refers to something that the store never had. -/
def Imports.KnownTo (s : Store) (imports : Imports) : Prop :=
  ∀ p ∈ imports.items, p.2.KnownTo s

/-- What an initializer over the globals at some addresses comes to. -/
def ConstExpr.Denotes (t : Store) (globals : Array Nat) : ConstExpr → Value → Prop
  | .value v, v' => v = v'
  | .globalGet index, v =>
    ∃ addr g, globals[index]? = some addr ∧ t.globals[addr]? = some g ∧ g.value = v

/-! ## Signatures -/

/-- Types are told apart by their letters. -/
theorem ValueType.letter_injective {t u : ValueType} (h : t.letter = u.letter) : t = u := by
  revert h
  cases t <;> cases u <;> decide

theorem ValueType.letter_ne_hyphen (t : ValueType) : t.letter ≠ '-' := by
  cases t <;> decide

/-- A signature says which type it is of. -/
theorem FuncType.signature_injective {t u : FuncType} (h : t.signature = u.signature) : t = u := by
  obtain ⟨ps, rs⟩ := t
  obtain ⟨qs, us⟩ := u
  have hmap : ∀ {ts us : List ValueType}, ts.map ValueType.letter = us.map ValueType.letter →
      ts = us := fun h ↦ List.map_injective_iff.mpr (fun _ _ ↦ ValueType.letter_injective) h
  have hlist : ps.map ValueType.letter ++ '-' :: rs.map ValueType.letter =
      qs.map ValueType.letter ++ '-' :: us.map ValueType.letter := String.ofList_injective h
  induction ps generalizing qs with
  | nil =>
    cases qs with
    | nil =>
      simp only [List.map_nil, List.nil_append, List.cons.injEq, true_and] at hlist
      rw [hmap hlist]
    | cons q qs =>
      simp only [List.map_nil, List.nil_append, List.map_cons, List.cons_append,
        List.cons.injEq] at hlist
      exact absurd hlist.1.symm q.letter_ne_hyphen
  | cons p ps ih =>
    cases qs with
    | nil =>
      simp only [List.map_nil, List.nil_append, List.map_cons, List.cons_append,
        List.cons.injEq] at hlist
      exact absurd hlist.1 p.letter_ne_hyphen
    | cons q qs =>
      simp only [List.map_cons, List.cons_append, List.cons.injEq] at hlist
      obtain ⟨hpq, hrest⟩ := hlist
      obtain ⟨rfl, rfl⟩ := FuncType.mk.inj (ih qs (congrArg String.ofList hrest) hrest)
      rw [ValueType.letter_injective hpq]

/-- A number that is converted has the type that was asked for. -/
theorem Number.type_of_toValue {x : Number} {t : ValueType} {v : Value} (h : x.toValue t = .ok v) :
    v.type = t := by
  cases t <;> simp only [toValue, Except.ok.injEq, reduceCtorEq] at h <;> subst h <;> rfl

/-! ## What linking adds -/

namespace Link

/-- A store on the way from `s` to one with an instance of `m`: what is new in it is good by itself.
The instances are `insts`, and code that is new belongs to the instance after those of `s`. -/
structure Underway (s : Store) (m : Module) (insts : Array Instance) (t : Store) : Prop where
  grows : s.Grows t
  instances : t.instances = insts
  funcs : ∀ {a : Nat} {c : Callable}, t.funcs[a]? = some c → s.funcs[a]? = some c ∨
    (∃ type f, c = .host type f ∧ f.Lawful) ∨ ∃ code ∈ m.code, c = .code s.instances.size code
  tables : ∀ {a : Nat} {x : Table}, t.tables[a]? = some x →
    s.tables[a]? = some x ∨ ∀ slot ∈ x.slots, slot = none
  globals : ∀ {a : Nat} {g : Global}, t.globals[a]? = some g → g.value.type = g.type.type

/-- How linking fails: with a store that has only grown and, if the imports are known to the store,
for a reason that the embedder can mend. -/
def Refused (s : Store) (imports : Imports) (e : InstantiationError) (t : Store) : Prop :=
  s.Grows t ∧ (imports.KnownTo s → ∃ l, e = .link l)

variable {s t : Store} {m : Module} {imports : Imports} {insts : Array Instance}

/-- A refusal leaves a store that has only grown, which can be undone. -/
theorem refuse_ensures {α : Type} {e : LinkError} {Q : α → Store → Prop} (h : s.Grows t) :
    Ensures (refuse e) t Q (Refused s imports) := .throw ⟨h, fun _ ↦ ⟨e, rfl⟩⟩

/-- A function is added at the end, where it is found from then on. -/
theorem addFunc_ensures {c : Callable} {E : InstantiationError → Store → Prop}
    (h : Underway s m insts t) (hc : (∃ type f, c = .host type f ∧ f.Lawful) ∨
      ∃ code ∈ m.code, c = .code s.instances.size code) :
    Ensures (addFunc c) t (fun addr t' ↦ Underway s m insts t' ∧ t.Extends t' ∧
      t'.funcs[addr]? = some c) E := by
  have hgrows : t.Grows { t with funcs := t.funcs.push c } :=
    { Store.Grows.refl t with funcs := prefix_push _ _ }
  refine .modifyGet ⟨?_, hgrows.extends, Array.getElem?_push_size⟩
  refine { h with grows := h.grows.trans hgrows, funcs := ?_ }
  intro a c' hc'
  rw [Array.getElem?_push] at hc'
  split at hc'
  · obtain rfl := Option.some.inj hc'
    exact .inr hc
  · exact h.funcs hc'

/-- A new table without functions keeps the store well formed. -/
theorem addTable_ensures {x : Table} {E : InstantiationError → Store → Prop}
    (h : Underway s m insts t) (hx : ∀ slot ∈ x.slots, slot = none) :
    Ensures (addTable x) t (fun addr t' ↦ Underway s m insts t' ∧ t.Extends t' ∧
      addr < t'.tables.size) E := by
  have hgrows : t.Grows { t with tables := t.tables.push x } :=
    { Store.Grows.refl t with tables := prefix_push _ _ }
  refine .modifyGet ⟨?_, hgrows.extends, by simp⟩
  refine { h with grows := h.grows.trans hgrows, tables := ?_ }
  intro a x' hx'
  rw [Array.getElem?_push] at hx'
  split at hx'
  · obtain rfl := Option.some.inj hx'
    exact .inr hx
  · exact h.tables hx'

theorem addMemory_ensures {x : Memory} {E : InstantiationError → Store → Prop}
    (h : Underway s m insts t) :
    Ensures (addMemory x) t (fun addr t' ↦ Underway s m insts t' ∧ t.Extends t' ∧
      addr < t'.memories.size) E := by
  have hgrows : t.Grows { t with memories := t.memories.push x } :=
    { Store.Grows.refl t with memories := prefix_push _ _ }
  exact .modifyGet ⟨{ h with grows := h.grows.trans hgrows }, hgrows.extends, by simp⟩

/-- A new global keeps the store well formed if its value has its type. -/
theorem addGlobal_ensures {g : Global} {E : InstantiationError → Store → Prop}
    (h : Underway s m insts t) (hg : g.value.type = g.type.type) :
    Ensures (addGlobal g) t (fun addr t' ↦ Underway s m insts t' ∧ t.Extends t' ∧
      t'.HasGlobal addr g.type) E := by
  have hgrows : t.Grows { t with globals := t.globals.push g } :=
    { Store.Grows.refl t with globals := prefix_push _ _ }
  refine .modifyGet ⟨?_, hgrows.extends, g, Array.getElem?_push_size, rfl⟩
  refine { h with grows := h.grows.trans hgrows, globals := ?_ }
  intro a g' hg'
  rw [Array.getElem?_push] at hg'
  split at hg'
  · obtain rfl := Option.some.inj hg'
    exact hg
  · exact h.globals hg'

/-! ## Imports -/

/-- What is found for an import is of the right kind, and one of the items supplied. -/
theorem importedItem_ensures {imp : Import} (h : s.Grows t) :
    Ensures (importedItem imports imp) t (fun item t' ↦ t' = t ∧
      item.kind = imp.desc.kind ∧ ∃ key, (key, item) ∈ imports.items) (Refused s imports) := by
  have hrefused (e : LinkError) : Refused s imports (.link e) t := ⟨h, fun _ ↦ ⟨e, rfl⟩⟩
  refine .ite (fun _ ↦ .throw_bind (hrefused _)) fun _ ↦ ?_
  split
  · exact refuse_ensures h
  · rename_i item hitem
    refine .ite (fun _ ↦ .throw_bind (hrefused _)) fun hkind ↦ .pure ⟨rfl, ?_, ?_⟩
    · exact not_not.mp hkind
    · exact ⟨_, mem_of_lookup hitem⟩

/-- The function that an import is bound to has the type that the import declares. -/
theorem linkFunc_ensures {imp : Import} {expected : FuncType} {addr : Nat} (hs : s.WellFormed)
    (h : Underway s m insts t) (haddr : imports.KnownTo s → addr < s.funcs.size) :
    Ensures (linkFunc imp expected addr) t (fun addr' t' ↦ Underway s m insts t' ∧ t.Extends t' ∧
      t'.HasFunc addr' expected) (Refused s imports) := by
  refine .get_bind ?_
  split
  · rename_i hnone
    refine .throw ⟨h.grows, fun hknown ↦ ?_⟩
    have hle := size_le_of_prefix h.grows.funcs
    exact absurd hnone (by simp [Nat.lt_of_lt_of_le (haddr hknown) hle])
  · rename_i f hf
    refine .ite (fun _ ↦ refuse_ensures h.grows) fun _ ↦ ?_
    have hlawful : f.Lawful := by
      obtain hold | ⟨_, _, heq, hlawful⟩ | ⟨_, _, heq⟩ := h.funcs hf
      · exact hs.funcs hold
      · cases heq
        exact hlawful
      · cases heq
    refine (addFunc_ensures h (.inl ⟨some expected, f, rfl, hlawful⟩)).mono ?_ fun _ _ he ↦ he
    rintro addr' t' ⟨ht', hext, hfunc⟩
    exact ⟨ht', hext, _, hfunc, rfl⟩
  · rename_i callable hcallable hfound
    refine .ite (fun hsignature ↦ .pure ⟨h, .refl _, callable, hfound, ?_⟩) fun _ ↦
      refuse_ensures h.grows
    obtain ⟨type, htype⟩ := Callable.exists_type hcallable
    rw [htype] at hsignature ⊢
    exact congrArg some (FuncType.signature_injective hsignature)

/-- An imported global is made from a number, and has the declared type. -/
theorem linkGlobal_ensures {imp : Import} {type : GlobalType} {x : Number}
    (h : Underway s m insts t) :
    Ensures (linkGlobal imp type x) t (fun addr t' ↦ Underway s m insts t' ∧ t.Extends t' ∧
      t'.HasGlobal addr type) (Refused s imports) := by
  refine .ite (fun _ ↦ .throw_bind ⟨h.grows, fun _ ↦ ⟨_, rfl⟩⟩) fun _ ↦ ?_
  split
  · rename_i v hv
    exact addGlobal_ensures h (Number.type_of_toValue hv)
  · exact refuse_ensures h.grows

theorem checkLimits_ensures {imp : Import} {quota : Quota} {declared : Limits} {current : Nat}
    {maximum : Option Nat} (h : s.Grows t) :
    Ensures (checkLimits imp quota declared current maximum) t (fun _ t' ↦ t' = t)
      (Refused s imports) := by
  unfold checkLimits
  split
  · exact refuse_ensures h
  · exact .pure rfl

/-- A handle is resolved only in the store that it belongs to. -/
theorem resolve_ensures {arena : Arena} {imp : Import} {r : Ref arena} (h : s.Grows t) :
    Ensures (resolve imp r) t (fun addr t' ↦ t' = t ∧ r.store = s.id ∧ addr = r.address)
      (Refused s imports) := by
  refine .get_bind ?_
  split
  · rename_i addr haddr
    refine .pure ⟨rfl, ?_⟩
    simp only [Store.resolve] at haddr
    split at haddr
    · rename_i hid
      exact ⟨hid.trans h.id, (Option.some.inj haddr).symm⟩
    · cases haddr
  · exact refuse_ensures h

/-- Index spaces that bind declarations to items of a store underway. Of the functions that the
module defines, `codes` have been added. -/
structure Assembled (s : Store) (m : Module) (insts : Array Instance) (funcs : List Nat)
    (tables memories : List Limits) (globals : List GlobalType) (codes : List Code)
    (sp : IndexSpaces) (t : Store) : Prop where
  underway : Underway s m insts t
  binds : sp.Binds t m funcs tables memories globals
  defined : ∀ (k : Nat) (code : Code), codes[k]? = some code →
    ∃ a, sp.funcs[m.importedFuncs.length + k]? = some a ∧
      t.funcs[a]? = some (.code s.instances.size code)

variable {funcs : List Nat} {tables memories : List Limits} {globals : List GlobalType}
  {codes : List Code} {sp : IndexSpaces}

/-- Nothing that has been bound is lost when more is added to the store. -/
theorem Assembled.mono {t' : Store}
    (h : Assembled s m insts funcs tables memories globals codes sp t)
    (ht' : Underway s m insts t') (hext : t.Extends t') :
    Assembled s m insts funcs tables memories globals codes sp t' where
  underway := ht'
  binds := h.binds.mono hext
  defined k code hcode := by
    obtain ⟨a, ha, hfunc⟩ := h.defined k code hcode
    exact ⟨a, ha, hext.funcs hfunc⟩

/-- The index spaces after the given imports. -/
def ImportsBound (s : Store) (m : Module) (done : List Import) (sp : IndexSpaces) (t : Store) :
    Prop :=
  Assembled s m s.instances (done.filterMap (·.desc.func?)) (done.filterMap (·.desc.table?))
    (done.filterMap (·.desc.memory?)) (done.filterMap (·.desc.global?)) [] sp t

/-- Another import is bound, to an item of the type that it declares. -/
theorem bindImport_ensures {done : List Import} {imp : Import} (hs : s.WellFormed)
    (htype : ∀ type, imp.desc = .func type → type < m.types.length)
    (h : ImportsBound s m done sp t) :
    Ensures (bindImport m imports sp imp) t (ImportsBound s m (done ++ [imp]))
      (Refused s imports) := by
  have hgrows := h.underway.grows
  have hknown {item : Extern} (hitem : ∃ key, (key, item) ∈ imports.items)
      (himports : imports.KnownTo s) : item.KnownTo s := by
    obtain ⟨key, hmem⟩ := hitem
    exact himports _ hmem
  unfold ImportsBound
  refine .bind (importedItem_ensures hgrows) fun item t' hitem ↦ ?_
  obtain ⟨rfl, hkind, hitem⟩ := hitem
  split
  · rename_i type f hdesc
    have hlt := htype type hdesc
    split
    · rename_i hnone
      exact absurd hnone (by simp [hlt])
    · rename_i expected hexpected
      refine .bind (resolve_ensures hgrows) fun addr t₁ haddr ↦ ?_
      obtain ⟨rfl, hid, rfl⟩ := haddr
      have hheld (himports : imports.KnownTo s) : f.address < s.funcs.size :=
        (hknown hitem himports hid).2
      refine .bind (linkFunc_ensures hs h.underway hheld) fun addr t₂ haddr ↦ .pure ?_
      obtain ⟨ht₂, hext, hfunc⟩ := haddr
      have h₂ := Assembled.mono h ht₂ hext
      have hfuncs := forall₂_push h₂.binds.funcs ⟨expected, hexpected, hfunc⟩
      simp only [List.filterMap_append, List.filterMap_cons, List.filterMap_nil, hdesc,
        ImportDesc.func?, ImportDesc.table?, ImportDesc.memory?, ImportDesc.global?,
        List.append_nil]
      exact ⟨ht₂, { h₂.binds with funcs := hfuncs }, by simp⟩
  · rename_i type x hdesc
    refine .bind (linkGlobal_ensures h.underway) fun addr t₁ haddr ↦ .pure ?_
    obtain ⟨ht₁, hext, hglobal⟩ := haddr
    have h₁ := Assembled.mono h ht₁ hext
    simp only [List.filterMap_append, List.filterMap_cons, List.filterMap_nil, hdesc,
      ImportDesc.func?, ImportDesc.table?, ImportDesc.memory?, ImportDesc.global?, List.append_nil]
    exact ⟨ht₁, { h₁.binds with globals := forall₂_push h₁.binds.globals hglobal }, by simp⟩
  · rename_i limits r hdesc
    refine .bind (resolve_ensures hgrows) fun addr t₁ haddr ↦ .get_bind ?_
    obtain ⟨rfl, hid, rfl⟩ := haddr
    split
    · rename_i hnone
      -- Addresses known before linking began still hold, since the arenas only grow.
      refine .throw ⟨hgrows, fun himports ↦ absurd hnone ?_⟩
      have hlt : r.address < t₁.memories.size :=
        Nat.lt_of_lt_of_le (hknown hitem himports hid).2 (hgrows.extends.size_le .memory)
      simpa using hlt
    · rename_i mem hmem
      refine .bind (checkLimits_ensures hgrows) fun _ t₁ ht₁ ↦ .pure ?_
      subst ht₁
      simp only [List.filterMap_append, List.filterMap_cons, List.filterMap_nil, hdesc,
        ImportDesc.func?, ImportDesc.table?, ImportDesc.memory?, ImportDesc.global?,
        List.append_nil]
      have hlt := (Array.getElem?_eq_some_iff.mp hmem).1
      exact ⟨h.underway, { h.binds with memories := forall₂_push h.binds.memories hlt }, by simp⟩
  · rename_i limits r hdesc
    refine .bind (resolve_ensures hgrows) fun addr t₁ haddr ↦ .get_bind ?_
    obtain ⟨rfl, hid, rfl⟩ := haddr
    split
    · rename_i hnone
      refine .throw ⟨hgrows, fun himports ↦ absurd hnone ?_⟩
      have hlt : r.address < t₁.tables.size :=
        Nat.lt_of_lt_of_le (hknown hitem himports hid).2 (hgrows.extends.size_le .table)
      simpa using hlt
    · rename_i x hx
      refine .bind (checkLimits_ensures hgrows) fun _ t₁ ht₁ ↦ .pure ?_
      subst ht₁
      simp only [List.filterMap_append, List.filterMap_cons, List.filterMap_nil, hdesc,
        ImportDesc.func?, ImportDesc.table?, ImportDesc.memory?, ImportDesc.global?,
        List.append_nil]
      have hlt := (Array.getElem?_eq_some_iff.mp hx).1
      exact ⟨h.underway, { h.binds with tables := forall₂_push h.binds.tables hlt }, by simp⟩
  · rename_i item _ _ hfunc hglobal hmemory htable
    -- The kinds agree, so one of the four cases above applies.
    cases hdesc : imp.desc <;> cases item <;> simp_all [ImportDesc.kind, Extern.kind]

/-! ## Definitions -/

/-- A function that is defined has the type of its code, which is the one declared for it. -/
theorem defineFunc_ensures {done rest : List Code} {code : Code} (hm : m.Valid)
    (hcodes : done ++ code :: rest = m.code)
    (h : Assembled s m insts (m.importedFuncs ++ m.funcs.take done.length) tables memories globals
      done sp t) :
    Ensures (defineFunc s.instances.size sp code) t
      (Assembled s m insts (m.importedFuncs ++ m.funcs.take (done ++ [code]).length) tables memories
        globals (done ++ [code])) (Refused s imports) := by
  have hcode : m.code[done.length]? = some code := by simp [← hcodes]
  have hmem : code ∈ m.code := List.mem_of_getElem? hcode
  obtain ⟨type, hfunc, htype, -⟩ := hm.code _ _ hcode
  refine .bind (addFunc_ensures h.underway (.inr ⟨code, hmem, rfl⟩)) fun addr t' haddr ↦ .pure ?_
  obtain ⟨ht', hext, hadded⟩ := haddr
  have h' := h.mono ht' hext
  have hlength : (m.funcs.take done.length).length = done.length := by
    -- There is a declaration for each body, so as many types are taken as bodies are done.
    have hlt := (List.getElem?_eq_some_iff.mp hfunc).1
    rw [List.length_take]
    omega
  refine ⟨ht', { h'.binds with funcs := ?_ }, ?_⟩
  · rw [List.length_append, List.length_singleton, List.take_add_one, hfunc, ← List.append_assoc]
    exact forall₂_push h'.binds.funcs ⟨code.type, htype, _, hadded, rfl⟩
  · intro k code' hk
    have hsize : sp.funcs.size = m.importedFuncs.length + done.length := by
      rw [← Array.length_toList, ← h.binds.funcs.length_eq, List.length_append, hlength]
    obtain hlt | rfl | hgt := Nat.lt_trichotomy k done.length
    · rw [List.getElem?_append_left hlt] at hk
      obtain ⟨a, ha, hfunc'⟩ := h'.defined k code' hk
      refine ⟨a, ?_, hfunc'⟩
      rw [Array.getElem?_push, if_neg (by omega)]
      exact ha
    · rw [List.getElem?_concat_length] at hk
      obtain rfl := Option.some.inj hk
      exact ⟨addr, by rw [← hsize, Array.getElem?_push_size], hadded⟩
    · have hlt := (List.getElem?_eq_some_iff.mp hk).1
      rw [List.length_append, List.length_singleton] at hlt
      omega

/-- A table that is defined comes behind those that are imported. -/
theorem defineTable_ensures {l : Limits}
    (h : Assembled s m insts funcs tables memories globals codes sp t) :
    Ensures (defineTable sp l) t
      (Assembled s m insts funcs (tables ++ [l]) memories globals codes) (Refused s imports) := by
  refine .get_bind ?_
  dsimp only
  split
  · exact refuse_ensures h.underway.grows
  · rename_i x hx
    refine .bind (addTable_ensures h.underway (Table.slots_of_new hx)) fun addr t' haddr ↦ .pure ?_
    obtain ⟨ht', hext, hlt⟩ := haddr
    have h' := h.mono ht' hext
    exact ⟨ht', { h'.binds with tables := forall₂_push h'.binds.tables hlt }, h'.defined⟩

theorem defineMemory_ensures {l : Limits}
    (h : Assembled s m insts funcs tables memories globals codes sp t) :
    Ensures (defineMemory sp l) t
      (Assembled s m insts funcs tables (memories ++ [l]) globals codes) (Refused s imports) := by
  refine .get_bind ?_
  dsimp only
  split
  · exact refuse_ensures h.underway.grows
  · refine .bind (addMemory_ensures h.underway) fun addr t' haddr ↦ .pure ?_
    obtain ⟨ht', hext, hlt⟩ := haddr
    have h' := h.mono ht' hext
    exact ⟨ht', { h'.binds with memories := forall₂_push h'.binds.memories hlt }, h'.defined⟩

variable {E : InstantiationError → Store → Prop}

/-- A declared global is there. -/
theorem globalAt_ensures {index : Nat} {type : GlobalType}
    (h : Assembled s m insts funcs tables memories globals codes sp t)
    (hindex : globals[index]? = some type) :
    Ensures (globalAt sp.globals index) t (fun g t' ↦ t' = t ∧ g.value.type = type.type ∧
      ∃ addr, sp.globals[index]? = some addr ∧ t.globals[addr]? = some g) E := by
  obtain ⟨addr, haddr, g, hg, rfl⟩ := forall₂_getElem?_left h.binds.globals hindex
  rw [Array.getElem?_toList] at haddr
  unfold globalAt
  rw [haddr]
  refine .get_bind ?_
  rw [hg]
  exact .pure ⟨rfl, h.underway.globals hg, addr, rfl, hg⟩

/-- An initializer has a value of its type: a constant, or what an imported global has at this
moment. -/
theorem evalConst_ensures {e : ConstExpr} {type : ValueType} {more : List GlobalType}
    (h : Assembled s m insts funcs tables memories (m.importedGlobals ++ more) codes sp t)
    (he : e.HasType m.importedGlobals type) :
    Ensures (evalConst sp.globals e) t
      (fun v t' ↦ t' = t ∧ v.type = type ∧ e.Denotes t sp.globals v) E := by
  cases e with
  | value v => exact .pure ⟨rfl, he, rfl⟩
  | globalGet index =>
    obtain ⟨g, hg, rfl⟩ := he
    have hindex : (m.importedGlobals ++ more)[index]? = some g := by
      rw [List.getElem?_append_left (List.getElem?_eq_some_iff.mp hg).1]
      exact hg
    refine .bind (globalAt_ensures h hindex) fun g' t' hg' ↦ .pure ?_
    obtain ⟨rfl, htype, addr, haddr, hg'⟩ := hg'
    exact ⟨rfl, htype, addr, g', haddr, hg', rfl⟩

/-- A global is initialized from imported globals only, which are all bound by then. -/
theorem defineGlobal_ensures {g : GlobalDecl} {more : List GlobalType}
    (hg : g.init.HasType m.importedGlobals g.type.type)
    (h : Assembled s m insts funcs tables memories (m.importedGlobals ++ more) codes sp t) :
    Ensures (defineGlobal sp g) t
      (Assembled s m insts funcs tables memories (m.importedGlobals ++ (more ++ [g.type])) codes)
      (Refused s imports) := by
  refine .bind (evalConst_ensures h hg) fun v t₁ hv ↦ ?_
  obtain ⟨rfl, hv, -⟩ := hv
  refine .bind (addGlobal_ensures h.underway hv) fun addr t' haddr ↦ .pure ?_
  obtain ⟨ht', hext, hglobal⟩ := haddr
  have h' := h.mono ht' hext
  rw [← List.append_assoc]
  exact ⟨ht', { h'.binds with globals := forall₂_push h'.binds.globals hglobal }, h'.defined⟩

/-! ## Exports and segments -/

/-- A planned write of an element segment: the addresses of its functions go to the first table,
where the offset says, and have room there. -/
def ElementPlanned (t : Store) (sp : IndexSpaces) (seg : ElementSegment)
    (plan : Nat × Nat × List Nat) : Prop :=
  (∃ w, seg.offset.Denotes t sp.globals (.i32 w) ∧ plan.2.1 = w.toNat) ∧
  sp.tables[0]? = some plan.1 ∧
  (∃ x, t.tables[plan.1]? = some x ∧ plan.2.1 + plan.2.2.length ≤ x.size) ∧
  List.Forall₂ (fun index addr ↦ sp.funcs[index]? = some addr) seg.funcs plan.2.2

/-- A planned write of a data segment: its bytes go to the first memory, where the offset says, and
have room there. -/
def DataPlanned (t : Store) (sp : IndexSpaces) (seg : DataSegment)
    (plan : Nat × Nat × List UInt8) : Prop :=
  (∃ w, seg.offset.Denotes t sp.globals (.i32 w) ∧ plan.2.1 = w.toNat) ∧
  sp.memories[0]? = some plan.1 ∧
  (∃ x, t.memories[plan.1]? = some x ∧ plan.2.1 + plan.2.2.length ≤ x.bytes.size) ∧
  plan.2.2 = seg.bytes

/-- A plan that has one write for each segment of an instance. -/
structure Covers (t : Store) (i : Instance) (plan : SegmentPlan) : Prop where
  elements : List.Forall₂ (ElementPlanned t i.toIndexSpaces) i.module.elements plan.elements
  data : List.Forall₂ (DataPlanned t i.toIndexSpaces) i.module.data plan.data

/-- The address of a declared item is there. -/
theorem addressIn_ensures {α : Type} {R : α → Nat → Prop} {decls : List α} {space : Array Nat}
    {what : Referent} {index : Nat} (h : List.Forall₂ R decls space.toList)
    (hindex : index < decls.length) :
    Ensures (addressIn space what index) t
      (fun addr t' ↦ t' = t ∧ space[index]? = some addr ∧ ∃ d, R d addr) E := by
  obtain ⟨addr, haddr, hR⟩ := forall₂_getElem?_left h (List.getElem?_eq_getElem hindex)
  rw [Array.getElem?_toList] at haddr
  unfold addressIn
  rw [haddr]
  exact .pure ⟨rfl, rfl, _, hR⟩

/-- Index spaces that bind everything the module declares. -/
def Complete (s : Store) (m : Module) (insts : Array Instance) (sp : IndexSpaces) (t : Store) :
    Prop :=
  Assembled s m insts m.funcSpace m.tableSpace m.memorySpace m.globalSpace m.code sp t

/-- An export leads to something that belongs to the store. -/
theorem bindExport_ensures {e : Export} (hm : m.Counted) (h : Complete s m insts sp t)
    (he : e.index < m.spaceSize e.kind) :
    Ensures (bindExport sp e) t (fun item t' ↦ t' = t ∧ item.2.HeldBy t) (Refused s imports) := by
  have hrefused (l : LinkError) : Refused s imports (.link l) t :=
    ⟨h.underway.grows, fun _ ↦ ⟨l, rfl⟩⟩
  suffices hitem : Ensures (exportItem sp e) t (fun item t' ↦ t' = t ∧ item.HeldBy t)
      (Refused s imports) from .bind hitem fun item t' hitem ↦ .pure hitem
  unfold exportItem
  split
  · rename_i hkind
    rw [hkind, hm.spaceSize_func] at he
    refine .get_bind (.bind (addressIn_ensures h.binds.funcs he) fun addr t' haddr ↦ .pure ?_)
    obtain ⟨rfl, -, _, _, -, c, hc, -⟩ := haddr
    exact ⟨rfl, rfl, (Array.getElem?_eq_some_iff.mp hc).1⟩
  · rename_i hkind
    rw [hkind, hm.spaceSize_table] at he
    refine .get_bind (.bind (addressIn_ensures h.binds.tables he) fun addr t' haddr ↦ .pure ?_)
    obtain ⟨rfl, -, _, hlt⟩ := haddr
    exact ⟨rfl, rfl, hlt⟩
  · rename_i hkind
    rw [hkind, hm.spaceSize_memory] at he
    refine .get_bind (.bind (addressIn_ensures h.binds.memories he) fun addr t' haddr ↦ .pure ?_)
    obtain ⟨rfl, -, _, hlt⟩ := haddr
    exact ⟨rfl, rfl, hlt⟩
  · rename_i hkind
    rw [hkind, hm.spaceSize_global] at he
    refine .bind (globalAt_ensures h (List.getElem?_eq_getElem he)) fun g t' hg ↦ ?_
    obtain ⟨rfl, -⟩ := hg
    refine .ite (fun _ ↦ .throw_bind (hrefused _)) fun _ ↦ ?_
    split
    · exact .pure ⟨rfl, trivial⟩
    · exact refuse_ensures h.underway.grows

/-- The offset of a segment is a word read as unsigned. -/
theorem segmentOffset_ensures {e : ConstExpr} (h : Complete s m insts sp t)
    (he : e.HasType m.importedGlobals .i32) :
    Ensures (segmentOffset sp.globals e) t
      (fun offset t' ↦ t' = t ∧ ∃ w, e.Denotes t sp.globals (.i32 w) ∧ offset = w.toNat) E := by
  refine .bind (evalConst_ensures h he) fun v t' hv ↦ ?_
  obtain ⟨rfl, hv, hdenotes⟩ := hv
  cases v with
  | i32 w => exact .pure ⟨rfl, w, hdenotes, rfl⟩
  | _ => cases hv

/-- A segment that passes lies inside its target. -/
theorem checkSegment_ensures {kind : SegmentKind} {offset len size : Nat} (h : s.Grows t) :
    Ensures (checkSegment kind offset len size) t (fun _ t' ↦ t' = t ∧ offset + len ≤ size)
      (Refused s imports) :=
  .ite (fun _ ↦ refuse_ensures h) fun hle ↦ .pure ⟨rfl, Nat.le_of_not_gt hle⟩

/-- A segment is planned with the addresses of its functions, and fits the table as it is now. -/
theorem planElement_ensures {seg : ElementSegment} (h : Complete s m insts sp t)
    (hseg : m.tableSpace ≠ [] ∧ seg.offset.HasType m.importedGlobals .i32 ∧
      ∀ f ∈ seg.funcs, f < m.funcSpace.length) :
    Ensures (planElement sp seg) t (fun plan t' ↦ t' = t ∧ ElementPlanned t sp seg plan)
      (Refused s imports) := by
  obtain ⟨htable, hoffset, hfuncs⟩ := hseg
  refine .bind (segmentOffset_ensures h hoffset) fun offset t₁ ht₁ ↦ ?_
  obtain ⟨rfl, hdenotes⟩ := ht₁
  refine .bind (addressIn_ensures h.binds.tables (List.length_pos_iff.mpr htable))
    fun table t₂ ht₂ ↦ ?_
  obtain ⟨rfl, hfirst, _, hlt⟩ := ht₂
  refine .get_bind ?_
  split
  · rename_i hnone
    exact absurd hnone (by simp [hlt])
  · rename_i x hx
    refine .bind (checkSegment_ensures h.underway.grows) fun _ t₃ ht₃ ↦ ?_
    obtain ⟨rfl, hroom⟩ := ht₃
    have haddress : ∀ f ∈ seg.funcs, Ensures (addressIn sp.funcs .func f) t₃
        (fun addr t' ↦ t' = t₃ ∧ sp.funcs[f]? = some addr) (Refused s imports) := fun f hf ↦
      (addressIn_ensures h.binds.funcs (hfuncs f hf)).mono (fun _ _ haddr ↦ ⟨haddr.1, haddr.2.1⟩)
        fun _ _ he ↦ he
    refine .bind (.mapM haddress) fun addrs t' haddrs ↦ .pure ?_
    obtain ⟨rfl, hall⟩ := haddrs
    rw [hall.length_eq] at hroom
    exact ⟨rfl, hdenotes, hfirst, ⟨x, hx, hroom⟩, hall⟩

/-- A segment is planned with its bytes, and fits the memory as it is now. -/
theorem planData_ensures {seg : DataSegment} (h : Complete s m insts sp t)
    (hseg : m.memorySpace ≠ [] ∧ seg.offset.HasType m.importedGlobals .i32) :
    Ensures (planData sp seg) t (fun plan t' ↦ t' = t ∧ DataPlanned t sp seg plan)
      (Refused s imports) := by
  obtain ⟨hmemory, hoffset⟩ := hseg
  refine .bind (segmentOffset_ensures h hoffset) fun offset t₁ ht₁ ↦ ?_
  obtain ⟨rfl, hdenotes⟩ := ht₁
  refine .bind (addressIn_ensures h.binds.memories (List.length_pos_iff.mpr hmemory))
    fun memory t₂ ht₂ ↦ ?_
  obtain ⟨rfl, hfirst, _, hlt⟩ := ht₂
  refine .get_bind ?_
  split
  · rename_i hnone
    exact absurd hnone (by simp [hlt])
  · rename_i x hx
    refine .bind (checkSegment_ensures h.underway.grows) fun _ t₃ ht₃ ↦ .pure ?_
    obtain ⟨rfl, hroom⟩ := ht₃
    exact ⟨rfl, hdenotes, hfirst, ⟨x, hx, hroom⟩, rfl⟩

/-! ## Instances -/

/-- The instance gets its address before it is filled, so that its functions can refer to it. -/
theorem addInstance_ensures (h : Underway s m s.instances t) :
    Ensures (addInstance { module := m }) t (fun inst t' ↦ inst = s.instances.size ∧
      Underway s m (s.instances.push { module := m }) t' ∧ t.Extends t') E := by
  have hgrows : t.Grows { t with instances := t.instances.push { module := m } } :=
    { Store.Grows.refl t with instances := prefix_push _ _ }
  refine .modifyGet ⟨congrArg Array.size h.instances, ?_, hgrows.extends⟩
  exact { h with
    grows := h.grows.trans hgrows
    instances := congrArg (Array.push · _) h.instances }

theorem import_type_lt (hm : m.Valid) {imp : Import} (himp : imp ∈ m.imports) :
    ∀ type, imp.desc = .func type → type < m.types.length := by
  intro type hdesc
  exact hm.imports type (List.mem_filterMap.mpr ⟨imp, himp, by rw [hdesc]; rfl⟩)

/-- Imports of the module are bound as they declare, one after the other. -/
theorem bindImports_ensures (hs : s.WellFormed) (hm : m.Valid) {imps : List Import}
    (himps : imps ⊆ m.imports) :
    Ensures (imps.foldlM (bindImport m imports) {}) s (ImportsBound s m imps)
      (Refused s imports) := by
  refine .foldlM (ImportsBound s m) (fun done imp rest sp t himports h ↦ ?_) ?_
  · refine bindImport_ensures hs (import_type_lt hm (himps ?_)) h
    rw [← himports]
    exact List.mem_append_right done List.mem_cons_self
  · exact {
      underway := {
        grows := .refl s
        instances := rfl
        funcs := .inl
        tables := .inl
        globals := hs.globals }
      binds := ⟨.nil, .nil, .nil, .nil⟩
      defined := by simp }

/-- All imports are bound, by induction on them. -/
theorem imports_ensures (hs : s.WellFormed) (hm : m.Valid) :
    Ensures (m.imports.foldlM (bindImport m imports) {}) s
      (Assembled s m s.instances m.importedFuncs m.importedTables m.importedMemories
        m.importedGlobals []) (Refused s imports) :=
  bindImports_ensures hs hm fun _ himp ↦ himp

/-- Functions that are defined come behind those that are imported. -/
theorem code_ensures (hm : m.Valid)
    (h : Assembled s m insts m.importedFuncs tables memories globals [] sp t) :
    Ensures (m.code.foldlM (defineFunc s.instances.size) sp) t
      (Assembled s m insts m.funcSpace tables memories globals m.code) (Refused s imports) := by
  have hspace : m.funcSpace = m.importedFuncs ++ m.funcs.take m.code.length := by
    rw [hm.complete, List.take_length, Module.funcSpace]
  rw [hspace]
  refine .foldlM (fun done ↦ Assembled s m insts (m.importedFuncs ++ m.funcs.take done.length)
    tables memories globals done) (fun done code rest sp t hcodes h ↦ ?_) ?_
  · exact defineFunc_ensures hm hcodes h
  · simpa using h

theorem tables_ensures
    (h : Assembled s m insts funcs m.importedTables memories globals codes sp t) :
    Ensures (m.tables.foldlM defineTable sp) t
      (Assembled s m insts funcs m.tableSpace memories globals codes) (Refused s imports) := by
  refine .foldlM (fun done ↦ Assembled s m insts funcs (m.importedTables ++ done) memories globals
    codes) (fun done l rest sp t _ h ↦ ?_) ?_
  · rw [← List.append_assoc]
    exact defineTable_ensures h
  · simpa using h

theorem memories_ensures
    (h : Assembled s m insts funcs tables m.importedMemories globals codes sp t) :
    Ensures (m.memories.foldlM defineMemory sp) t
      (Assembled s m insts funcs tables m.memorySpace globals codes) (Refused s imports) := by
  refine .foldlM (fun done ↦ Assembled s m insts funcs tables (m.importedMemories ++ done) globals
    codes) (fun done l rest sp t _ h ↦ ?_) ?_
  · rw [← List.append_assoc]
    exact defineMemory_ensures h
  · simpa using h

/-- So do globals, each with an initializer that passed the checks of the decoder. -/
theorem globals_ensures (hm : m.Valid)
    (h : Assembled s m insts funcs tables memories m.importedGlobals codes sp t) :
    Ensures (m.globals.foldlM defineGlobal sp) t
      (Assembled s m insts funcs tables memories m.globalSpace codes) (Refused s imports) := by
  refine .foldlM (fun done ↦ Assembled s m insts funcs tables memories
    (m.importedGlobals ++ done.map GlobalDecl.type) codes) (fun done g rest sp t hglobals h ↦ ?_) ?_
  · have hg := hm.globals g (by simp [← hglobals])
    rw [List.map_append]
    exact defineGlobal_ensures hg h
  · simpa using h

/-- What linking leaves: an instance of the module that is linked as it declares, and a plan for all
of its segments. -/
structure Linked (s : Store) (m : Module) (r : Nat × SegmentPlan) (t : Store) : Prop where
  grows : s.Grows t
  wellFormed : t.WellFormed
  inst : ∃ i, t.instances[r.1]? = some i ∧ i.module = m ∧ Covers t i r.2

/-- Every function that goes into a table has a type. -/
theorem Covers.typed {i : Instance} {addr : Nat} {plan : SegmentPlan} (h : Covers t i plan)
    (hi : i.Linked t addr) : ∀ p ∈ plan.elements, ∀ a ∈ p.2.2, ∃ type, t.HasFunc a type := by
  intro p hp a ha
  obtain ⟨seg, -, -, -, -, hfuncs⟩ := forall₂_exists_left h.elements hp
  obtain ⟨index, -, hindex⟩ := forall₂_exists_left hfuncs ha
  rw [← Array.getElem?_toList] at hindex
  obtain ⟨_, -, type, -, hfunc⟩ := forall₂_getElem?_right hi.spaces.funcs hindex
  exact ⟨type, hfunc⟩

/-- An instance with complete index spaces can take the place that was kept for it. -/
theorem Complete.linked {exports : List (String × Extern)} (hs : s.WellFormed) (hm : m.Decoded)
    (h : Complete s m (s.instances.push { module := m }) sp t)
    (hexports : ∀ e ∈ exports, e.2.HeldBy t) :
    let record : Instance := { toIndexSpaces := sp, module := m, exports }
    let t' := { t with instances := t.instances.setIfInBounds s.instances.size record }
    s.Grows t' ∧ t'.WellFormed ∧ t'.instances[s.instances.size]? = some record := by
  intro record t'
  have hinstances : t'.instances = s.instances.push record := by
    change t.instances.setIfInBounds s.instances.size record = s.instances.push record
    rw [h.underway.instances]
    apply Array.ext_getElem?
    intro i
    rw [Array.getElem?_setIfInBounds, Array.getElem?_push, Array.getElem?_push]
    split
    · simp_all
    · rename_i hi
      rw [if_neg (Ne.symm hi), if_neg (Ne.symm hi)]
  have hrecord : t'.instances[s.instances.size]? = some record := by
    rw [hinstances, Array.getElem?_push_size]
  have hgrows : s.Grows t' := { h.underway.grows with
    instances := by
      rw [hinstances]
      exact prefix_push _ _ }
  have hlinked : record.Linked t' s.instances.size := {
    decoded := hm
    spaces := ⟨h.binds.funcs, h.binds.tables, h.binds.memories, h.binds.globals⟩
    defined := h.defined
    exports := by
      rintro ⟨name, item⟩ he
      have hheld := hexports _ he
      cases item <;> exact hheld }
  -- What was there before is as it was; only what linking added is left to check.
  refine ⟨hgrows, hs.extend hgrows.extends ?_ ?_ ?_ ?_, hrecord⟩
  · intro a i hi
    rw [hinstances, Array.getElem?_push] at hi
    split at hi
    · rename_i ha
      obtain rfl := Option.some.inj hi
      exact .inr (ha ▸ hlinked)
    · exact .inl hi
  · intro a c hc
    obtain hold | ⟨type, f, rfl, hf⟩ | ⟨code, hcode, rfl⟩ := h.underway.funcs hc
    · exact .inl hold
    · exact .inr hf
    · exact .inr ⟨record, hrecord, hcode⟩
  · intro a x hx
    refine (h.underway.tables hx).imp_right fun hempty addr haddr ↦ ?_
    cases hempty _ haddr
  · intro a g hg
    exact .inr (h.underway.globals hg)

/-- Linking a decoded module succeeds with a linked instance, or fails with a store that has only
grown. -/
theorem link_ensures (hs : s.WellFormed) (hm : m.Decoded) :
    Ensures (link m imports) s (Linked s m) (Refused s imports) := by
  have hvalid := hm.valid
  refine .bind (imports_ensures hs hvalid) fun sp t h ↦ ?_
  refine .bind (addInstance_ensures h.underway) fun inst t₁ ht₁ ↦ ?_
  obtain ⟨rfl, ht₁, hext⟩ := ht₁
  have h₁ : Assembled s m (s.instances.push { module := m }) m.importedFuncs m.importedTables
      m.importedMemories m.importedGlobals [] sp t₁ := ⟨ht₁, h.binds.mono hext, by simp⟩
  refine .bind (code_ensures hvalid h₁) fun sp t h ↦ ?_
  refine .bind (tables_ensures h) fun sp t h ↦ ?_
  refine .bind (memories_ensures h) fun sp t h ↦ ?_
  refine .bind (globals_ensures hvalid h) fun sp t h ↦ ?_
  refine .bind (.mapM fun e he ↦ bindExport_ensures hvalid.counted h (hvalid.exports e he))
    fun exports t' he ↦ ?_
  obtain ⟨rfl, hexports⟩ := he
  refine .bind (.mapM fun seg hseg ↦ planElement_ensures h (hvalid.elements seg hseg))
    fun elements t'' hel ↦ ?_
  obtain ⟨rfl, helements⟩ := hel
  refine .bind (.mapM fun seg hseg ↦ planData_ensures h (hvalid.data seg hseg))
    fun data t₂ hd ↦ ?_
  obtain ⟨rfl, hdata⟩ := hd
  have hheld : ∀ e ∈ exports, e.2.HeldBy t₂ := by
    intro e he
    obtain ⟨_, -, hheld⟩ := forall₂_exists_left hexports he
    exact hheld
  obtain ⟨hgrows, hwf, hrecord⟩ := Complete.linked hs hm h hheld
  refine .bind (.modify (Q := fun _ t' ↦ t' = _) rfl) fun _ t' ht' ↦ .pure ?_
  subst ht'
  exact ⟨hgrows, hwf, _, hrecord, rfl, helements, hdata⟩

/-! ## Segments -/

/-- Store updates, one after the other, that keep the store well formed and its instances. -/
theorem foldl_kept {α : Type} (f : Store → α → Store) (ps : List α)
    (hf : ∀ u, ∀ p ∈ ps, t.Kept u → u.Kept (f u p) ∧ (f u p).instances = u.instances) {u : Store}
    (hu : t.Kept u) :
    t.Kept (ps.foldl f u) ∧ (ps.foldl f u).instances = u.instances := by
  induction ps generalizing u with
  | nil => exact ⟨hu, rfl⟩
  | cons p ps ih =>
    obtain ⟨hkept, hinstances⟩ := hf u p List.mem_cons_self hu
    obtain ⟨hkept', hinstances'⟩ :=
      ih (fun u q hq ↦ hf u q (List.mem_cons_of_mem p hq)) (hu.trans hkept)
    exact ⟨hkept', hinstances'.trans hinstances⟩

/-- Writing segments changes tables and memories in place and nothing else. -/
theorem apply_kept {plan : SegmentPlan} (ht : t.WellFormed)
    (h : ∀ p ∈ plan.elements, ∀ addr ∈ p.2.2, ∃ type, t.HasFunc addr type) :
    t.Kept (plan.apply t) ∧ (plan.apply t).instances = t.instances := by
  have helements := foldl_kept SegmentPlan.writeElements plan.elements
    (fun u p hp hu ↦ ⟨hu.wellFormed.modifyTable p.1 (fun x ↦ .write x p.2.1 p.2.2) fun x hx ↦
      hx.of_write fun addr haddr ↦ (h p hp addr haddr).imp fun _ hfunc ↦ hfunc.mono hu.ext, rfl⟩)
    (.refl ht)
  have hdata := foldl_kept SegmentPlan.writeData plan.data
    (fun u p _ hu ↦ ⟨hu.wellFormed.modifyMemory p.1 fun x ↦ .write x p.2.1 p.2.2, rfl⟩)
    helements.1
  exact ⟨hdata.1, hdata.2.trans helements.2⟩

/-- A success is left as it is. -/
theorem run_restoring_of_ok {α : Type} {x : Link α} {a : α} (h : x.run s = .ok a t) :
    (restoring x).run s = .ok a t := by
  have hx : x s = .ok a t := h
  simp only [restoring, EStateM.run, hx]

/-- A failure is undone, whatever had been made until then. -/
theorem run_restoring_of_error {α : Type} {x : Link α} {e : InstantiationError}
    (h : x.run s = .error e t) : (restoring x).run s = .error e (t.rollback s.mark) := by
  have hx : x s = .error e t := h
  simp only [restoring, EStateM.run, hx]

/-- An instance `i` of the module that was linked and had its segments written. -/
structure Prepared (s : Store) (m : Module) (imports : Imports) (r : Nat × SegmentPlan) (t : Store)
    (i : Instance) : Prop where
  linked : (link m imports).run s = .ok r t
  covers : Covers t i r.2
  inst : (r.2.apply t).instances[r.1]? = some i
  module : i.module = m
  kept : s.Kept (r.2.apply t)
  run : (prepare m imports).run s = .ok (s.ref r.1, do i.funcs[← m.start]?) (r.2.apply t)

/-- To prepare an instance is to link it and write its segments. If linking fails, the store is as
it was. -/
theorem prepare_cases (hs : s.WellFormed) (hm : m.Decoded) (imports : Imports) :
    (∃ e t, (link m imports).run s = .error e t ∧ (prepare m imports).run s = .error e s ∧
      (imports.KnownTo s → ∃ l, e = .link l)) ∨
    ∃ r t i, Prepared s m imports r t i := by
  have hensures : Ensures (link m imports) s (Linked s m) (Refused s imports) :=
    link_ensures hs hm
  cases hrun : (link m imports).run s with
  | error e t =>
    obtain ⟨hgrows, hlink⟩ := hensures.of_error hrun
    refine .inl ⟨e, t, rfl, ?_, hlink⟩
    have hrestored := run_restoring_of_error hrun
    rw [hgrows.rollback_eq] at hrestored
    rw [prepare, EStateM.run_bind, hrestored]
  | ok r t =>
    have hlinked := hensures.of_ok hrun
    have hrestored := run_restoring_of_ok hrun
    obtain ⟨i, hi, hmodule, hcovers⟩ := hlinked.inst
    obtain ⟨hkept, hinstances⟩ :=
      apply_kept hlinked.wellFormed (hcovers.typed (hlinked.wellFormed.instances hi))
    have hi' : (r.2.apply t).instances[r.1]? = some i := by rw [hinstances, hi]
    have hid : (r.2.apply t).id = s.id := hkept.ext.id.trans hlinked.grows.id
    refine .inr ⟨r, t, i, hrun, hcovers, hi', hmodule,
      ⟨hlinked.grows.extends.trans hkept.ext, hkept.wellFormed⟩, ?_⟩
    simp only [prepare, EStateM.run_bind, hrestored, EStateM.run_modify, EStateM.run_get, hi',
      EStateM.run_pure, Store.ref, hid]

end Link

end WasmEngine
