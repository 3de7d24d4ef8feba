import WasmEngine.Proofs.Compatibility
import WasmEngine.Proofs.Evolution

/-!
# What every instance is provided with

An embedder may supply references that stand for nothing in the store. One to a table or a memory is
found out, because linking adds no table or memory before all imports are bound. One to a function
may come to stand for a function that linking itself has added. So what can be said of every
instance, whatever it was supplied with, is about tables, memories and globals: each is admitted and
bound as if the imports had been known to the store. Exported globals are not mutable.

An instance that a store has gained in a change is one that was linked.
-/

namespace WasmEngine

/-- What the export stands for, and if that is a global, it is not mutable. -/
def Export.Fixes (t : Store) (sp : IndexSpaces) (e : Export) (p : String × Extern) : Prop :=
  e.Names t sp p ∧ (e.kind = .global → ∃ addr g, sp.globals[e.index]? = some addr ∧
    t.globals[addr]? = some g ∧ g.type.isMutable = false)

namespace Link

open WasmEngine.Module

variable {s t : Store} {m : Module} {imports : Imports} {sp : IndexSpaces} {done : List Item}

/-- Index spaces for tables, memories and globals that hold the addresses of the items that linking
has gone through. -/
structure Provided (s : Store) (m : Module) (imports : Imports) (done : List Item)
    (sp : IndexSpaces) (t : Store) : Prop where
  grows : s.Grows t
  admitted : ∀ item ∈ done, item.kind ≠ .func → item.Admitted s m imports
  bound : ∀ k ≠ .func, List.Forall₂ (Item.Bound s m imports t) (done.filter (·.kind = k))
    (sp.space k).toList
  fresh : ∀ k ≠ .func, (sp.space k).toList.filter (s.count k ≤ ·) =
    List.range' (s.count k) (t.count k - s.count k)

theorem Provided.nil : Provided s m imports [] {} s where
  grows := .refl s
  admitted := List.forall_mem_nil _
  bound k _ := by cases k <;> exact .nil
  fresh k _ := by cases k <;> simp [IndexSpaces.space]

theorem Provided.add {item : Item} {sp' : IndexSpaces} {t' : Store}
    (h : Provided s m imports done sp t) (hadds : Adds s m imports item sp t sp' t') :
    Provided s m imports (done ++ [item]) sp' t' where
  grows := h.grows.trans hadds.grows
  admitted := List.forall_mem_append.mpr
    ⟨h.admitted, List.forall_mem_singleton.mpr fun _ ↦ hadds.admitted⟩
  bound k hk := hadds.bound (h.bound k hk)
  fresh k hk := hadds.fresh h.grows (h.fresh k hk)

/-- Functions and instances are of no account. -/
theorem Provided.congr {t' : Store} (h : Provided s m imports done sp t) (hgrows : s.Grows t')
    (htables : t'.tables = t.tables) (hmemories : t'.memories = t.memories)
    (hglobals : t'.globals = t.globals) (hfuncs : t.funcs.toList <+: t'.funcs.toList) :
    Provided s m imports done sp t' where
  grows := hgrows
  admitted := h.admitted
  bound k hk := (h.bound k hk).imp fun _ _ hb ↦ hb.mono hfuncs
    (htables ▸ List.prefix_rfl) (hmemories ▸ List.prefix_rfl) (hglobals ▸ List.prefix_rfl)
  fresh k hk := by
    rw [h.fresh k hk]
    cases k with
    | func => exact (hk rfl).elim
    | table => simp only [Store.count, htables]
    | memory => simp only [Store.count, hmemories]
    | global => simp only [Store.count, hglobals]

theorem Provided.addFunc {item : Item} {addr : Nat} {t' : Store}
    (h : Provided s m imports done sp t) (hitem : item.kind = .func)
    (ht' : Provided s m imports done sp t') :
    Provided s m imports (done ++ [item]) (sp.push .func addr) t' where
  grows := ht'.grows
  admitted := List.forall_mem_append.mpr
    ⟨h.admitted, List.forall_mem_singleton.mpr fun hne ↦ (hne hitem).elim⟩
  bound k hk := by
    have hne : item.kind ≠ k := fun heq ↦ hk (heq.symm.trans hitem)
    rw [IndexSpaces.space_push_of_ne _ _ (Ne.symm hk), List.filter_append,
      List.filter_cons_of_neg (by simpa using hne), List.filter_nil, List.append_nil]
    exact ht'.bound k hk
  fresh k hk := by
    rw [IndexSpaces.space_push_of_ne _ _ (Ne.symm hk)]
    exact ht'.fresh k hk

/-- A table or memory that is imported was there before. -/
theorem addr_lt_of_imported {imp : Import} {addr : Nat} {k : ExternKind}
    (hk : k = .table ∨ k = .memory) (hkind : imp.desc.kind = k)
    (h : (Item.imported imp).Bound s m imports t addr) : addr < s.count k := by
  obtain ⟨module, name, desc⟩ := imp
  subst hkind
  cases h with
  | imported hitem hbinds =>
    cases hbinds with
    | table haddr => exact haddr
    | memory haddr => exact haddr
    | _ => simp [ImportDesc.kind] at hk

/-- No table or memory is added as long as imports are bound. -/
theorem Provided.count_eq {imps : List Import} (h : Provided s m imports (imps.map .imported) sp t)
    {k : ExternKind} (hk : k = .table ∨ k = .memory) : t.count k = s.count k := by
  have hfunc : k ≠ .func := by
    rintro rfl
    simp at hk
  have hnone : (sp.space k).toList.filter (s.count k ≤ ·) = [] := by
    refine List.filter_eq_nil_iff.mpr fun addr haddr ↦ ?_
    obtain ⟨item, hitem, hbound⟩ := forall₂_exists_left (h.bound k hfunc) haddr
    obtain ⟨hmem, hkind⟩ := List.mem_filter.mp hitem
    obtain ⟨imp, -, rfl⟩ := List.mem_map.mp hmem
    have hkind : imp.desc.kind = k := of_decide_eq_true hkind
    simpa using addr_lt_of_imported hk hkind hbound
  have hfresh := h.fresh k hfunc
  rw [hnone, eq_comm, List.range'_eq_nil_iff] at hfresh
  exact Nat.le_antisymm (Nat.le_of_sub_eq_zero hfresh) (h.grows.count_le k)

theorem Provided.tables_eq {imps : List Import}
    (h : Provided s m imports (imps.map .imported) sp t) : s.tables = t.tables :=
  Array.toList_inj.mp (h.grows.tables.eq_of_length (h.count_eq (.inl rfl)).symm)

theorem Provided.memories_eq {imps : List Import}
    (h : Provided s m imports (imps.map .imported) sp t) : s.memories = t.memories :=
  Array.toList_inj.mp (h.grows.memories.eq_of_length (h.count_eq (.inr rfl)).symm)

/-! ## Imports -/

theorem linkFunc_keeps {imp : Import} {expected : FuncType} {addr : Nat} :
    Ensures (linkFunc imp expected addr) t
      (fun _ t' ↦ t' = t ∨ ∃ c, t' = { t with funcs := t.funcs.push c }) fun _ _ ↦ True := by
  refine .get_bind ?_
  split
  · exact .throw trivial
  · exact .ite (fun _ ↦ .throw trivial) fun _ ↦ .modifyGet (.inr ⟨_, rfl⟩)
  · exact .ite (fun _ ↦ .pure (.inl rfl)) fun _ ↦ .throw trivial

theorem bindImport_provides {imps : List Import} {imp : Import}
    (h : Provided s m imports (imps.map .imported) sp t) :
    Ensures (bindImport m imports sp imp) t
      (Provided s m imports ((imps ++ [imp]).map .imported)) fun _ _ ↦ True := by
  obtain ⟨module, name, desc⟩ := imp
  rw [List.map_append]
  refine .bind (importedItem_binds (s := s) (m := m)).forget ?_
  rintro item t' ⟨rfl, hmodule, hitem, hkind⟩
  cases desc with
  | func type =>
    cases item with
    | func f =>
      dsimp only
      split
      · exact .throw trivial
      · refine .bind (resolve_binds h.grows).forget ?_
        rintro addr t₁ ⟨rfl, rfl⟩
        refine .bind linkFunc_keeps ?_
        rintro addr' t₂ (rfl | ⟨c, rfl⟩)
        · exact .pure (h.addFunc rfl h)
        · refine .pure (h.addFunc rfl (h.congr ?_ rfl rfl rfl (prefix_push _ _)))
          exact h.grows.trans (Store.Gains.func c).grows
    | _ => cases hkind
  | global g =>
    cases item with
    | global x =>
      exact .bind (linkGlobal_adds hmodule rfl hitem h.grows).forget fun _ _ hadds ↦
        .pure (h.add hadds)
    | _ => cases hkind
  | memory l =>
    cases item with
    | memory r =>
      refine .bind (resolve_binds h.grows).forget ?_
      rintro addr t₁ ⟨rfl, rfl⟩
      refine .get_bind ?_
      split
      · exact .throw trivial
      · rename_i x hx
        have hold := h.memories_eq ▸ hx
        have hlt := (Array.getElem?_eq_some_iff.mp hold).1
        refine .bind (checkLimits_adds hmodule hitem ?_ hlt (.memory hlt)).forget fun _ _ hadds ↦
          .pure (h.add hadds)
        simp [ImportDesc.Accepts, Store.ref, hold]
    | _ => cases hkind
  | table l =>
    cases item with
    | table r =>
      refine .bind (resolve_binds h.grows).forget ?_
      rintro addr t₁ ⟨rfl, rfl⟩
      refine .get_bind ?_
      split
      · exact .throw trivial
      · rename_i x hx
        have hold := h.tables_eq ▸ hx
        have hlt := (Array.getElem?_eq_some_iff.mp hold).1
        refine .bind (checkLimits_adds hmodule hitem ?_ hlt (.table hlt)).forget fun _ _ hadds ↦
          .pure (h.add hadds)
        simp [ImportDesc.Accepts, Store.ref, hold]
    | _ => cases hkind

/-! ## All items -/

theorem foldlM_provides {α : Type} {f : IndexSpaces → α → Link IndexSpaces} {mk : α → Item}
    {l : List α} {before : List Item} {E : α → InstantiationError → Store → Prop}
    (hstep : ∀ a ∈ l, ∀ done sp t, Provided s m imports (before ++ done) sp t →
      Ensures (f sp a) t (Adds s m imports (mk a) sp t) (E a))
    (h : Provided s m imports before sp t) :
    Ensures (l.foldlM f sp) t (Provided s m imports (before ++ l.map mk)) fun _ _ ↦ True := by
  refine .foldlM (fun done ↦ Provided s m imports (before ++ done.map mk))
    (fun done a rest sp t hl h ↦ ?_) (by simpa using h)
  have ha : a ∈ l := hl ▸ List.mem_append_right done List.mem_cons_self
  rw [List.map_append, ← List.append_assoc]
  exact (hstep a ha _ sp t h).mono (fun _ _ hadds ↦ h.add hadds) fun _ _ _ ↦ trivial

theorem imports_provide : Ensures (m.imports.foldlM (bindImport m imports) {}) s
    (Provided s m imports (m.imports.map .imported)) fun _ _ ↦ True :=
  .foldlM (fun imps ↦ Provided s m imports (imps.map .imported))
    (fun _ _ _ _ _ _ h ↦ bindImport_provides h) .nil

variable {before : List Item}

theorem code_provides (h : Provided s m imports before sp t) :
    Ensures (m.code.foldlM (defineFunc s.instances.size) sp) t
      (Provided s m imports (before ++ m.code.map .code)) fun _ _ ↦ True :=
  foldlM_provides (E := fun _ _ _ ↦ True) (fun _ _ _ _ _ h ↦ defineFunc_adds h.grows) h

theorem tables_provide (hm : ∀ l ∈ m.tableSpace, l.Ordered)
    (h : Provided s m imports before sp t) :
    Ensures (m.tables.foldlM defineTable sp) t
      (Provided s m imports (before ++ m.tables.map .table)) fun _ _ ↦ True :=
  foldlM_provides (fun l hl _ _ _ h ↦
    defineTable_adds (hm l (List.mem_append_right _ hl)) h.grows) h

theorem memories_provide (hm : ∀ l ∈ m.memorySpace, l.Ordered)
    (h : Provided s m imports before sp t) :
    Ensures (m.memories.foldlM defineMemory sp) t
      (Provided s m imports (before ++ m.memories.map .memory)) fun _ _ ↦ True :=
  foldlM_provides (fun l hl _ _ _ h ↦
    defineMemory_adds (hm l (List.mem_append_right _ hl)) h.grows) h

theorem globals_provide (hm : m.Valid)
    (h : Provided s m imports (m.imports.map .imported ++ before) sp t) :
    Ensures (m.globals.foldlM defineGlobal sp) t
      (Provided s m imports (m.imports.map .imported ++ before ++ m.globals.map .global))
      fun _ _ ↦ True := by
  refine foldlM_provides (E := fun _ _ _ ↦ True) (fun g hg done sp t h ↦ ?_) h
  rw [List.append_assoc] at h
  exact defineGlobal_adds (hm.globals g hg) h.grows (h.bound .global nofun)

/-! ## Exports and instances -/

/-- An exported global is found not to be mutable. -/
theorem bindExport_fixes {e : Export} :
    Ensures (bindExport sp e) t (fun p t' ↦ t' = t ∧ e.Fixes t sp p) fun _ _ ↦ True := by
  obtain ⟨name, kind, index⟩ := e
  have haddress {space : Array Nat} {what : Referent} :
      Ensures (addressIn space what index) t (fun addr t' ↦ t' = t ∧ space[index]? = some addr)
        fun _ _ ↦ True := by
    unfold addressIn
    split
    · rename_i addr haddr
      exact .pure ⟨rfl, haddr⟩
    · exact .throw trivial
  suffices hexport : Ensures (exportItem sp ⟨name, kind, index⟩) t
      (fun x t' ↦ t' = t ∧ Export.Fixes t sp ⟨name, kind, index⟩ (name, x)) fun _ _ ↦ True from
    .bind hexport fun x t' hx ↦ .pure hx
  cases kind with
  | global =>
    simp only [exportItem, globalAt]
    refine .bind (Q := fun g t' ↦ t' = t ∧ ∃ addr, sp.globals[index]? = some addr ∧
      t.globals[addr]? = some g) ?_ ?_
    · split
      · exact .throw trivial
      · rename_i addr haddr
        refine .get_bind ?_
        split
        · exact .throw trivial
        · rename_i g hg
          exact .pure ⟨rfl, addr, haddr, hg⟩
    · rintro g t' ⟨rfl, addr, haddr, hg⟩
      refine .ite (fun _ ↦ .throw_bind trivial) fun hmutable ↦ ?_
      split
      · rename_i x hx
        refine .pure ⟨rfl, ⟨rfl, addr, haddr, ?_⟩, fun _ ↦ ⟨addr, g, haddr, hg, ?_⟩⟩
        · simp [Store.extern?, hg, hx, Except.toOption]
        · simpa using hmutable
      · exact .throw trivial
  | _ =>
    refine .get_bind (.bind haddress ?_)
    rintro addr t' ⟨rfl, haddr⟩
    exact .pure ⟨rfl, ⟨rfl, addr, haddr, rfl⟩, fun h ↦ ExternKind.noConfusion h⟩

/-- What the new instance has been provided with, whatever was supplied. -/
structure Provides (s : Store) (m : Module) (imports : Imports) (t : Store) (i : Instance) :
    Prop where
  module : i.module = m
  only : ∀ {a : Nat} {i' : Instance}, t.instances[a]? = some i' →
    s.instances[a]? = some i' ∨ i' = i
  items : Provided s m imports m.items i.toIndexSpaces t
  exports : List.Forall₂ (Export.Fixes t i.toIndexSpaces) m.exports i.exports

/-- The instances that a store has when linking is over. -/
theorem getElem?_instances {insts : Array Instance} {i i' record : Instance} {a : Nat}
    (h : ((insts.push i).setIfInBounds insts.size record)[a]? = some i') :
    insts[a]? = some i' ∨ i' = record := by
  rw [Array.getElem?_setIfInBounds, Array.getElem?_push] at h
  split at h
  · rename_i ha
    rw [if_pos (by simp)] at h
    exact .inr (Option.some.inj h).symm
  · rename_i ha
    rw [if_neg (Ne.symm ha)] at h
    exact .inl h

/-- Whatever was supplied, every check is made that concerns tables, memories, globals and
exports. -/
theorem link_provides (hs : s.WellFormed) (hm : m.Decoded) {r : Nat × SegmentPlan}
    (hrun : (link m imports).run s = .ok r t) : ∃ i, Provides s m imports t i := by
  have hvalid := hm.valid
  obtain ⟨config, bytes, hdecode⟩ := id hm
  have hordered := Module.wellFormed_of_decode hdecode
  have hgrows := ((link_ensures hs hm).of_ok hrun).grows
  simp only [link, run_bind_eq_ok, run_modify_eq_ok, run_pure_eq_ok] at hrun
  obtain ⟨sp₁, t₁, himports, inst, t₂, hinst, sp₂, t₃, hcode, sp₃, t₄, htables, sp₄, t₅, hmemories,
    sp, t₆, hglobals, exports, t₇, hexports, elements, t₈, helements, data, t₉, hdata, _, t₁₀,
    rfl, -, rfl⟩ := hrun
  -- The chain that keeps the store well formed says where the instances stand.
  have h₁ := (imports_ensures hs hvalid).of_ok himports
  obtain ⟨rfl, hunderway, hext⟩ :=
    (addInstance_ensures (E := fun _ _ ↦ True) h₁.underway).of_ok hinst
  have h₂ : Assembled s m (s.instances.push { module := m }) m.importedFuncs m.importedTables
      m.importedMemories m.importedGlobals [] sp₁ t₂ := ⟨hunderway, h₁.binds.mono hext, by simp⟩
  have h₃ := Ensures.of_ok (E := Refused s imports) (code_ensures hvalid h₂) hcode
  have h₄ := Ensures.of_ok (E := Refused s imports) (tables_ensures h₃) htables
  have h₅ := Ensures.of_ok (E := Refused s imports) (memories_ensures h₄) hmemories
  have h₆ := Ensures.of_ok (E := Refused s imports) (globals_ensures hvalid h₅) hglobals
  obtain ⟨rfl, hfixes⟩ := (Ensures.mapM fun e _ ↦ bindExport_fixes).of_ok hexports
  obtain ⟨rfl, -⟩ := Ensures.of_ok (E := Refused s imports)
    (.mapM fun seg hseg ↦ planElement_ensures h₆ (hvalid.elements seg hseg)) helements
  obtain ⟨rfl, -⟩ := Ensures.of_ok (E := Refused s imports)
    (.mapM fun seg hseg ↦ planData_ensures h₆ (hvalid.data seg hseg)) hdata
  -- The items are gone through along with it.
  have p₁ := imports_provide.of_ok himports
  have p₂ : Provided s m imports (m.imports.map .imported) sp₁ t₂ := by
    obtain ⟨-, rfl⟩ := Prod.mk.inj (run_modifyGet_eq_ok.mp hinst)
    exact p₁.congr hunderway.grows rfl rfl rfl List.prefix_rfl
  have p₃ := (code_provides p₂).of_ok hcode
  have p₄ := (tables_provide hordered.tables p₃).of_ok htables
  have p₅ := (memories_provide (fun l hl ↦ (hordered.memories l hl).1) p₄).of_ok hmemories
  simp only [List.append_assoc] at p₅
  have p₆ := (globals_provide hvalid p₅).of_ok hglobals
  have hitems : Provided s m imports m.items sp t₉ := by
    simpa only [items, List.append_assoc] using p₆
  exact ⟨{ toIndexSpaces := sp, module := m, exports }, {
    module := rfl
    only := fun hi ↦ getElem?_instances (h₆.underway.instances ▸ hi)
    items := hitems.congr hgrows rfl rfl rfl List.prefix_rfl
    exports := hfixes }⟩

/-- What a store has gained is bound to an item. -/
theorem Provided.exists_new (h : Provided s m imports done sp t) {k : ExternKind} (hk : k ≠ .func)
    {addr : Nat} (hnew : s.count k ≤ addr) (hlt : addr < t.count k) :
    ∃ item ∈ done, item.kind = k ∧ item.Bound s m imports t addr := by
  have hmem : addr ∈ (sp.space k).toList.filter (s.count k ≤ ·) := by
    rw [h.fresh k hk, List.mem_range'_1]
    omega
  obtain ⟨item, hitem, hbound⟩ :=
    forall₂_exists_left (h.bound k hk) (List.mem_filter.mp hmem).1
  obtain ⟨hitem, hkind⟩ := List.mem_filter.mp hitem
  exact ⟨item, hitem, of_decide_eq_true hkind, hbound⟩

end Link

/-- An instance was there before a change, or linking has made it. -/
theorem Store.Change.instance_cases {s t : Store} (h : s.Change t) (hs : s.WellFormed) {a : Nat}
    {i : Instance} (hi : t.instances[a]? = some i) :
    s.instances[a]? = some i ∨ ∃ m imports r t', m.Decoded ∧
      (Link.link m imports).run s = .ok r t' ∧ Link.Provides s m imports t' i ∧
        t = r.2.apply t' := by
  cases h with
  | count h =>
    obtain ⟨depth, journal, rfl⟩ := h
    exact .inl hi
  | statement _ h => cases h <;> exact .inl hi
  | query q =>
    obtain ⟨tables, memories, heq⟩ := s.answer_eq q
    rw [heq] at hi
    exact .inl hi
  | newFunc type _ => exact .inl hi
  | @link m imports r t' _ hm h =>
    obtain ⟨i', hprovides⟩ := Link.link_provides hs hm h.linked
    obtain ⟨tables, memories, heq⟩ := r.2.apply_eq t'
    rw [heq] at hi
    obtain hold | rfl := hprovides.only hi
    · exact .inl hold
    · exact .inr ⟨m, imports, r, t', hm, h.linked, hprovides, rfl⟩

end WasmEngine
