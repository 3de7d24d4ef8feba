import WasmEngine.Proofs.Compatibility

/-!
# References stay in their store

References of different stores share the same small addresses, so what keeps them apart is the
identity of the store alone. An operation looks at it before it looks anything up: to a store with
another identity the reference stands for nothing. So what the operation comes to can be said
without the store, and no item at the same address is read or written.

An instantiation meets the reference only when its turn comes among the imports. Functions and
globals may have been added for the imports before it, and they are dropped again.
-/

namespace WasmEngine

/-! ## Queries -/

/-- The references that a query is asked with. -/
def Query.given : Query → List Handle
  | .exports i | .exportOf i _ => [⟨.inst, i⟩]
  | .funcType f => [⟨.func, f⟩]
  | .newMemory _ _ | .newTable _ _ => []
  | .memorySize m | .memoryMaximum m | .memoryRead m _ _ | .memoryWrite m _ _ | .memoryGrow m _ =>
    [⟨.memory, m⟩]
  | .tableSize t | .tableMaximum t | .tableGet t _ | .tableGrow t _ => [⟨.table, t⟩]
  | .tableSet t _ f => ⟨.table, t⟩ :: f.toList.map (⟨.func, ·⟩)

/-- The reply of a store of the given identity to a query that is asked with a reference into
another one. Nothing that the store holds is used. -/
def Query.refusal (id : Nat) : (q : Query) → q.Reply
  | .exports _ => []
  | .exportOf _ _ => none
  | .funcType _ => none
  | .newMemory _ _ | .memorySize _ | .memoryMaximum _ | .memoryRead _ _ _ | .memoryWrite _ _ _
  | .memoryGrow _ _ => .error (.badHandle .memory)
  | .newTable _ _ | .tableSize _ | .tableMaximum _ | .tableGet _ _ | .tableGrow _ _ =>
    .error (.badHandle .table)
  | .tableSet t _ _ => .error (.badHandle (if t.store = id then .func else .table))

namespace Store

variable {s : Store}

theorem resolve_of_foreign {arena : Arena} {r : Ref arena} (h : r.store ≠ s.id) :
    s.resolve r = none := if_neg h

theorem findInstance_of_foreign {r : Ref .inst} (h : r.store ≠ s.id) : s.findInstance r = none := by
  rw [findInstance, resolve_of_foreign h]
  rfl

theorem memory_of_foreign {r : Ref .memory} (h : r.store ≠ s.id) :
    s.memory r = .error (.badHandle .memory) := by
  rw [memory, resolve_of_foreign h]

theorem table_of_foreign {r : Ref .table} (h : r.store ≠ s.id) :
    s.table r = .error (.badHandle .table) := by
  rw [table, resolve_of_foreign h]

theorem exports_of_foreign {r : Ref .inst} (h : r.store ≠ s.id) : s.exports r = [] := by
  rw [exports, findInstance_of_foreign h]

/-- The table is looked at before the function that is to stand in it. -/
theorem tableSet_of_foreign {t : Ref .table} {index : Nat} {f : Option (Ref .func)}
    (h : t.store ≠ s.id ∨ ∃ r ∈ f, r.store ≠ s.id) :
    s.tableSet t index f = .error (.badHandle (if t.store = s.id then .func else .table)) := by
  by_cases ht : t.store = s.id
  · obtain ⟨r, rfl, hr⟩ := h.resolve_left fun hne ↦ hne ht
    rw [if_pos ht, tableSet, resolve, if_pos ht, Option.mapM_some, elementAddress,
      resolve_of_foreign hr]
    rfl
  · rw [if_neg ht, tableSet, resolve_of_foreign ht]
    rfl

theorem answer_of_foreign {q : Query} {h : Handle} (hq : h ∈ q.given) (hid : h.2.store ≠ s.id) :
    s.answer q = (q.refusal s.id, s) := by
  cases q with
  | newMemory initial maximum | newTable initial maximum => cases hq
  | exports i | exportOf i name =>
    obtain rfl := List.mem_singleton.mp hq
    simp only [answer, exports_of_foreign hid, exportOf, findInstance_of_foreign hid]
    rfl
  | funcType f =>
    obtain rfl := List.mem_singleton.mp hq
    simp only [answer, funcType, resolve_of_foreign hid]
    rfl
  | memorySize m | memoryMaximum m | memoryRead m addr len | memoryWrite m addr bytes
  | memoryGrow m delta =>
    obtain rfl := List.mem_singleton.mp hq
    simp only [answer, memorySize, memoryMaximum, memoryRead, memoryWrite, memoryGrow,
      memory_of_foreign hid]
    rfl
  | tableSize t | tableMaximum t | tableGet t index | tableGrow t delta =>
    obtain rfl := List.mem_singleton.mp hq
    simp only [answer, tableSize, tableMaximum, tableGet, tableGrow, table_of_foreign hid]
    rfl
  | tableSet t index f =>
    have hforeign : t.store ≠ s.id ∨ ∃ r ∈ f, r.store ≠ s.id := by
      cases hq with
      | head => exact .inl hid
      | tail _ hf =>
        obtain ⟨r, hr, rfl⟩ := List.mem_map.mp hf
        exact .inr ⟨r, Option.mem_toList.mp hr, hid⟩
    simp only [answer, tableSet_of_foreign hforeign]
    rfl

end Store

/-! ## Calls -/

theorem Operation.call_of_foreign {s : Store} {f : Ref .func} (h : f.store ≠ s.id)
    (args : List Number) : Operation.call s f args = (.settled (.error (.badHandle .func)), s) := by
  rw [Operation.call, Store.resolve_of_foreign h]

theorem Operation.callValues_of_foreign {s : Store} {f : Ref .func} (h : f.store ≠ s.id)
    (args : List Value) :
    Operation.callValues s f args = (.settled (.error (.badHandle .func)), s) := by
  rw [Operation.callValues, Store.resolve_of_foreign h]

/-! ## Instantiations -/

/-- Why an import is refused for which the imports hold a reference into another store. -/
def Imports.refusal (imports : Imports) (imp : Import) (item : Extern) : LinkError :=
  if !imports.hasModule imp.module then .missingModule imp.module
  else if item.kind ≠ imp.desc.kind then
    .badImport imp.module imp.name (.kindMismatch imp.desc.kind item.kind)
  else .badImport imp.module imp.name .foreignHandle

namespace Link

variable {t : Store} {m : Module} {imports : Imports} {imp : Import} {item : Extern} {h : Handle}

/-- The item gets past the checks that look at names and kinds only, or it is refused by them. -/
theorem importedItem_of_get (hitem : imports.get? imp.module imp.name = some item) :
    Ensures (importedItem imports imp) t
      (fun x t' ↦ x = item ∧ t' = t ∧ item.kind = imp.desc.kind ∧
        imports.refusal imp item = .badImport imp.module imp.name .foreignHandle)
      (fun e _ ↦ e = .link (imports.refusal imp item)) := by
  unfold Imports.refusal
  refine .ite (fun hmodule ↦ .throw_bind ?_) fun hmodule ↦ ?_
  · rw [if_pos hmodule]
  · rw [if_neg hmodule]
    simp only [hitem]
    refine .ite (fun hkind ↦ .throw_bind ?_) fun hkind ↦ .pure ⟨rfl, rfl, not_not.mp hkind, ?_⟩
    · rw [if_pos hkind]
    · rw [if_neg hkind]

theorem resolve_of_foreign {arena : Arena} {r : Ref arena} (hr : r.store ≠ t.id) :
    Ensures (resolve imp r) t (fun _ _ ↦ False)
      (fun e _ ↦ e = .link (.badImport imp.module imp.name .foreignHandle)) := by
  refine .get_bind ?_
  rw [Store.resolve_of_foreign hr]
  exact .throw rfl

theorem bindImport_of_foreign (htype : ∀ type, imp.desc = .func type → type < m.types.length)
    (hitem : imports.get? imp.module imp.name = some item) (hh : h ∈ item.handle?)
    (hid : h.2.store ≠ t.id) {sp : IndexSpaces} :
    Ensures (bindImport m imports sp imp) t (fun _ _ ↦ False)
      (fun e _ ↦ e = .link (imports.refusal imp item)) := by
  refine .bind (importedItem_of_get hitem) fun x t' hx ↦ ?_
  obtain ⟨rfl, rfl, hkind, hrefusal⟩ := hx
  rw [hrefusal]
  split
  · rename_i type f hdesc
    cases hh
    rw [List.getElem?_eq_getElem (htype type hdesc)]
    exact .bind_of_fails (resolve_of_foreign hid)
  · cases hh
  · cases hh
    exact .bind_of_fails (resolve_of_foreign hid)
  · cases hh
    exact .bind_of_fails (resolve_of_foreign hid)
  · rename_i item _ _ hfunc hglobal hmemory htable
    -- The kinds agree, so one of the four cases above applies.
    cases hdesc : imp.desc <;> cases item <;> simp_all [ImportDesc.kind, Extern.kind]

end Link

/-! ## Two stores -/

/-- How operations on the store of a world meet the references into a store of the identity `id`.
Those that may run code are settled at once, for the embedder and for a host program that asks for
them. -/
structure World.Rejects (w : World) (id : Nat) : Prop where
  answer {q : Query} {h : Handle} : h ∈ q.given → h.2.store = id →
    w.store.answer q = (q.refusal w.store.id, w.store)
  memoryBytes {r : Ref .memory} : r.store = id →
    w.store.memoryBytes r = .error (.badHandle .memory)
  call {f : Ref .func} : f.store = id → ∀ args,
    Operation.call w.store f args = (.settled (.error (.badHandle .func)), w.store) ∧
    ∀ fuel, w.store.call fuel f args = some (.error (.badHandle .func), w.store)
  callValues {f : Ref .func} : f.store = id → ∀ args,
    Operation.callValues w.store f args = (.settled (.error (.badHandle .func)), w.store) ∧
    ∀ fuel, w.store.callValues fuel f args = some (.error (.badHandle .func), w.store)
  /-- Defining the exports of an instance makes the module name known and defines no item. -/
  defineAll {i : Ref .inst} : i.store = id → ∀ (imports : Imports) module,
    imports.defineAll module (w.store.exports i) =
      { imports with modules := module :: imports.modules }
  /-- A module for which the reference is an import is refused by the time that import is bound, for
  what names and kinds say or because the reference is foreign. -/
  instantiate {m : Module} {imports : Imports} {before after : List Import} {imp : Import}
      {item : Extern} {h : Handle} : m.Decoded → w.Supplies imports →
    m.imports = before ++ imp :: after → imports.get? imp.module imp.name = some item →
    h ∈ item.handle? → h.2.store = id →
    w.store.RefusesAfter m imports before (imports.refusal imp item)

/-- A reachable world takes nothing of another store for its own: queries and calls with a reference
of that store fail and change nothing, and an instantiation that comes upon one is undone. -/
theorem World.Reachable.rejects_foreign {w : World} (hw : w.Reachable) {s : Store}
    (hne : s.id ≠ w.store.id) : w.Rejects s.id where
  answer hq hid := Store.answer_of_foreign hq (hid.trans_ne hne)
  memoryBytes hid := by
    rw [Store.memoryBytes, Store.memory_of_foreign (hid.trans_ne hne)]
    rfl
  call hid args := by
    have hcall := Operation.call_of_foreign (hid.trans_ne hne) args
    refine ⟨hcall, fun fuel ↦ ?_⟩
    rw [Store.call, hcall]
    rfl
  callValues hid args := by
    have hcall := Operation.callValues_of_foreign (hid.trans_ne hne) args
    refine ⟨hcall, fun fuel ↦ ?_⟩
    rw [Store.callValues, hcall]
    rfl
  defineAll hid imports module := by
    rw [Store.exports_of_foreign (hid.trans_ne hne)]
    rfl
  instantiate {m imports before after imp item h} hm himports hsplit hitem hh hid := by
    have himp : imp ∈ m.imports := by simp [hsplit]
    refine hw.sound.wellFormed.refusesAfter hm himports.knownTo hsplit fun sp t hgrows ↦ ?_
    refine Link.bindImport_of_foreign (Link.import_type_lt hm.valid himp) hitem hh ?_
    rw [hgrows.id]
    exact hid.trans_ne hne

/-- Another store, which has a table and a function at the same addresses. -/
def strangeStore : Store :=
  ((Store.newFunc { id := 1 } none idleFunc).2.answer (.newTable 4 (some 4))).2

/-- What the store `suppliedStore` can use, except that the table is the one of the other store. -/
def strangeImports : Imports := (suppliedImports (.ofInt 1)).define "e" "t" (.table ⟨1, 0⟩)

/-- The table of the other store is not taken for the one at the same address, and an instantiation
that comes upon it after it has bound a function and a global drops them again. -/
theorem suppliedStore_rejects_foreign :
    (World.idle suppliedStore).Reachable ∧ strangeStore.id ≠ suppliedStore.id ∧
      (strangeStore.answer (.tableSize ⟨1, 0⟩)).1 = .ok 4 ∧
      (suppliedStore.answer (.tableSize ⟨0, 0⟩)).1 = .ok 4 ∧
      suppliedStore.answer (.tableSize ⟨1, 0⟩) = (.error (.badHandle .table), suppliedStore) ∧
      ∃ m, Module.decode {} importingBinary = .ok m ∧
        (World.idle suppliedStore).Supplies strangeImports ∧
        ∀ fuel, suppliedStore.instantiate fuel m strangeImports =
          some (.error (.link (.badImport "e" "t" .foreignHandle)), suppliedStore) := by
  have hne : strangeStore.id ≠ suppliedStore.id := by decide +kernel
  have hrejects := suppliedStore_reachable.rejects_foreign hne
  have hresults : ((Module.decode {} importingBinary).toOption.map fun m ↦
      (m.imports, (suppliedStore.instantiate 0 m strangeImports).map Prod.fst)) =
      some ([⟨"e", "f", .func 0⟩, ⟨"e", "g", .global ⟨.i32, false⟩⟩, ⟨"e", "t", .table ⟨1, some 4⟩⟩,
        ⟨"e", "f", .func 0⟩], some (.error (.link (.badImport "e" "t" .foreignHandle)))) := by
    decide +kernel
  obtain ⟨m, hdecode, hresults⟩ := Option.map_eq_some_iff.mp hresults
  injection hresults with himports hrefused
  have hdecode := except_toOption_eq_some hdecode
  have hsupplies : (World.idle suppliedStore).Supplies strangeImports := by
    intro p hp h hh hid
    cases hp with
    | head =>
      cases hh
      exact absurd hid (by decide +kernel)
    | tail _ hp => exact suppliedStore_supplies _ p hp h hh hid
  have hsplit : m.imports =
      [⟨"e", "f", .func 0⟩, ⟨"e", "g", .global ⟨.i32, false⟩⟩] ++
        ⟨"e", "t", .table ⟨1, some 4⟩⟩ :: [⟨"e", "f", .func 0⟩] := himports
  have hitem : strangeImports.get? "e" "t" = some (.table ⟨1, 0⟩) := by decide +kernel
  obtain ⟨e, -, hfuel, -⟩ :=
    hrejects.instantiate ⟨_, _, hdecode⟩ hsupplies hsplit hitem rfl (by decide +kernel)
  cases (congrArg (Option.map Prod.fst) (hfuel 0)).symm.trans hrefused
  exact ⟨suppliedStore_reachable, hne, by decide +kernel, by decide +kernel,
    hrejects.answer (List.mem_singleton.mpr rfl) (by decide +kernel), m, hdecode, hsupplies, hfuel⟩

end WasmEngine
