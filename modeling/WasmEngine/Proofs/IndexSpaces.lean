import WasmEngine.Proofs.Compatibility
import WasmEngine.Proofs.Evolution

/-!
# Instances follow their declarations

Each index space of a new instance holds what the module imports and then what it defines, in the
order of declaration. Tables, memories and functions with a type are the very ones that were
supplied, and everything else is new. The exports stand for the items at the exported indices, and
go on doing so, because no global that is exported ever changes.
-/

namespace WasmEngine

/-- An instance takes the item as it is, rather than something new in its place. -/
def Extern.SharedBy (s : Store) : Extern → Prop
  | .func f => ∃ type, s.funcType f = some type
  | .table _ | .memory _ => True
  | .global _ => False

/-- The instance `i` follows the declarations of its module in the store `s'`. It was made by
linking in the store `s`, which led to the store `t`. -/
structure Instance.Follows (s : Store) (imports : Imports) (t s' : Store) (ref : Ref .inst)
    (i : Instance) : Prop where
  new : ref = s.ref s.instances.size
  found : s'.findInstance ref = some i
  ext : t.Extends s'
  spaces : ∀ k, List.Forall₂ (Module.Item.Bound s i.module imports t) (i.module.itemsOf k)
    (i.space k).toList
  /-- The new addresses of an index space are those that its arena has gained. -/
  fresh : ∀ k, (i.space k).toList.filter (s.count k ≤ ·) =
    List.range' (s.count k) (t.count k - s.count k)
  distinct : ∀ k, ((i.space k).toList.filter (s.count k ≤ ·)).Nodup
  exports : List.Forall₂ (Export.Names s' i.toIndexSpaces) i.module.exports (s'.exports ref)
  exportOf : ∀ e ∈ i.module.exports, ∃ addr item, (i.space e.kind)[e.index]? = some addr ∧
    s'.extern? addr e.kind = some item ∧ s'.exportOf ref e.name = some item
  /-- What is imported and taken as it is can be exported again as the same. -/
  reexports : ∀ e ∈ i.module.exports, ∀ imp ∈ (i.module.importsOf e.kind)[e.index]?,
    ∀ item ∈ imports.get? imp.module imp.name, item.SharedBy s → s'.exportOf ref e.name = some item

/-! ## Exports -/

/-- Items that are named by exports with different names can be looked up. -/
theorem lookup_of_names {t : Store} {sp : IndexSpaces} {es : List Export}
    {items : List (String × Extern)} (h : List.Forall₂ (Export.Names t sp) es items)
    (hnames : (es.map (·.name)).Nodup) {e : Export} (he : e ∈ es) :
    ∃ item, items.lookup e.name = some item ∧ e.Names t sp (e.name, item) := by
  have hkeys : items.map Prod.fst = es.map (·.name) := by
    clear hnames he
    induction h with
    | nil => rfl
    | cons hname _ ih => rw [List.map_cons, List.map_cons, hname.1, ih]
  obtain ⟨⟨name, item⟩, hitem, rfl, hnames'⟩ := forall₂_exists_right h he
  exact ⟨item, lookup_of_mem (hkeys ▸ hnames) hitem, rfl, hnames'⟩

/-- What stands outside for an item stays the same, except for mutable globals. -/
theorem Store.extern?_eq {t t' : Store} (hid : t'.id = t.id) (hkeeps : t.KeepsConstants t')
    {addr : Nat} {k : ExternKind}
    (hconst : k = .global → ∃ g, t.globals[addr]? = some g ∧ g.type.isMutable = false) :
    t'.extern? addr k = t.extern? addr k := by
  cases k with
  | global =>
    obtain ⟨g, hg, hg'⟩ := hconst rfl
    simp only [extern?, hg, hkeeps hg hg']
  | _ => simp only [extern?, ref, hid]

/-- Imports come first. -/
theorem Module.getElem?_itemsOf {m : Module} {k : ExternKind} {index : Nat} {imp : Import}
    (h : (m.importsOf k)[index]? = some imp) : (m.itemsOf k)[index]? = some (.imported imp) := by
  have hlt := (List.getElem?_eq_some_iff.mp h).1
  rw [itemsOf, List.getElem?_append_left (by simpa using hlt), List.getElem?_map]
  exact congrArg (Option.map Item.imported) h

namespace Link

open WasmEngine.Module

variable {s t : Store} {m : Module} {imports : Imports}

/-- Once linking is done, its instance is in place. -/
theorem exists_assigned (hs : s.WellFormed) (hm : m.Decoded) (hknown : imports.KnownTo s)
    {r : Nat × SegmentPlan} (hrun : (link m imports).run s = .ok r t) :
    r.1 = s.instances.size ∧ ∃ i, t.instances[r.1]? = some i ∧ Assigns s m imports t i := by
  obtain ⟨-, hnew, t₀, i, h, rfl⟩ := (link_assigns hs hm hknown).of_ok hrun
  have hlinked := (link_ensures hs hm).of_ok hrun
  obtain ⟨i', hi', -⟩ := hlinked.inst
  have hi : i' = i := by
    rw [Array.getElem?_setIfInBounds_self] at hi'
    split at hi'
    · exact (Option.some.inj hi').symm
    · cases hi'
  subst hi
  exact ⟨hnew, i', hi', h.module, h.bindings.withInstances hlinked.grows, h.exports⟩

/-- Writing segments after linking changes no item other than in its place. -/
theorem extends_apply (hs : s.WellFormed) (hm : m.Decoded) {r : Nat × SegmentPlan}
    (hrun : (link m imports).run s = .ok r t) : t.Extends (r.2.apply t) := by
  have hlinked := (link_ensures hs hm).of_ok hrun
  obtain ⟨i, hi, -, hcovers⟩ := hlinked.inst
  have htyped := hcovers.typed (hlinked.wellFormed.instances hi)
  exact (apply_kept hlinked.wellFormed htyped).1.ext

/-- An exported global is not mutable. -/
theorem Assigns.exists_constant {i : Instance} (hm : m.Decoded) (hc : m.Compatible s imports)
    (h : Assigns s m imports t i) {e : Export} (he : e ∈ m.exports) {addr : Nat}
    (haddr : (i.space e.kind)[e.index]? = some addr) (hkind : e.kind = .global) :
    ∃ g, t.globals[addr]? = some g ∧ g.type.isMutable = false := by
  obtain ⟨item, addr', hitem, haddr', hbound⟩ :=
    h.bindings.exists_bound hm.valid (hm.valid.exports e he)
  obtain rfl := Option.some.inj (haddr'.symm.trans haddr)
  rw [hkind] at hitem
  obtain ⟨g, -, hg, htype, -⟩ := hbound.exists_global hm (List.mem_of_getElem? hitem)
  rw [← globalType?_itemsOf hm.valid.counted hitem] at htype
  exact ⟨g, hg, hc.exports e he hkind g.type htype⟩

/-- The exports go on naming the items at their indices. -/
theorem Assigns.exports_name {i : Instance} {s' : Store} (hm : m.Decoded)
    (hc : m.Compatible s imports) (h : Assigns s m imports t i) (hid : s'.id = t.id)
    (hkeeps : t.KeepsConstants s') :
    List.Forall₂ (Export.Names s' i.toIndexSpaces) m.exports i.exports := by
  refine ((List.forall₂_and_left _ _).mpr ⟨fun _ he ↦ he, h.exports⟩).imp ?_
  rintro e p ⟨he, hname, addr, haddr, hp⟩
  refine ⟨hname, addr, haddr, ?_⟩
  rw [Store.extern?_eq hid hkeeps fun hkind ↦ h.exists_constant hm hc he haddr hkind, hp]

/-- An import that is taken as it is is bound to what was supplied. -/
theorem extern?_of_shared {imp : Import} {item : Extern} {addr : Nat} {s' : Store}
    (hid : s'.id = s.id) (hbound : (Item.imported imp).Bound s m imports t addr)
    (hitem : imports.get? imp.module imp.name = some item) (hshared : item.SharedBy s) :
    s'.extern? addr imp.desc.kind = some item := by
  obtain ⟨module, name, desc⟩ := imp
  cases hbound with
  | imported hitem' hbinds =>
    obtain rfl := Option.some.inj (hitem.symm.trans hitem')
    cases hbinds with
    | untyped _ hfid hfunc _ _ =>
      obtain ⟨type, htype⟩ := hshared
      simp [Store.funcType, Store.resolve, hfid, hfunc, Callable.type?] at htype
    | global => exact hshared.elim
    | _ => simp only [ImportDesc.kind, Store.extern?, Store.ref, hid]

/-- The instance that linking makes follows the declarations of its module, whatever happens to the
store from then on. -/
theorem Assigns.follows {i : Instance} {s' : Store} (hm : m.Decoded)
    (hc : m.Compatible s imports) (h : Assigns s m imports t i)
    (hi : t.instances[s.instances.size]? = some i) (hext : t.Extends s')
    (hkeeps : t.KeepsConstants s') : i.Follows s imports t s' (s.ref s.instances.size) := by
  obtain rfl : i.module = m := h.module
  have hid : s'.id = s.id := hext.id.trans h.bindings.grows.id
  have hfound : s'.findInstance (s.ref s.instances.size) = some i := by
    simp [Store.findInstance, Store.resolve, Store.ref, hid, hext.instances hi]
  have hexports := h.exports_name hm hc hext.id hkeeps
  have hspaces (k : ExternKind) : List.Forall₂ (Item.Bound s i.module imports t)
      (i.module.itemsOf k) (i.space k).toList := by
    rw [← filter_items]
    exact h.bindings.bound k
  obtain ⟨config, bytes, hdecode⟩ := hm
  have hlookup {e : Export} (he : e ∈ i.module.exports) :
      ∃ item, s'.exportOf (s.ref s.instances.size) e.name = some item ∧
        e.Names s' i.toIndexSpaces (e.name, item) := by
    simp only [Store.exportOf, hfound, Option.bind_eq_bind, Option.bind_some]
    exact lookup_of_names hexports (Module.wellFormed_of_decode hdecode).exportNames he
  exact {
    new := rfl
    found := hfound
    ext := hext
    spaces := hspaces
    fresh := h.bindings.fresh
    distinct k := by
      rw [h.bindings.fresh]
      exact List.nodup_range'
    exports := by
      simp only [Store.exports, hfound]
      exact hexports
    exportOf e he := by
      obtain ⟨item, hitem, -, addr, haddr, hextern⟩ := hlookup he
      exact ⟨addr, item, haddr, hextern, hitem⟩
    reexports e he imp himp item hitem hshared := by
      obtain ⟨item', hitem', -, addr, haddr, hextern⟩ := hlookup he
      have hindex := getElem?_itemsOf himp
      obtain ⟨addr', haddr', hbound⟩ := forall₂_getElem?_left (hspaces e.kind) hindex
      rw [Array.getElem?_toList] at haddr'
      obtain rfl := Option.some.inj (haddr'.symm.trans haddr)
      have hkind := kind_of_mem_itemsOf (List.mem_of_getElem? hindex)
      rw [hitem', ← hextern, ← hkind]
      exact extern?_of_shared hid hbound hitem hshared }

theorem link_follows (hs : s.WellFormed) (hm : m.Decoded) (hknown : imports.KnownTo s)
    {r : Nat × SegmentPlan} {s' : Store} (hrun : (link m imports).run s = .ok r t)
    (hevolves : (r.2.apply t).Evolves s') :
    ∃ i : Instance, i.module = m ∧ i.Follows s imports t s' (s.ref r.1) := by
  obtain ⟨hnew, i, hi, h⟩ := exists_assigned hs hm hknown hrun
  rw [hnew] at hi ⊢
  have hc := ((link_assigns hs hm hknown).of_ok hrun).1
  refine ⟨i, h.module, h.follows hm hc hi ((extends_apply hs hm hrun).trans hevolves.extends) ?_⟩
  intro a g hg hconst
  refine hevolves.keepsConstants ?_ hconst
  obtain ⟨tables, memories, heq⟩ := r.2.apply_eq t
  rw [heq]
  exact hg

end Link

/-- An instance follows the declarations of its module from linking on, whatever an embedder or host
programs do with the store then, and in particular when its instantiation is over. -/
theorem World.Reachable.instances_follow {w : World} (hw : w.Reachable) {m : Module}
    (hm : m.Decoded) {imports : Imports} (himports : w.Supplies imports) :
    (∀ {r t s'}, (Link.link m imports).run w.store = .ok r t → (r.2.apply t).Evolves s' →
      ∃ i : Instance, i.module = m ∧ i.Follows w.store imports t s' (w.store.ref r.1)) ∧
    ∀ {fuel ref s'}, w.store.instantiate fuel m imports = some (.ok ref, s') →
      ∃ (plan : SegmentPlan) (t : Store) (i : Instance),
        (Link.link m imports).run w.store = .ok (ref.address, plan) t ∧ i.module = m ∧
          i.Follows w.store imports t s' ref := by
  have hs := hw.sound.wellFormed
  have hknown := himports.knownTo
  refine ⟨Link.link_follows hs hm hknown, fun {fuel ref s'} hresult ↦ ?_⟩
  have hfits := Operation.instantiate_fits hs hm imports
  have hevolves := (World.leads_of_complete hresult).evolves
    (World.ofOperation_sound hfits w.store.depth).1
  rw [World.store_ofOperation] at hevolves
  unfold Store.instantiate at hresult
  obtain ⟨e, _, -, -, heq, -⟩ | ⟨r, t, i, hmade, heq | ⟨index, addr, -, -, -, heq⟩⟩ :=
    Operation.instantiate_cases hs hm imports
  · rw [heq] at hresult
    cases hresult
  · rw [heq] at hresult hevolves
    cases hresult
    obtain ⟨i, hi⟩ := Link.link_follows hs hm hknown hmade.linked hevolves
    exact ⟨r.2, t, i, hmade.linked, hi⟩
  · rw [heq] at hresult hevolves
    obtain ⟨⟨r', s''⟩, -, hr⟩ := Option.bind_eq_some_iff.mp hresult
    cases r' with
    | error x => cases hr
    | ok answer =>
      cases hr
      -- The start function ran in the store that linking left with the segments written.
      have hbegun : (r.2.apply t).Evolves _ :=
        (Store.Change.count (Exec.enter_begins _ none addr []).1).evolves hmade.kept.wellFormed
      obtain ⟨i, hi⟩ := Link.link_follows hs hm hknown hmade.linked (hbegun.trans hevolves)
      exact ⟨r.2, t, i, hmade.linked, hi⟩

/-- The function is imported twice and so added twice, the defined function comes after, and the
table that is exported is the one supplied. -/
theorem importing_instance_follows :
    ∃ m s' t, ∃ i : Instance, Module.decode {} importingBinary = .ok m ∧
      (World.idle suppliedStore).Reachable ∧
      (World.idle suppliedStore).Supplies (suppliedImports (.ofInt 1)) ∧
      suppliedStore.instantiate 9 m (suppliedImports (.ofInt 1)) = some (.ok ⟨0, 0⟩, s') ∧
      i.module = m ∧ i.Follows suppliedStore (suppliedImports (.ofInt 1)) t s' ⟨0, 0⟩ ∧
      s'.exports ⟨0, 0⟩ = [("f", .func ⟨0, 1⟩), ("h", .func ⟨0, 3⟩), ("t", .table ⟨0, 0⟩),
        ("g", .global (.ofInt 1))] := by
  have hresult : ((Module.decode {} importingBinary).toOption.bind fun m ↦
      (suppliedStore.instantiate 9 m (suppliedImports (.ofInt 1))).map fun p ↦
        (p.1, p.2.exports ⟨0, 0⟩)) =
      some (.ok ⟨0, 0⟩, [("f", .func ⟨0, 1⟩), ("h", .func ⟨0, 3⟩), ("t", .table ⟨0, 0⟩),
        ("g", .global (.ofInt 1))]) := by
    decide +kernel
  obtain ⟨m, hdecode, hresult⟩ := Option.bind_eq_some_iff.mp hresult
  obtain ⟨⟨r, s'⟩, hresult, hexports⟩ := Option.map_eq_some_iff.mp hresult
  injection hexports with hr hexports
  subst hr
  have hdecode := except_toOption_eq_some hdecode
  have hsupplies := suppliedStore_supplies (.ofInt 1)
  obtain ⟨plan, t, i, -, hmodule, hfollows⟩ :=
    (suppliedStore_reachable.instances_follow ⟨_, _, hdecode⟩ hsupplies).2 hresult
  exact ⟨m, s', t, i, hdecode, suppliedStore_reachable, hsupplies, hresult, hmodule, hfollows,
    hexports⟩

end WasmEngine
