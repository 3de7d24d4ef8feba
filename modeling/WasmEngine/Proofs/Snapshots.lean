import WasmEngine.Proofs.IndexSpaces
import WasmEngine.Proofs.Provision

/-!
# Constants and what is exported of them

A global that is exported is recorded as a number when the instance is linked, before segments are
written and the start function runs. The record never goes stale. Only globals that are not mutable
are exported, and such a global keeps the value that linking gave it, because code can set a global
only if its module declares the global at that index as mutable, and what linking binds there is of
the type declared.
-/

namespace WasmEngine

open Relation

/-- The global at an address was added by linking in a store on the way from `origin` to `s`, with
the type and the value that were declared, and has been the same ever since. -/
def Global.Allocated (origin s : Store) (addr : Nat) (g : Global) : Prop :=
  ∃ before m imports r t, origin.Evolves before ∧ m.Decoded ∧
    (Link.link m imports).run before = .ok r t ∧
    (∃ item ∈ m.itemsOf .global, item.Bound before m imports t addr) ∧
    t.globals[addr]? = some g ∧ (r.2.apply t).Evolves s

namespace Store

variable {s t : Store}

/-! ## Constants -/

/-- Globals are added by linking only. -/
theorem Change.new_global (h : s.Change t) (hs : s.WellFormed) {addr : Nat} {g : Global}
    (hg : t.globals[addr]? = some g) (hnew : s.globals.size ≤ addr) :
    ∃ m imports r t', m.Decoded ∧ (Link.link m imports).run s = .ok r t' ∧
      (∃ item ∈ m.itemsOf .global, item.Bound s m imports t' addr) ∧
      t'.globals[addr]? = some g ∧ t = r.2.apply t' := by
  have hlt := (Array.getElem?_eq_some_iff.mp hg).1
  have hnone {P : Prop} (hsize : t.globals.size = s.globals.size) : P := by omega
  cases h with
  | count h =>
    obtain ⟨depth, journal, rfl⟩ := h
    exact hnone rfl
  | statement _ h =>
    cases h with
    | same => exact hnone rfl
    | memory _ _ _ => exact hnone rfl
    | global _ _ _ _ => exact hnone (by simp)
  | query q =>
    obtain ⟨tables, memories, heq⟩ := s.answer_eq q
    exact hnone (by rw [heq])
  | newFunc type _ => exact hnone rfl
  | @link m imports r t' _ hm h =>
    obtain ⟨tables, memories, heq⟩ := r.2.apply_eq t'
    rw [heq] at hg hlt
    obtain ⟨i, hprovides⟩ := Link.link_provides hs hm h.linked
    obtain ⟨item, hitem, hkind, hbound⟩ :=
      hprovides.items.exists_new (k := .global) nofun hnew hlt
    refine ⟨m, imports, r, t', hm, h.linked, ⟨item, ?_, hbound⟩, hg, rfl⟩
    rw [← Module.filter_items]
    exact List.mem_filter.mpr ⟨hitem, decide_eq_true hkind⟩

/-- Every constant has the value that linking gave it. -/
theorem Evolves.allocated (h : s.Evolves t) (hs : s.globals = #[]) {addr : Nat} {g : Global}
    (hg : t.globals[addr]? = some g) (hconst : g.type.isMutable = false) :
    g.Allocated s t addr := by
  induction h generalizing addr g with
  | refl => simp [hs] at hg
  | @tail u t hearlier hstep ih =>
    obtain ⟨hwf, hchange⟩ := hstep
    obtain hlt | hnew := Nat.lt_or_ge addr u.globals.size
    · -- It was there before the change, and is not mutable, so it was the same.
      have hold := Array.getElem?_eq_getElem hlt
      obtain ⟨g', hg', htype⟩ := (hchange.extends hwf).globals hold
      obtain rfl := Option.some.inj (hg.symm.trans hg')
      rw [htype] at hconst
      obtain rfl := Option.some.inj ((hchange.keepsConstants hwf hold hconst).symm.trans hg)
      obtain ⟨before, m, imports, r, t', hbefore, hm, hrun, hbound, halloc, hafter⟩ :=
        ih hold hconst
      exact ⟨before, m, imports, r, t', hbefore, hm, hrun, hbound, halloc,
        hafter.tail ⟨hwf, hchange⟩⟩
    · obtain ⟨m, imports, r, t', hm, hrun, hbound, halloc, rfl⟩ := hchange.new_global hwf hg hnew
      exact ⟨u, m, imports, r, t', hearlier, hm, hrun, hbound, halloc, .refl⟩

end Store

/-! ## Exports -/

theorem Export.Fixes.mono {t t' : Store} {sp : IndexSpaces} {e : Export} {p : String × Extern}
    (h : e.Fixes t sp p) (hid : t'.id = t.id) (hkeeps : t.KeepsConstants t') :
    e.Fixes t' sp p := by
  obtain ⟨⟨hname, addr, haddr, hextern⟩, hconst⟩ := h
  refine ⟨⟨hname, addr, haddr, ?_⟩, fun hkind ↦ ?_⟩
  · rw [Store.extern?_eq hid hkeeps fun hkind ↦ ?_, hextern]
    obtain ⟨addr', g, haddr', hg, himmutable⟩ := hconst hkind
    rw [hkind] at haddr
    obtain rfl := Option.some.inj (haddr.symm.trans haddr')
    exact ⟨g, hg, himmutable⟩
  · obtain ⟨addr', g, haddr', hg, himmutable⟩ := hconst hkind
    exact ⟨addr', g, haddr', hkeeps hg himmutable, himmutable⟩

namespace Store

variable {s t : Store}

/-- Every instance has on record what its exports stand for. -/
def Recorded (s : Store) : Prop :=
  ∀ {a : Nat} {i : Instance}, s.instances[a]? = some i →
    List.Forall₂ (Export.Fixes s i.toIndexSpaces) i.module.exports i.exports

theorem Change.recorded (h : s.Change t) (hs : s.WellFormed) (hrecorded : s.Recorded) :
    t.Recorded := by
  intro a i hi
  obtain hold | ⟨m, imports, r, t', -, -, hprovides, rfl⟩ := h.instance_cases hs hi
  · have hid := (h.extends hs).id
    exact (hrecorded hold).imp fun _ _ he ↦ he.mono hid (h.keepsConstants hs)
  · obtain ⟨tables, memories, heq⟩ := r.2.apply_eq t'
    rw [heq, hprovides.module]
    exact hprovides.exports.imp fun _ _ he ↦ he.mono rfl fun hg _ ↦ hg

theorem Evolves.recorded (h : s.Evolves t) (hs : s.Recorded) : t.Recorded := by
  induction h with
  | refl => exact hs
  | tail _ hstep ih => exact hstep.2.recorded hstep.1 ih

/-- An exported global is found under its name with the number for its value. -/
theorem Recorded.exists_globalOf (hs : s.Recorded) {a : Nat} {i : Instance}
    (hi : s.instances[a]? = some i) (hm : i.module.Decoded) {e : Export}
    (he : e ∈ i.module.exports) (hkind : e.kind = .global) :
    ∃ addr g x, i.globals[e.index]? = some addr ∧ s.globals[addr]? = some g ∧
      g.type.isMutable = false ∧ Number.ofValue g.value = .ok x ∧
      s.globalOf (s.ref a) e.name = some x := by
  obtain ⟨config, bytes, hdecode⟩ := hm
  obtain ⟨p, -, -, hconst⟩ := forall₂_exists_right (hs hi) he
  obtain ⟨addr, g, haddr, hg, himmutable⟩ := hconst hkind
  obtain ⟨item, hlookup, -, addr', haddr', hextern⟩ := lookup_of_names
    ((hs hi).imp fun _ _ h ↦ h.1) (Module.wellFormed_of_decode hdecode).exportNames he
  rw [hkind] at haddr' hextern
  obtain rfl := Option.some.inj (haddr.symm.trans haddr')
  simp only [extern?, hg, Option.bind_eq_bind, Option.bind_some, Option.bind_eq_some_iff] at hextern
  obtain ⟨x, hx, hitem⟩ := hextern
  cases hitem
  refine ⟨addr, g, x, haddr, hg, himmutable, except_toOption_eq_some hx, ?_⟩
  simp [globalOf, exportOf, findInstance, resolve, ref, hi, hlookup, Extern.global?]

/-- Nothing else is taken for an exported global. -/
theorem Recorded.exists_export (hs : s.Recorded) {a : Nat} {i : Instance}
    (hi : s.instances[a]? = some i) {name : String} {x : Number}
    (h : s.globalOf (s.ref a) name = some x) :
    ∃ e ∈ i.module.exports, e.name = name ∧ e.kind = .global := by
  simp only [globalOf, exportOf, findInstance, resolve, ref, if_pos, hi, Option.bind_eq_bind,
    Option.bind_some, Option.bind_eq_some_iff] at h
  obtain ⟨item, hlookup, hitem⟩ := h
  obtain ⟨e, he, ⟨hname, addr, -, hextern⟩, -⟩ :=
    forall₂_exists_left (hs hi) (mem_of_lookup hlookup)
  refine ⟨e, he, hname.symm, ?_⟩
  cases hkind : e.kind with
  | global => rfl
  | _ =>
    rw [hkind] at hextern
    cases hextern
    cases hitem

end Store

/-- Whatever is done with a store, its constants stay what they are, and have the values that
linking gave them when it added them. So the number on record for an exported global is that of the
value which the global at the exported index has now. -/
theorem World.Reachable.snapshots_current {w : World} (hw : w.Reachable) :
    (∀ {w'}, w.Leads w' → w.store.KeepsConstants w'.store) ∧
    (∀ {addr : Nat} {g : Global}, w.store.globals[addr]? = some g → g.type.isMutable = false →
      g.Allocated { id := w.store.id, config := w.store.config } w.store addr) ∧
    ∀ {a : Nat} {i : Instance}, w.store.instances[a]? = some i →
      (∀ e ∈ i.module.exports, e.kind = .global →
        ∃ addr g x, i.globals[e.index]? = some addr ∧ w.store.globals[addr]? = some g ∧
          g.type.isMutable = false ∧ Number.ofValue g.value = .ok x ∧
          w.store.globalOf (w.store.ref a) e.name = some x) ∧
      ∀ {name x}, w.store.globalOf (w.store.ref a) name = some x →
        ∃ e ∈ i.module.exports, e.name = name ∧ e.kind = .global := by
  have hsound := hw.sound
  obtain ⟨id, config, hevolves⟩ := hw.evolves
  have hrecorded : w.store.Recorded := hevolves.recorded nofun
  refine ⟨fun hnext ↦ (hnext.evolves hsound).keepsConstants, fun hg hconst ↦ ?_, fun {a i} hi ↦ ?_⟩
  · have hext := hevolves.extends
    rw [hext.id, hext.config]
    exact hevolves.allocated rfl hg hconst
  · have hm := (hsound.wellFormed.instances hi).decoded
    exact ⟨fun e he hkind ↦ hrecorded.exists_globalOf hi hm he hkind,
      fun h ↦ hrecorded.exists_export hi h⟩

/-- A binary that exports a constant. Its start function sets another global to that constant. -/
def settingBinary : List UInt8 :=
  [0, 0x61, 0x73, 0x6d, 1, 0, 0, 0,
   1, 4, 1, 0x60, 0, 0,
   3, 2, 1, 0,
   6, 11, 2, 0x7f, 0, 0x41, 7, 0x0b, 0x7f, 1, 0x41, 1, 0x0b,
   7, 5, 1, 1, 0x63, 3, 0,
   8, 1, 0,
   10, 8, 1, 6, 0, 0x23, 0, 0x24, 1, 0x0b]

/-- The other global has been set when the start function has run, and the constant is on record. -/
theorem set_snapshots_current :
    ∃ s, Store.load 30 { id := 0 } settingBinary = some (.ok ⟨0, 0⟩, s) ∧
      (World.idle s).Reachable ∧
      s.globals.toList.map Global.value = [.i32 7, .i32 7] ∧
      s.globalOf ⟨0, 0⟩ "c" = some (.ofInt 7) ∧
      (∀ {w'}, (World.idle s).Leads w' → s.KeepsConstants w'.store) ∧
      (∀ {addr : Nat} {g : Global}, s.globals[addr]? = some g → g.type.isMutable = false →
        g.Allocated { id := s.id, config := s.config } s addr) ∧
      ∀ {a : Nat} {i : Instance}, s.instances[a]? = some i →
        (∀ e ∈ i.module.exports, e.kind = .global →
          ∃ addr g x, i.globals[e.index]? = some addr ∧ s.globals[addr]? = some g ∧
            g.type.isMutable = false ∧ Number.ofValue g.value = .ok x ∧
            s.globalOf (s.ref a) e.name = some x) ∧
        ∀ {name x}, s.globalOf (s.ref a) name = some x →
          ∃ e ∈ i.module.exports, e.name = name ∧ e.kind = .global := by
  have hload : ((Store.load 30 { id := 0 } settingBinary).map fun p ↦
      (p.1, p.2.globals.toList.map Global.value, p.2.globalOf ⟨0, 0⟩ "c")) =
      some (.ok ⟨0, 0⟩, [.i32 7, .i32 7], some (.ofInt 7)) := by
    decide +kernel
  obtain ⟨⟨r, s⟩, hs, h⟩ := Option.map_eq_some_iff.mp hload
  injection h with hr h
  injection h with hglobals hrecord
  subst hr
  have hw := (World.reachable_new 0 {}).load hs
  exact ⟨s, hs, hw, hglobals, hrecord, hw.snapshots_current⟩

end WasmEngine
