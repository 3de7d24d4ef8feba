import WasmEngine.Proofs.Worlds

/-!
# Instantiation is all or nothing

An instantiation that fails to link leaves no trace, whatever it had added to the store by then. One
that fails with a trap has linked everything and written every segment, and its start function
trapped. One that succeeds gives an instance of the module.

An import that is refused in every store which linking may have come to by then makes the whole
instantiation fail.
-/

namespace WasmEngine

theorem Store.WellFormed.instance_of_instantiate {s s' : Store} (hs : s.WellFormed) {m : Module}
    (hm : m.Decoded) {imports : Imports} {fuel : Nat} {r : Ref .inst}
    (h : s.instantiate fuel m imports = some (.ok r, s')) :
    ∃ i, s'.instances[r.address]? = some i ∧ i.module = m := by
  have hfits := Operation.instantiate_fits hs hm imports
  have hext := ((World.leads_of_complete h).sound (World.ofOperation_sound hfits s.depth).1).2
  rw [World.store_ofOperation] at hext
  unfold Store.instantiate at h
  obtain ⟨e, _, -, -, heq, -⟩ | ⟨made, t, i, hmade, heq | ⟨index, addr, -, -, hfunc, heq⟩⟩ :=
    Operation.instantiate_cases hs hm imports
  · rw [heq] at h
    cases h
  · rw [heq] at h hext
    cases h
    exact ⟨i, hext.instances hmade.inst, hmade.module⟩
  · rw [heq] at h hext
    have hext' := (Exec.begin_start hmade.kept.wellFormed hfunc).1.ext.trans hext
    obtain ⟨⟨r', s''⟩, -, hr⟩ := Option.bind_eq_some_iff.mp h
    cases r' with
    | error t => cases hr
    | ok answer =>
      cases hr
      exact ⟨i, hext'.instances hmade.inst, hmade.module⟩

/-- The reference was handed out in a step on the way to the world. -/
def World.HandedOut (w : World) (h : Handle) : Prop :=
  ∃ (w₁ : World) (issued : List Handle) (w₂ : World),
    w₁.Reachable ∧ w₁.Step issued w₂ ∧ h ∈ issued ∧ w₂.Leads w

theorem World.HandedOut.holds {w : World} {h : Handle} (hh : w.HandedOut h) :
    w.store.Holds h.2 := by
  obtain ⟨w₁, issued, w₂, hw₁, hstep, hissued, hleads⟩ := hh
  obtain ⟨hsound, -, hheld⟩ := hstep.sound hw₁.sound
  exact (hheld h hissued).mono (hleads.sound hsound).2

/-- Imports whose references into the store of the world were handed out on the way to it. -/
def World.Supplies (w : World) (imports : Imports) : Prop :=
  ∀ p ∈ imports.items, ∀ h ∈ p.2.handle?, h.2.store = w.store.id → w.HandedOut h

theorem World.Supplies.knownTo {w : World} {imports : Imports} (h : w.Supplies imports) :
    imports.KnownTo w.store := by
  intro p hp
  have hitem := h p hp
  cases hkind : p.2 with
  | global x => trivial
  | func r =>
    rw [hkind] at hitem
    exact fun hid ↦ (hitem ⟨.func, r⟩ rfl hid).holds
  | table r =>
    rw [hkind] at hitem
    exact fun hid ↦ (hitem ⟨.table, r⟩ rfl hid).holds
  | memory r =>
    rw [hkind] at hitem
    exact fun hid ↦ (hitem ⟨.memory, r⟩ rfl hid).holds

/-- Call the function at an address without arguments. -/
def Store.start (fuel : Nat) (s : Store) (addr : Nat) : Option (Except Trap Answer × Store) :=
  let (e, s) := Exec.begin (Exec.enter none addr []) s
  Engine.compiled.run fuel ⟨s, Engine.compiled.begin s e, []⟩

/-- An instance of the module was linked, all of its segments were written, and then its start
function trapped. -/
def Store.StartTraps (fuel : Nat) (s : Store) (m : Module) (imports : Imports) (trap : Trap)
    (s' : Store) : Prop :=
  ∃ inst plan t i index addr, (Link.link m imports).run s = .ok (inst, plan) t ∧
    (plan.apply t).instances[inst]? = some i ∧ i.module = m ∧ Link.Covers t i plan ∧
    m.start = some index ∧ i.funcs[index]? = some addr ∧
    (plan.apply t).start fuel addr = some (.error trap, s')

/-- In the middle of a call as well as between two, an instantiation that fails to link leaves the
store as it was, and a host program that asked for it goes on in that very store. A trap is that of
the start function, which runs after everything was linked and every segment was written. -/
theorem World.Reachable.instantiate_all_or_nothing {w : World} (hw : w.Reachable)
    {m : Module} (hm : m.Decoded) (imports : Imports) (fuel : Nat) :
    (∀ e s', w.store.instantiate fuel m imports = some (.error (.link e), s') ↔
      s' = w.store ∧ ∃ t, (Link.link m imports).run w.store = .error (.link e) t) ∧
    (∀ e t, (Link.link m imports).run w.store = .error (.link e) t → ∀ type stack next,
      Engine.compiled.stepHost w.store type stack (.instantiate m imports next) =
        ⟨w.store, .host type (next (.error (.link e))), stack⟩) ∧
    (w.Supplies imports → ∀ trap s',
      w.store.instantiate fuel m imports = some (.error (.trap trap), s') →
      ∃ s'', w.store.StartTraps fuel m imports trap s'' ∧
        s' = { s'' with depth := w.store.depth }) := by
  have hwf := hw.sound.wellFormed
  unfold Store.instantiate
  obtain ⟨e₀, t₀, hfail, -, heq, hlink⟩ |
      ⟨r, t, i, h, heq | ⟨index, addr, hindex, haddr, -, heq⟩⟩ :=
    Operation.instantiate_cases hwf hm imports
  · rw [heq]
    refine ⟨fun e s' ↦ ⟨?_, ?_⟩, fun e t ht type stack next ↦ ?_,
      fun hsupplies trap s' hresult ↦ ?_⟩
    · intro hresult
      cases hresult
      exact ⟨rfl, t₀, hfail⟩
    · rintro ⟨rfl, t, ht⟩
      cases hfail.symm.trans ht
      rfl
    · cases hfail.symm.trans ht
      rw [Engine.stepHost, heq]
      rfl
    · obtain ⟨l, rfl⟩ := hlink hsupplies.knownTo
      cases hresult
  · rw [heq]
    refine ⟨fun e s' ↦ ⟨?_, ?_⟩, fun e t' ht' ↦ ?_, fun hsupplies trap s' hresult ↦ ?_⟩
    · intro hresult
      cases hresult
    · rintro ⟨-, t', ht'⟩
      cases h.linked.symm.trans ht'
    · cases h.linked.symm.trans ht'
    · cases hresult
  · rw [heq]
    refine ⟨fun e s' ↦ ⟨?_, ?_⟩, fun e t' ht' ↦ ?_, fun hsupplies trap s' hresult ↦ ?_⟩
    · intro hresult
      obtain ⟨⟨r', s''⟩, hrun, hr⟩ := Option.bind_eq_some_iff.mp hresult
      cases r' <;> cases hr
    · rintro ⟨-, t', ht'⟩
      cases h.linked.symm.trans ht'
    · cases h.linked.symm.trans ht'
    · obtain ⟨⟨r', s''⟩, hrun, hr⟩ := Option.bind_eq_some_iff.mp hresult
      cases r' with
      | ok answer => cases hr
      | error t' =>
        cases hr
        exact ⟨s'', ⟨r.1, r.2, t, i, index, addr, h.linked, h.inst, h.module, h.covers, hindex,
          haddr, hrun⟩, rfl⟩

/-- A binary whose element segment does not fit into its table. -/
def overflowBinary : List UInt8 :=
  [0, 0x61, 0x73, 0x6d, 1, 0, 0, 0,
   1, 4, 1, 0x60, 0, 0,
   3, 2, 1, 0,
   4, 4, 1, 0x70, 0, 1,
   8, 1, 0,
   9, 7, 1, 0, 0x41, 1, 0x0b, 1, 0,
   10, 4, 1, 2, 0, 0x0b]

def trapBinary : List UInt8 :=
  [0, 0x61, 0x73, 0x6d, 1, 0, 0, 0,
   1, 4, 1, 0x60, 0, 0,
   3, 2, 1, 0,
   4, 4, 1, 0x70, 0, 1,
   8, 1, 0,
   9, 7, 1, 0, 0x41, 0, 0x0b, 1, 0,
   10, 5, 1, 3, 0, 0, 0x0b]

/-- The middle of a call of a new host function. -/
def World.calling (s : Store) : World :=
  let (f, s) := s.newFunc none ⟨0, fun _ _ ↦ .done (.ok none)⟩
  .ofOperation s.depth (Operation.call s f [])

theorem World.Reachable.calling {s : Store} (hs : (World.idle s).Reachable) :
    (World.calling s).Reachable := by
  obtain ⟨id, config, hleads⟩ := hs
  exact ⟨id, config, (hleads.tail ⟨_, .newFunc s none fun _ _ ↦ .done _⟩).tail ⟨_, .call _ _ _⟩⟩

/-- Both ways to fail, in the middle of a call and with an instance in the store already. -/
theorem overflow_and_trap_all_or_nothing :
    ∃ r s w, Store.load 9 { id := 0 } startBinary = some (r, s) ∧ w = World.calling s ∧
      w.Reachable ∧ w.store.depth = 1 ∧
      (∃ m e s', Module.decode {} overflowBinary = .ok m ∧
        w.store.instantiate 9 m {} = some (.error (.link e), s') ∧ s' = w.store) ∧
      ∃ m s' s'', Module.decode {} trapBinary = .ok m ∧ w.Supplies {} ∧
        w.store.instantiate 9 m {} = some (.error (.trap .unreachable), s') ∧
        w.store.StartTraps 9 m {} .unreachable s'' ∧ s' = { s'' with depth := 1 } := by
  have hfail : ((Store.load 9 { id := 0 } startBinary).map fun p ↦
      ((World.calling p.2).store.depth,
        ((World.calling p.2).store.load 9 overflowBinary).map Prod.fst,
        ((World.calling p.2).store.load 9 trapBinary).map Prod.fst)) =
      some (1, some (.error (.link (.segmentOutOfBounds .element 1 1 1))),
        some (.error (.trap .unreachable))) := by
    decide +kernel
  obtain ⟨⟨r, s⟩, hs, hfail⟩ := Option.map_eq_some_iff.mp hfail
  injection hfail with hdepth hfail
  injection hfail with hoverflow htrap
  obtain ⟨⟨r₁, s₁⟩, hs₁, rfl⟩ := Option.map_eq_some_iff.mp hoverflow
  obtain ⟨⟨r₂, s₂⟩, hs₂, rfl⟩ := Option.map_eq_some_iff.mp htrap
  obtain ⟨m₁, hm₁, hresult₁⟩ := Store.load_eq_some hs₁
  obtain ⟨m₂, hm₂, hresult₂⟩ := Store.load_eq_some hs₂
  have hw := ((World.reachable_new 0 {}).load hs).calling
  have hsupplies : (World.calling s).Supplies {} := nofun
  have hlink := ((hw.instantiate_all_or_nothing ⟨_, _, hm₁⟩ {} 9).1 _ _).mp hresult₁
  obtain ⟨s'', hstart, heq⟩ :=
    (hw.instantiate_all_or_nothing ⟨_, _, hm₂⟩ {} 9).2.2 hsupplies _ _ hresult₂
  rw [hdepth] at heq
  exact ⟨r, s, _, hs, rfl, hw, hdepth, ⟨m₁, _, s₁, hm₁, hresult₁, hlink.1⟩, m₂, s₂, s'', hm₂,
    hsupplies, hresult₂, hstart, heq⟩

/-! ## An import that is refused -/

/-- The module is refused with `e` at an import, unless one of the imports before it is refused
already. Nothing runs and the store is as it was. -/
def Store.RefusesAfter (s : Store) (m : Module) (imports : Imports) (before : List Import)
    (e : LinkError) : Prop :=
  ∃ e', Operation.instantiate s m imports = (.settled (.error (.link e')), s) ∧
    (∀ fuel, s.instantiate fuel m imports = some (.error (.link e'), s)) ∧
    ((∃ t, (before.foldlM (Link.bindImport m imports) {}).run s = .error (.link e') t) ∨
      (∃ sp t, (before.foldlM (Link.bindImport m imports) {}).run s = .ok sp t) ∧ e' = e)

section Refused

variable {s : Store} {m : Module} {imports : Imports} {before after : List Import} {imp : Import}
  {e : LinkError}

theorem Link.link_of_refused (hs : s.WellFormed) (hm : m.Valid)
    (hsplit : m.imports = before ++ imp :: after)
    (hrefused : ∀ sp t, s.Grows t →
      Ensures (bindImport m imports sp imp) t (fun _ _ ↦ False) fun e' _ ↦ e' = .link e) :
    Ensures (link m imports) s (fun _ _ ↦ False) fun e' _ ↦
      (∃ t, (before.foldlM (bindImport m imports) {}).run s = .error e' t) ∨
      (∃ sp t, (before.foldlM (bindImport m imports) {}).run s = .ok sp t) ∧ e' = .link e := by
  have hbefore : before ⊆ m.imports := by
    rw [hsplit]
    exact List.subset_append_left _ _
  refine .bind_of_fails ?_
  rw [hsplit, List.foldlM_append]
  refine .bind ((Ensures.ran _ s).mono (fun _ _ hrun ↦ hrun) fun e t hrun ↦ .inl ⟨t, hrun⟩)
    fun sp t hrun ↦ ?_
  have hgrows := ((bindImports_ensures hs hm hbefore).of_ok hrun).underway.grows
  exact .bind_of_fails ((hrefused sp t hgrows).mono (fun _ _ hfalse ↦ hfalse)
    fun _ _ he ↦ .inr ⟨⟨sp, t, hrun⟩, he⟩)

theorem Store.WellFormed.refusesAfter (hs : s.WellFormed) (hm : m.Decoded)
    (himports : imports.KnownTo s) (hsplit : m.imports = before ++ imp :: after)
    (hrefused : ∀ sp t, s.Grows t →
      Ensures (Link.bindImport m imports sp imp) t (fun _ _ ↦ False) fun e' _ ↦ e' = .link e) :
    s.RefusesAfter m imports before e := by
  have hlink := Link.link_of_refused hs hm.valid hsplit hrefused
  obtain ⟨e', t, hfail, -, hop, hknown⟩ | ⟨r, t, i, hprepared, -⟩ :=
    Operation.instantiate_cases hs hm imports
  · obtain ⟨e', rfl⟩ := hknown himports
    refine ⟨e', hop, fun fuel ↦ ?_, ?_⟩
    · rw [Store.instantiate, hop]
      rfl
    · obtain hbefore | ⟨hbefore, he⟩ := hlink.of_error hfail
      · exact .inl hbefore
      · exact .inr ⟨hbefore, InstantiationError.link.inj he⟩
  · exact (hlink.of_ok hprepared.linked).elim

end Refused

end WasmEngine
