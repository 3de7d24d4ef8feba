import WasmEngine.Proofs.Isolation

/-!
# Two ways to compare function types

A function that is linked to an import is compared with it by the text of its signature, and one
that is called out of a table by its type. The two comparisons are one: a signature determines its
type, since no letter of a value type is the hyphen between parameters and results. So a function
gets past the one check just where it gets past the other, and past both only with the very type
that is declared.
-/

namespace WasmEngine

theorem FuncType.signature_inj {t u : FuncType} : t.signature = u.signature ↔ t = u :=
  ⟨signature_injective, congrArg signature⟩

namespace Store

/-- A slot of the first table of an instance holds the function at the address `addr`. -/
def InSlot (s : Store) (inst index addr : Nat) : Prop :=
  ∃ i a x, s.instances[inst]? = some i ∧ i.tables[0]? = some a ∧ s.tables[a]? = some x ∧
    x.get? index = some (some addr)

def Declares (s : Store) (inst index : Nat) (type : FuncType) : Prop :=
  ∃ i, s.instances[inst]? = some i ∧ i.module.types[index]? = some type

variable {s : Store} {inst index addr k : Nat} {type declared : FuncType} {imp : Import}

/-- Only functions with a type are in tables. -/
theorem WellFormed.hasFunc_of_inSlot (hs : s.WellFormed) (h : s.InSlot inst index addr) :
    ∃ type, s.HasFunc addr type := by
  obtain ⟨i, a, x, -, -, hx, hslot⟩ := h
  exact hs.tables hx addr (Array.mem_of_getElem? hslot)

/-- A function with a type is linked as it is, or it is refused with both signatures. -/
theorem HasFunc.run_linkFunc (h : s.HasFunc addr type) :
    (Link.linkFunc imp declared addr).run s =
      if type = declared then .ok addr s
      else .error (.link (.badImport imp.module imp.name
        (.signatureMismatch declared.signature type.signature))) s := by
  obtain ⟨c, hc, htype⟩ := h
  have hget : (Link.linkFunc imp declared addr).run s = (do
      let found := (c.type?.map FuncType.signature).getD ""
      if found = declared.signature then return addr
      else Link.refuseImport imp (.signatureMismatch declared.signature found) :
        Link Nat).run s := by
    cases c with
    | code inst code => simp only [Link.linkFunc, EStateM.run_bind, EStateM.run_get, hc]
    | host type? f =>
      cases htype
      simp only [Link.linkFunc, EStateM.run_bind, EStateM.run_get, hc]
  simp only [hget, htype, Option.map_some, Option.getD_some, FuncType.signature_inj, run_ite]
  rfl

/-- A function in a table is called as it is, or the call traps with both signatures. -/
theorem InSlot.run_indirectCallee (h : s.InSlot inst index addr) (hfunc : s.HasFunc addr type)
    (hdeclared : s.Declares inst k declared) :
    (Exec.indirectCallee inst k index).run s =
      if type = declared then .ok addr s
      else .error (.indirectCallType declared.signature type.signature) s := by
  obtain ⟨i, a, x, hi, ha, hx, hslot⟩ := h
  obtain ⟨c, hc, htype⟩ := hfunc
  obtain ⟨i', hi', hk⟩ := hdeclared
  obtain rfl := Option.some.inj (hi.symm.trans hi')
  simp only [Exec.indirectCallee, Exec.tableAddress, Exec.instanceAt, Exec.tableAt, Exec.funcAt,
    Exec.found_some, EStateM.run_bind, EStateM.run_get, EStateM.run_pure, hi, ha, hx, hslot, hk,
    hc, htype, Option.some.injEq, run_ite, Option.map_some, Option.getD_some]
  rfl

/-- In a well-formed store, the check of an import and the check of an indirect call agree on every
function with a type and on every type that is declared, and what they accept has that type. -/
theorem WellFormed.signature_checks_agree (hs : s.WellFormed) :
    (∀ t u : FuncType, t.signature = u.signature ↔ t = u) ∧
    (∀ {inst index addr : Nat}, s.InSlot inst index addr → ∃ type, s.HasFunc addr type) ∧
    ∀ {addr : Nat} {type : FuncType}, s.HasFunc addr type → ∀ (declared : FuncType) (imp : Import),
      ((∃ a t, (Link.linkFunc imp declared addr).run s = .ok a t) ↔ type = declared) ∧
      ∀ {inst index k : Nat}, s.InSlot inst index addr → s.Declares inst k declared →
        ((∃ a t, (Link.linkFunc imp declared addr).run s = .ok a t) ↔
          ∃ a t, (Exec.indirectCallee inst k index).run s = .ok a t) ∧
        ((∃ a t, (Exec.indirectCallee inst k index).run s = .ok a t) ↔ type = declared) := by
  refine ⟨fun t u ↦ FuncType.signature_inj, hs.hasFunc_of_inSlot, ?_⟩
  intro addr type hfunc declared imp
  have hlink : (∃ a t, (Link.linkFunc imp declared addr).run s = .ok a t) ↔ type = declared := by
    rw [hfunc.run_linkFunc]
    split <;> simp_all
  refine ⟨hlink, fun {inst index k} hslot hdeclared ↦ ?_⟩
  have hcall : (∃ a t, (Exec.indirectCallee inst k index).run s = .ok a t) ↔ type = declared := by
    rw [hslot.run_indirectCallee hfunc hdeclared]
    split <;> simp_all
  exact ⟨hlink.trans hcall.symm, hcall⟩

end Store

/-- A binary with two functions in a table, of which the first takes an `i32` and gives none and the
second takes none and gives one. -/
def mirroredBinary : List UInt8 :=
  [0, 0x61, 0x73, 0x6d, 1, 0, 0, 0,
   1, 9, 2, 0x60, 1, 0x7f, 0, 0x60, 0, 1, 0x7f,
   3, 3, 2, 0, 1,
   4, 4, 1, 0x70, 0, 2,
   9, 8, 1, 0, 0x41, 0, 0x0b, 2, 0, 1,
   10, 9, 2, 2, 0, 0x0b, 4, 0, 0x41, 7, 0x0b]

/-- Of the two functions, whose signatures are `i-` and `-i`, each check accepts the second for its
own type and refuses the first for it. -/
theorem mirrored_checks_agree :
    ∃ r s, Store.load 1 { id := 0 } mirroredBinary = some (r, s) ∧ s.WellFormed ∧
      s.InSlot 0 0 0 ∧ s.InSlot 0 1 1 ∧ s.HasFunc 0 ⟨[.i32], []⟩ ∧ s.HasFunc 1 ⟨[], [.i32]⟩ ∧
      s.Declares 0 1 ⟨[], [.i32]⟩ ∧ ∀ imp : Import,
        (∃ a t, (Link.linkFunc imp ⟨[], [.i32]⟩ 1).run s = .ok a t) ∧
        (∃ a t, (Exec.indirectCallee 0 1 1).run s = .ok a t) ∧
        (¬∃ a t, (Link.linkFunc imp ⟨[], [.i32]⟩ 0).run s = .ok a t) ∧
        ¬∃ a t, (Exec.indirectCallee 0 1 0).run s = .ok a t := by
  have hload : ((Store.load 1 { id := 0 } mirroredBinary).map fun p ↦
      ((p.2.instances[0]?.bind (·.tables[0]?), p.2.tables[0]?.map (·.slots)),
        p.2.instances[0]?.bind (·.module.types[1]?),
        p.2.funcs[0]?.bind Callable.type?, p.2.funcs[1]?.bind Callable.type?)) =
      some ((some 0, some #[some 0, some 1]), some ⟨[], [.i32]⟩,
        some ⟨[.i32], []⟩, some ⟨[], [.i32]⟩) := by
    decide +kernel
  obtain ⟨⟨r, s⟩, hs, hshape⟩ := Option.map_eq_some_iff.mp hload
  simp only [Prod.mk.injEq] at hshape
  obtain ⟨⟨haddr, hslots⟩, htype, hfirst, hsecond⟩ := hshape
  have hdeclared : s.Declares 0 1 ⟨[], [.i32]⟩ := Option.bind_eq_some_iff.mp htype
  have hfirst : s.HasFunc 0 ⟨[.i32], []⟩ := Option.bind_eq_some_iff.mp hfirst
  have hsecond : s.HasFunc 1 ⟨[], [.i32]⟩ := Option.bind_eq_some_iff.mp hsecond
  obtain ⟨i, hi, ha⟩ := Option.bind_eq_some_iff.mp haddr
  obtain ⟨x, hx, hslots⟩ := Option.map_eq_some_iff.mp hslots
  have hslot (k : Nat) (hk : #[some 0, some 1][k]? = some (some k)) : s.InSlot 0 k k :=
    ⟨i, 0, x, hi, ha, hx, by rw [Table.get?, hslots]; exact hk⟩
  have hwf : s.WellFormed := ((World.reachable_new 0 {}).load hs).sound
  obtain ⟨-, -, hchecks⟩ := hwf.signature_checks_agree
  refine ⟨r, s, hs, hwf, hslot 0 rfl, hslot 1 rfl, hfirst, hsecond, hdeclared, fun imp ↦ ?_⟩
  obtain ⟨hlink, hcall⟩ := hchecks hsecond ⟨[], [.i32]⟩ imp
  obtain ⟨hlink', hcall'⟩ := hchecks hfirst ⟨[], [.i32]⟩ imp
  refine ⟨hlink.mpr rfl, (hcall (hslot 1 rfl) hdeclared).2.mpr rfl, fun h ↦ ?_, fun h ↦ ?_⟩
  · exact absurd (hlink'.mp h) (by decide)
  · exact absurd ((hcall' (hslot 0 rfl) hdeclared).2.mp h) (by decide)

end WasmEngine
