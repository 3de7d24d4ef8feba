import WasmEngine.Proofs.Soundness

/-!
# Stores over time

An embedder works on a store in steps: it asks queries, adds host functions, calls functions and
makes instances of decoded modules. An operation that comes to a call runs the machine, and host
functions ask for more operations on the way. Whatever the embedder and the host functions do, the
store stays well formed, and a reference that was ever handed out stands for the same item for good.
-/

namespace WasmEngine

open Relation

/-- A store between two operations, or in the middle of one that began at depth `base`. -/
inductive World where
  | idle (s : Store)
  | running (base : Nat) (m : Machine Activation Suspended)

namespace World

def store : World → Store
  | idle s => s
  | running _ m => m.store

def ofOperation {α : Type} (base : Nat) : Operation α × Store → World
  | (.settled _, s) => idle s
  | (.running e _, s) => running base ⟨s, Engine.compiled.begin s e, []⟩

end World

/-- The reference to the instance that an instantiation makes, if it links. -/
def Link.made (s : Store) (m : Module) (imports : Imports) : List Handle :=
  match (prepare m imports).run s with
  | .ok (i, _) _ => [⟨.inst, i⟩]
  | .error _ _ => []

/-- The references that a step hands out: to a host program as replies, and to a host function the
instance that calls it. -/
def Machine.issues : Machine Activation Suspended → List Handle
  | ⟨s, .code a, _⟩ =>
    match a.step.run s with
    | .ok (.call caller _ _ _) s' => [⟨.inst, s'.ref caller⟩]
    | _ => []
  | ⟨s, .host _ (.query q _), _⟩ => q.handles (s.answer q).1
  | ⟨s, .host _ (.instantiate m imports _), _⟩ => Link.made s m imports
  | ⟨s, .host _ (.newFunc type tag body _), _⟩ => [⟨.func, (s.newFunc type ⟨tag, body⟩).1⟩]
  | _ => []

/-- One step of an embedder or of the machine, with the references that it hands out. -/
inductive World.Step : World → List Handle → World → Prop
  | query (s : Store) (q : Query) :
      Step (.idle s) (q.handles (s.answer q).1) (.idle (s.answer q).2)
  | newFunc (s : Store) (type : Option FuncType) {f : HostFunc} (hf : f.Lawful) :
      Step (.idle s) [⟨.func, (s.newFunc type f).1⟩] (.idle (s.newFunc type f).2)
  | call (s : Store) (f : Ref .func) (args : List Number) :
      Step (.idle s) [] (.ofOperation s.depth (Operation.call s f args))
  | callValues (s : Store) (f : Ref .func) (args : List Value) :
      Step (.idle s) [] (.ofOperation s.depth (Operation.callValues s f args))
  | instantiate (s : Store) {m : Module} (hm : m.Decoded) (imports : Imports) :
      Step (.idle s) (Link.made s m imports)
        (.ofOperation s.depth (Operation.instantiate s m imports))
  | next {base : Nat} {m m' : Machine Activation Suspended}
      (h : Engine.compiled.next m = .next m') : Step (.running base m) m.issues (.running base m')
  | done {base : Nat} {m : Machine Activation Suspended} {r : Except Trap Answer} {s : Store}
      (h : Engine.compiled.next m = .done r s) :
      Step (.running base m) [] (.idle { s with depth := base })

/-- The second world comes after the first. -/
def World.Leads : World → World → Prop := ReflTransGen fun w w' ↦ ∃ issued, w.Step issued w'

/-- The world comes after a new store. -/
def World.Reachable (w : World) : Prop := ∃ id config, (World.idle { id, config }).Leads w

namespace World

theorem reachable_new (id : Nat) (config : Config) : (idle { id, config }).Reachable :=
  ⟨id, config, .refl⟩

/-- A well-formed store and, if one is running, a sound machine. -/
def Sound : World → Prop
  | idle s => s.WellFormed
  | running _ m => ∃ base, m.Sound base

theorem Sound.wellFormed {w : World} (hw : w.Sound) : w.store.WellFormed := by
  cases w with
  | idle s => exact hw
  | running base m => exact hw.choose_spec.wellFormed

theorem ofOperation_sound {α : Type} {F : Except Trap Answer → α → Prop} {s : Store}
    {o : Operation α × Store} (h : OperationFits s F o) (base : Nat) :
    (ofOperation base o).Sound ∧ s.Extends (ofOperation base o).store := by
  cases h with
  | settled hkept => exact ⟨hkept.wellFormed, hkept.ext⟩
  | running hkept he _ =>
    exact ⟨⟨_, hkept.wellFormed, _, he.control hkept.wellFormed, .nil⟩, hkept.ext⟩

theorem store_ofOperation {α : Type} (base : Nat) (o : Operation α × Store) :
    (ofOperation base o).store = o.2 := by
  obtain ⟨o, s⟩ := o
  cases o <;> rfl

end World

/-- The instance that an instantiation makes is there from then on. -/
theorem Link.made_holds {s : Store} (hs : s.WellFormed) {m : Module} (hm : m.Decoded)
    (imports : Imports) :
    ∀ h ∈ made s m imports, (Operation.instantiate s m imports).2.Holds h.2 := by
  intro x hx
  obtain ⟨e, _, -, hrun, -⟩ | ⟨r, t, i, h, hcases⟩ := Operation.instantiate_cases hs hm imports
  · simp only [made, hrun, List.not_mem_nil] at hx
  · simp only [made, h.run, List.mem_singleton] at hx
    subst hx
    have hheld : (r.2.apply t).Holds (s.ref r.1 : Ref .inst) :=
      ⟨h.kept.ext.id.symm, (Array.getElem?_eq_some_iff.mp h.inst).choose⟩
    obtain heq | ⟨index, addr, -, -, hfunc, heq⟩ := hcases
    · rw [heq]
      exact hheld
    · rw [heq]
      exact hheld.mono (Exec.begin_start h.kept.wellFormed hfunc).1.ext

theorem suspend_store {α : Type} (type : Option FuncType) (base : Nat) (next : α → HostProgram)
    (stack : List (Frame Suspended)) (o : Operation α × Store) :
    (Engine.compiled.suspend type base next stack o).store = o.2 := by
  obtain ⟨o, s⟩ := o
  cases o <;> rfl

theorem Machine.Sound.issues_hold {base : Option FuncType} {m m' : Machine Activation Suspended}
    (hm : m.Sound base) (hnext : Engine.compiled.next m = .next m') :
    ∀ h ∈ m.issues, m'.store.Holds h.2 := by
  obtain ⟨s, control, stack⟩ := m
  obtain ⟨hs, type, hcontrol, hstack⟩ := hm
  intro x hx
  cases hcontrol with
  | @code a i code ha =>
    cases hnext
    simp only [issues] at hx
    split at hx
    · rename_i caller addr args w s' hrun
      obtain ⟨hkept, hcaller, callee, hfunc, hargs, -⟩ := (ha.step_ensures hs).of_ok hrun
      obtain rfl := List.mem_singleton.mp hx
      -- A call hands the instance that makes it to the host function.
      have hheld : s'.Holds (s'.ref caller : Ref .inst) :=
        ⟨rfl, (Array.getElem?_eq_some_iff.mp hcaller).choose⟩
      have hentered :=
        Exec.begin_fits (Exec.enter_ensures hkept.wellFormed (some caller) hfunc hargs)
      have hstep : Engine.compiled.step a = a.step := rfl
      simp only [Engine.stepCode, hstep, hrun]
      exact hheld.mono hentered.1.ext
    · cases hx
  | host hp =>
    cases hnext
    cases hp with
    | query _ => exact (hs.answer _).2 x hx
    | instantiate hm _ =>
      have hheld := Link.made_holds hs hm _ x hx
      rw [← suspend_store] at hheld
      exact hheld
    | newFunc hbody _ =>
      obtain rfl := List.mem_singleton.mp hx
      exact (hs.newFunc (f := ⟨_, _⟩) hbody).2
    | _ => cases hx
  | answer _ => cases hx

namespace World

/-- What one step keeps. -/
theorem Step.sound {w w' : World} {issued : List Handle} (hw : w.Sound) (h : w.Step issued w') :
    w'.Sound ∧ w.store.Extends w'.store ∧ ∀ x ∈ issued, w'.store.Holds x.2 := by
  cases h with
  | query s q =>
    obtain ⟨hkept, hheld⟩ := Store.WellFormed.answer hw q
    exact ⟨hkept.wellFormed, hkept.ext, hheld⟩
  | newFunc s type hf =>
    obtain ⟨hkept, hheld⟩ := Store.WellFormed.newFunc hw hf
    refine ⟨hkept.wellFormed, hkept.ext, fun x hx ↦ ?_⟩
    obtain rfl := List.mem_singleton.mp hx
    exact hheld
  | call s f args =>
    obtain ⟨hsound, hext⟩ := ofOperation_sound (Operation.call_fits hw args) s.depth
    exact ⟨hsound, hext, nofun⟩
  | callValues s f args =>
    obtain ⟨hsound, hext⟩ := ofOperation_sound (Operation.callValues_fits hw args) s.depth
    exact ⟨hsound, hext, nofun⟩
  | instantiate s hm imports =>
    obtain ⟨hsound, hext⟩ := ofOperation_sound (Operation.instantiate_fits hw hm imports) s.depth
    refine ⟨hsound, hext, ?_⟩
    rw [store_ofOperation]
    exact Link.made_holds hw hm imports
  | next h =>
    obtain ⟨type, hm⟩ := hw
    have hfollows := Engine.next_follows hm h
    exact ⟨⟨type, hfollows.sound⟩, hfollows.ext, hm.issues_hold h⟩
  | @done base m r s h =>
    obtain ⟨type, hm⟩ := hw
    cases Engine.done_cases h
    have hkept := hm.wellFormed.withDepth base
    exact ⟨hkept.wellFormed, hkept.ext, nofun⟩

theorem Leads.sound {w w' : World} (hw : w.Sound) (h : w.Leads w') :
    w'.Sound ∧ w.store.Extends w'.store := by
  induction h with
  | refl => exact ⟨hw, .refl _⟩
  | tail _ hstep ih =>
    obtain ⟨issued, hstep⟩ := hstep
    obtain ⟨hsound, hext, -⟩ := hstep.sound ih.1
    exact ⟨hsound, ih.2.trans hext⟩

/-- Whatever an embedder does with a new store, it stays well formed. -/
theorem Reachable.sound {w : World} (hw : w.Reachable) : w.Sound := by
  obtain ⟨id, config, hleads⟩ := hw
  have hempty : Store.WellFormed { id, config } := ⟨nofun, nofun, nofun, nofun⟩
  exact (hleads.sound (w := .idle { id, config }) hempty).1

/-! ## Operations of an embedder as a whole -/

/-- The machine runs to where its operation ends. -/
theorem leads_of_run {fuel base : Nat} {m : Machine Activation Suspended} {r : Except Trap Answer}
    {s : Store} (h : Engine.compiled.run fuel m = some (r, s)) :
    (running base m).Leads (idle { s with depth := base }) := by
  induction fuel generalizing m with
  | zero => cases h
  | succ fuel ih =>
    unfold Engine.run at h
    split at h
    · rename_i m' hnext
      exact (ih h).head ⟨_, .next hnext⟩
    · rename_i hnext
      cases h
      exact .single ⟨_, .done hnext⟩

theorem leads_of_complete {α : Type} {fuel base : Nat} {o : Operation α × Store} {a : α}
    {s : Store} (h : Engine.compiled.complete fuel base o = some (a, s)) :
    (ofOperation base o).Leads (idle s) := by
  obtain ⟨o, s₀⟩ := o
  cases o with
  | settled a' =>
    cases h
    exact .refl
  | running e finish =>
    obtain ⟨⟨r, s'⟩, hrun, hs⟩ := Option.bind_eq_some_iff.mp h
    cases hs
    exact leads_of_run hrun

end World

/-! ## References stay what they are -/

/-- The reference stands for the same item in both stores: functions and instances do not change,
and a memory or a table is the one it was, written to or grown. -/
def Store.SameItem (s t : Store) : Handle → Prop
  | ⟨.func, r⟩ => ∃ a c, s.resolve r = some a ∧ t.resolve r = some a ∧
      s.funcs[a]? = some c ∧ t.funcs[a]? = some c
  | ⟨.table, r⟩ => ∃ a x x', s.resolve r = some a ∧ t.resolve r = some a ∧
      s.tables[a]? = some x ∧ t.tables[a]? = some x' ∧ ReflTransGen Table.Change x x'
  | ⟨.memory, r⟩ => ∃ a x x', s.resolve r = some a ∧ t.resolve r = some a ∧
      s.memories[a]? = some x ∧ t.memories[a]? = some x' ∧ ReflTransGen Memory.Change x x'
  | ⟨.inst, r⟩ => ∃ a i, s.resolve r = some a ∧ t.resolve r = some a ∧
      s.instances[a]? = some i ∧ t.instances[a]? = some i

theorem Store.Extends.sameItem {s t : Store} (hext : s.Extends t) {h : Handle}
    (hheld : s.Holds h.2) : s.SameItem t h := by
  obtain ⟨arena, r⟩ := h
  obtain ⟨hid, hlt⟩ := hheld
  have hs : s.resolve r = some r.address := if_pos hid
  have ht : t.resolve r = some r.address := if_pos (hid.trans hext.id.symm)
  cases arena with
  | func =>
    have hc := Array.getElem?_eq_getElem hlt
    exact ⟨_, _, hs, ht, hc, hext.funcs hc⟩
  | table =>
    have hx := Array.getElem?_eq_getElem hlt
    obtain ⟨x', hx', hchange⟩ := hext.tables hx
    exact ⟨_, _, x', hs, ht, hx, hx', hchange⟩
  | memory =>
    have hx := Array.getElem?_eq_getElem hlt
    obtain ⟨x', hx', hchange⟩ := hext.memories hx
    exact ⟨_, _, x', hs, ht, hx, hx', hchange⟩
  | inst =>
    have hi := Array.getElem?_eq_getElem hlt
    exact ⟨_, _, hs, ht, hi, hext.instances hi⟩

theorem Extern.HeldBy.holds {s : Store} {e : Extern} (he : e.HeldBy s) :
    ∀ h ∈ e.handle?, s.Holds h.2 := by
  intro h hh
  cases e with
  | global x => cases hh
  | _ =>
    cases hh
    exact he

/-- In every world that an embedder can reach, the store is well formed, and every reference that
the next step hands out or that an instance exports stands for the same item ever after. -/
theorem World.Reachable.wellFormed_and_stable {w : World} (hw : w.Reachable) :
    w.store.WellFormed ∧
    (∀ {issued w₁ w₂}, w.Step issued w₁ → w₁.Leads w₂ →
      ∀ h ∈ issued, w₁.store.SameItem w₂.store h) ∧
    ∀ {w₂}, w.Leads w₂ → ∀ i ∈ w.store.instances, ∀ e ∈ i.exports, ∀ h ∈ e.2.handle?,
      w.store.SameItem w₂.store h := by
  have hsound := hw.sound
  refine ⟨hsound.wellFormed, ?_, ?_⟩
  · intro issued w₁ w₂ hstep hleads h hh
    obtain ⟨hsound₁, -, hheld⟩ := hstep.sound hsound
    exact (hleads.sound hsound₁).2.sameItem (hheld h hh)
  · intro w₂ hleads i hi e he h hh
    obtain ⟨a, ha⟩ := Array.mem_iff_getElem?.mp hi
    have hheld := (hsound.wellFormed.instances ha).exports e he
    exact (hleads.sound hsound).2.sameItem (hheld.holds h hh)

/-- A binary with a table, an element segment and a start function that does nothing. -/
def startBinary : List UInt8 :=
  [0, 0x61, 0x73, 0x6d, 1, 0, 0, 0,
   1, 4, 1, 0x60, 0, 0,
   3, 2, 1, 0,
   4, 4, 1, 0x70, 0, 1,
   8, 1, 0,
   9, 7, 1, 0, 0x41, 0, 0x0b, 1, 0,
   10, 4, 1, 2, 0, 0x0b]

section Load

variable {fuel : Nat} {s s' : Store} {bytes : List UInt8}
  {r : Except InstantiationError (Ref .inst)}

theorem Store.load_eq_some (h : s.load fuel bytes = some (r, s')) :
    ∃ m, Module.decode {} bytes = .ok m ∧ s.instantiate fuel m {} = some (r, s') := by
  obtain ⟨m, hm, hs⟩ := Option.bind_eq_some_iff.mp h
  exact ⟨m, except_toOption_eq_some hm, hs⟩

theorem World.Reachable.load (hs : (World.idle s).Reachable)
    (h : s.load fuel bytes = some (r, s')) : (World.idle s').Reachable := by
  obtain ⟨id, config, hleads⟩ := hs
  obtain ⟨m, hm, hinstantiate⟩ := Store.load_eq_some h
  have hstep : (World.idle s).Leads (.idle s') :=
    (leads_of_complete hinstantiate).head ⟨_, .instantiate s ⟨_, _, hm⟩ {}⟩
  exact ⟨id, config, hleads.trans hstep⟩

end Load

/-- The store after an instance was made and its start function has run. -/
theorem started_wellFormed_and_stable :
    ∃ s, Store.load 9 { id := 0 } startBinary = some (.ok ⟨0, 0⟩, s) ∧
      (World.idle s).Reachable ∧ s.WellFormed ∧
      (∀ {issued w₁ w₂}, (World.idle s).Step issued w₁ → w₁.Leads w₂ →
        ∀ h ∈ issued, w₁.store.SameItem w₂.store h) ∧
      ∀ {w}, (World.idle s).Leads w → ∀ i ∈ s.instances, ∀ e ∈ i.exports, ∀ h ∈ e.2.handle?,
        s.SameItem w.store h := by
  have hload : (Store.load 9 { id := 0 } startBinary).map Prod.fst = some (.ok ⟨0, 0⟩) := by
    decide +kernel
  obtain ⟨⟨r, s⟩, hs, rfl⟩ := Option.map_eq_some_iff.mp hload
  have hw := (World.reachable_new 0 {}).load hs
  exact ⟨s, hs, hw, hw.wellFormed_and_stable⟩

end WasmEngine
