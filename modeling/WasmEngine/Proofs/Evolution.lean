import WasmEngine.Proofs.Footprint
import WasmEngine.Proofs.Worlds

/-!
# How stores change

There are few ways for a store to change: calls are counted and host functions are entered in the
journal, a statement changes a memory or a mutable global, a query is carried out, a host function
is added, and an instance is made with its segments written. Every step of an embedder and of the
machine comes down to changes of these kinds. So what each kind keeps is kept for good, and globals
that are not mutable keep their values.
-/

namespace WasmEngine

open Relation

/-! ## Kinds of changes -/

namespace Store

/-- The second store differs at most in the calls that are counted and in the journal. -/
def Recounts (s t : Store) : Prop := ∃ depth journal, t = { s with depth, journal }

inductive Change (s : Store) : Store → Prop
  | count {t : Store} (h : s.Recounts t) : Change s t
  | statement {a : Nat} {i : Instance} {t : Store} (hi : s.instances[a]? = some i)
      (h : s.Touched i t) : Change s t
  | query (q : Query) : Change s (s.answer q).2
  | newFunc (type : Option FuncType) {f : HostFunc} (hf : f.Lawful) :
      Change s (s.newFunc type f).2
  | link {m : Module} {imports : Imports} {r : Nat × SegmentPlan} {t : Store} {i : Instance}
      (hm : m.Decoded) (h : Link.Prepared s m imports r t i) : Change s (r.2.apply t)

/-- The second store comes from the first by changes of well-formed stores. -/
def Evolves : Store → Store → Prop := ReflTransGen fun s t ↦ s.WellFormed ∧ s.Change t

theorem Change.evolves {s t : Store} (h : s.Change t) (hs : s.WellFormed) : s.Evolves t :=
  .single ⟨hs, h⟩

theorem Touched.extends {s t : Store} {i : Instance} (h : s.Touched i t) (hs : s.WellFormed) :
    s.Extends t := by
  cases h with
  | same => exact .refl s
  | memory _ hx hchange => exact (hs.setMemory hx hchange).ext
  | global v _ _ _ => exact s.extends_setGlobal _ v

theorem Change.extends {s t : Store} (h : s.Change t) (hs : s.WellFormed) : s.Extends t := by
  cases h with
  | count h =>
    obtain ⟨depth, journal, rfl⟩ := h
    exact { Extends.refl s with }
  | statement _ h => exact h.extends hs
  | query q => exact (hs.answer q).1.ext
  | newFunc type hf => exact (hs.newFunc hf).1.ext
  | link _ h => exact h.kept.ext

theorem Evolves.extends {s t : Store} (h : s.Evolves t) : s.Extends t := by
  induction h with
  | refl => exact .refl s
  | tail _ hstep ih => exact ih.trans (hstep.2.extends hstep.1)

/-- What a query can do to a store. -/
inductive Queried (s : Store) : Store → Prop
  | same : Queried s s
  | newMemory {l : Limits} {x : Memory} (hx : Memory.new l s.config.maxMemoryPages = .ok x) :
      Queried s { s with memories := s.memories.push x }
  | newTable {l : Limits} {x : Table} (hx : Table.new l s.config.maxTableElements = .ok x) :
      Queried s { s with tables := s.tables.push x }
  | setMemory {a : Nat} {x x' : Memory} (hx : s.memories[a]? = some x)
      (hchange : Memory.Change x x') : Queried s (s.setMemory a x')
  | setTable {a : Nat} {x x' : Table} (hx : s.tables[a]? = some x)
      (hchange : Table.Change x x') : Queried s (s.setTable a x')

theorem answer_queried (s : Store) (q : Query) : s.Queried (s.answer q).2 := by
  have horUnchanged {α ε : Type} {x : Except ε (α × Store)}
      (hx : ∀ a t, x = .ok (a, t) → s.Queried t) : s.Queried (s.orUnchanged x).2 := by
    obtain ⟨a, t, h, heq⟩ | ⟨e, heq⟩ := s.orUnchanged_cases x
    · rw [heq]
      exact hx a t h
    · rw [heq]
      exact .same
  cases q with
  | newMemory initial maximum =>
    refine horUnchanged fun r t h ↦ ?_
    simp only [newMemory, except_bind_eq_ok] at h
    obtain ⟨limits, -, x, hx, h⟩ := h
    cases h
    exact .newMemory hx
  | newTable initial maximum =>
    refine horUnchanged fun r t h ↦ ?_
    simp only [newTable, except_bind_eq_ok] at h
    obtain ⟨limits, -, x, hx, h⟩ := h
    cases h
    exact .newTable hx
  | memoryWrite r addr bytes =>
    refine horUnchanged fun b t h ↦ ?_
    simp only [memoryWrite, except_bind_eq_ok, Prod.exists] at h
    obtain ⟨a, x, hx, h⟩ := h
    split at h
    · cases h
      exact .setMemory (memory_eq_ok hx) (.write x addr bytes)
    · cases h
      exact .same
  | memoryGrow r delta =>
    refine horUnchanged fun previous t h ↦ ?_
    simp only [memoryGrow, except_bind_eq_ok, Prod.exists] at h
    obtain ⟨a, x, hx, previous', x', hgrow, h⟩ := h
    cases h
    exact .setMemory (memory_eq_ok hx) (.grow hgrow)
  | tableGrow r delta =>
    refine horUnchanged fun previous t h ↦ ?_
    simp only [tableGrow, except_bind_eq_ok, Prod.exists] at h
    obtain ⟨a, x, hx, previous', x', hgrow, h⟩ := h
    cases h
    exact .setTable (table_eq_ok hx) (.grow hgrow)
  | tableSet r index f =>
    refine horUnchanged fun u t h ↦ ?_
    obtain ⟨t', hset, hpure⟩ := except_bind_eq_ok.mp h
    cases hpure
    simp only [tableSet] at hset
    split at hset
    · cases hset
    · simp only [except_bind_eq_ok, Prod.exists] at hset
      obtain ⟨slot, -, a, x, hx, x', hchange, hset⟩ := hset
      cases hset
      exact .setTable (table_eq_ok hx) (.set hchange)
  | _ => exact .same

theorem Queried.eq_with {s t : Store} (h : s.Queried t) :
    ∃ tables memories, t = { s with tables, memories } := by
  cases h <;> exact ⟨_, _, rfl⟩

/-- A query works on tables and memories only. -/
theorem answer_eq (s : Store) (q : Query) :
    ∃ tables memories, (s.answer q).2 = { s with tables, memories } :=
  (s.answer_queried q).eq_with

end Store

/-- Writing segments works on tables and memories only. -/
theorem SegmentPlan.apply_eq (plan : SegmentPlan) (s : Store) :
    ∃ tables memories, plan.apply s = { s with tables, memories } := by
  have helements : ∀ (ps : List (Nat × Nat × List Nat)) (s : Store),
      ∃ tables, ps.foldl writeElements s = { s with tables } := by
    intro ps
    induction ps with
    | nil => exact fun s ↦ ⟨s.tables, rfl⟩
    | cons p ps ih => exact fun s ↦ ih (writeElements s p)
  have hdata : ∀ (ps : List (Nat × Nat × List UInt8)) (s : Store),
      ∃ memories, ps.foldl writeData s = { s with memories } := by
    intro ps
    induction ps with
    | nil => exact fun s ↦ ⟨s.memories, rfl⟩
    | cons p ps ih => exact fun s ↦ ih (writeData s p)
  obtain ⟨tables, htables⟩ := helements plan.elements s
  obtain ⟨memories, hmemories⟩ := hdata plan.data (plan.elements.foldl writeElements s)
  refine ⟨tables, memories, ?_⟩
  rw [apply, hmemories, htables]

/-! ## Beginning a call -/

namespace Exec

variable {s : Store}

theorem run_funcAt {addr : Nat} {c : Callable} (h : s.funcs[addr]? = some c) :
    (funcAt addr).run s = .ok c s := by
  simp only [funcAt, EStateM.run_bind, EStateM.run_get, h]
  rfl

theorem run_pushDepth_of_full (h : s.config.maxCallDepth ≤ s.depth) :
    pushDepth.run s = .error (.callStackExhausted s.depth) s := by
  simp only [pushDepth, EStateM.run_bind, EStateM.run_get, if_pos h]
  rfl

theorem run_pushDepth_of_room (h : s.depth < s.config.maxCallDepth) :
    pushDepth.run s = .ok () { s with depth := s.depth + 1 } := by
  simp only [pushDepth, EStateM.run_bind, EStateM.run_get, if_neg (Nat.not_le_of_lt h)]
  rfl

theorem pushDepth_recounts :
    Ensures pushDepth s (fun _ t ↦ ∃ depth, t = { s with depth }) fun _ t ↦ t = s :=
  .get_bind (.ite (fun _ ↦ .throw_bind rfl) fun _ ↦ .modify ⟨_, rfl⟩)

theorem begin_recounts {x : Exec Entry}
    (h : Ensures x s (fun _ t ↦ s.Recounts t) fun _ t ↦ s.Recounts t) :
    s.Recounts (begin x s).2 := by
  unfold begin
  cases hrun : x.run s with
  | ok e t => exact h.of_ok hrun
  | error x t => exact h.of_error hrun

theorem enterHost_recounts (f : HostFunc) (args : List Number) :
    s.Recounts (begin (do pushDepth; enterHost none f none args) s).2 := by
  refine begin_recounts (.bind (pushDepth_recounts.mono (fun _ _ h ↦ h) fun _ _ h ↦ ⟨_, _, h⟩) ?_)
  rintro _ t ⟨depth, rfl⟩
  exact .bind (.modify (Q := fun _ t ↦ s.Recounts t) ⟨_, _, rfl⟩) fun _ _ ht ↦ .get_bind (.pure ht)

/-- What beginning a call of the function at `addr` leads to: code that runs is the function's, with
the arguments given, and nothing but the count of calls and the journal has changed. -/
theorem enter_begins (s : Store) (caller : Option Nat) (addr : Nat) (args : List Value) :
    s.Recounts (begin (enter caller addr args) s).2 ∧
    ∀ {addr' inst code args'},
      (begin (enter caller addr args) s).1 = .ok (.code addr' inst code args') →
      args' = args ∧ s.funcs[addr]? = some (.code inst code) := by
  have hensures : Ensures (enter caller addr args) s
      (fun e t ↦ s.Recounts t ∧ ∀ {addr' inst code args'}, e = .code addr' inst code args' →
        args' = args ∧ s.funcs[addr]? = some (.code inst code)) fun _ t ↦ s.Recounts t := by
    refine funcAt_looks.bind_ensures (fun _ ↦ ⟨_, _, rfl⟩) fun c hc ↦ ?_
    cases c with
    | code inst code =>
      refine .bind (pushDepth_recounts.mono (fun _ _ h ↦ h) fun _ _ h ↦ ⟨_, _, h⟩) ?_
      rintro _ t ⟨depth, rfl⟩
      refine .pure ⟨⟨_, _, rfl⟩, ?_⟩
      rintro addr' inst' code' args' h
      cases h
      exact ⟨rfl, hc⟩
    | host type f =>
      cases type with
      | none => exact .throw ⟨_, _, rfl⟩
      | some type =>
        refine .bind (pushDepth_recounts.mono (fun _ _ h ↦ h) fun _ _ h ↦ ⟨_, _, h⟩) ?_
        rintro _ t ⟨depth, rfl⟩
        refine Looks.ofExcept.bind_ensures (fun _ ↦ ⟨_, _, rfl⟩) fun numbers _ ↦ ?_
        exact .bind (.modify (Q := fun _ t ↦ s.Recounts t) ⟨_, _, rfl⟩) fun _ _ ht ↦
          .get_bind (.pure ⟨ht, nofun⟩)
  refine ⟨begin_recounts (hensures.mono (fun _ _ h ↦ h.1) fun _ _ h ↦ h), ?_⟩
  unfold begin
  cases hrun : (enter caller addr args).run s with
  | ok e t => exact fun h ↦ (hensures.of_ok hrun).2 (Except.ok.inj h)
  | error x t => exact nofun

end Exec

/-! ## Operations -/

/-- A call of the function `f` is refused with the store as it is, or it begins with arguments that
fit. -/
inductive Operation.Begins {α : Type} (s : Store) (f : Ref .func) : Operation α × Store → Prop
  | settled (a : α) : Begins s f (.settled a, s)
  | host {addr : Nat} {g : HostFunc} (haddr : s.resolve f = some addr)
      (hfunc : s.funcs[addr]? = some (.host none g)) (args : List Number)
      (finish : Except Trap Answer → α) :
      Begins s f (.running
        (Exec.begin (do Exec.pushDepth; Exec.enterHost none g none args) s).1 finish,
        (Exec.begin (do Exec.pushDepth; Exec.enterHost none g none args) s).2)
  | func {addr : Nat} {c : Callable} {type : FuncType} {args : List Value}
      (haddr : s.resolve f = some addr) (hfunc : s.funcs[addr]? = some c)
      (htype : c.type? = some type) (hargs : args.map Value.type = type.params)
      (finish : Except Trap Answer → α) :
      Begins s f (.running (Exec.begin (Exec.enter none addr args) s).1 finish,
        (Exec.begin (Exec.enter none addr args) s).2)

namespace Operation

variable {s : Store} {f : Ref .func}

theorem call_begins (args : List Number) : Begins s f (call s f args) := by
  unfold call
  split
  · exact .settled _
  · rename_i addr haddr
    split
    · exact .settled _
    · rename_i g hg
      exact .host haddr hg args _
    · rename_i callable hnone hc
      obtain ⟨type, htype⟩ := Callable.exists_type hnone
      rw [htype]
      dsimp only [Option.getD_some]
      split
      · exact .settled _
      · rename_i hlen
        split
        · exact .settled _
        · split
          · exact .settled _
          · rename_i values hvalues
            exact .func haddr hc htype (type_of_mapM_toValue (not_not.mp hlen) hvalues) _

theorem callValues_begins (args : List Value) : Begins s f (callValues s f args) := by
  unfold callValues
  split
  · exact .settled _
  · rename_i addr haddr
    split
    · exact .settled _
    · rename_i callable hc
      split
      · exact .settled _
      · rename_i type htype
        split
        · exact .settled _
        · rename_i hlen
          split
          · exact .settled _
          · rename_i hmistyped
            exact .func haddr hc htype (type_of_mistyped (not_not.mp hlen) hmistyped) _

theorem Begins.evolves {α : Type} {o : Operation α × Store} (h : Begins s f o)
    (hs : s.WellFormed) : s.Evolves o.2 := by
  cases h with
  | settled a => exact .refl
  | host _ _ args _ => exact (Store.Change.count (Exec.enterHost_recounts _ args)).evolves hs
  | func _ _ _ _ _ => exact (Store.Change.count (Exec.enter_begins s none _ _).1).evolves hs

theorem instantiate_evolves (hs : s.WellFormed) {m : Module} (hm : m.Decoded) (imports : Imports) :
    s.Evolves (instantiate s m imports).2 := by
  obtain ⟨e, _, -, -, heq, -⟩ | ⟨r, t, i, h, heq | ⟨index, addr, -, -, -, heq⟩⟩ :=
    instantiate_cases hs hm imports
  · rw [heq]
    exact .refl
  · rw [heq]
    exact (Store.Change.link hm h).evolves hs
  · rw [heq]
    exact ((Store.Change.link hm h).evolves hs).tail
      ⟨h.kept.wellFormed, .count (Exec.enter_begins _ none addr []).1⟩

end Operation

/-! ## Steps -/

namespace Engine

variable {s : Store} {stack : List (Frame Suspended)}

theorem stepCode_evolves {a : Activation} {i : Instance} {code : Code} (hs : s.WellFormed)
    (ha : a.Sound s i code) : s.Evolves (compiled.stepCode s a stack).store := by
  have hsteps := ha.step_steps hs
  have hensures := ha.step_ensures hs
  have htouched {t : Store} (h : s.Touched i t) : s.Evolves t :=
    (Store.Change.statement ha.inst h).evolves hs
  unfold stepCode
  split
  · rename_i a' t hrun
    exact htouched (hsteps.of_ok hrun).1
  · rename_i caller addr args w t hrun
    exact (htouched (hsteps.of_ok hrun).1).tail ⟨(hensures.of_ok hrun).1.wellFormed,
      .count (Exec.enter_begins t (some caller) addr args).1⟩
  · rename_i v t hrun
    exact (htouched (hsteps.of_ok hrun).1).tail ⟨(hensures.of_ok hrun).1.wellFormed,
      .count ⟨_, _, rfl⟩⟩
  · rename_i x t hrun
    exact htouched (hsteps.of_error hrun)

theorem suspend_evolves {α : Type} {type : Option FuncType} {depth : Nat} {next : α → HostProgram}
    {o : Operation α × Store} (h : s.Evolves o.2) :
    s.Evolves (compiled.suspend type depth next stack o).store := by
  rw [suspend_store]
  exact h

theorem stepHost_evolves {type : Option FuncType} {p : HostProgram} (hs : s.WellFormed)
    (hp : p.Lawful) : s.Evolves (compiled.stepHost s type stack p).store := by
  cases hp with
  | done r =>
    cases r with
    | ok x => exact (Store.Change.count ⟨_, _, rfl⟩).evolves hs
    | error x => exact .refl
  | query _ => exact (Store.Change.query _).evolves hs
  | call _ => exact suspend_evolves ((Operation.call_begins _).evolves hs)
  | callValues _ => exact suspend_evolves ((Operation.callValues_begins _).evolves hs)
  | instantiate hm _ => exact suspend_evolves (Operation.instantiate_evolves hs hm _)
  | newFunc hbody _ => exact (Store.Change.newFunc _ (f := ⟨_, _⟩) hbody).evolves hs

theorem next_evolves {base : Option FuncType} {m m' : Machine Activation Suspended}
    (hm : m.Sound base) (hnext : compiled.next m = .next m') : m.store.Evolves m'.store := by
  obtain ⟨s, control, stack⟩ := m
  obtain ⟨hs, type, hcontrol, hstack⟩ := hm
  cases hcontrol with
  | code ha =>
    cases hnext
    exact stepCode_evolves hs ha
  | host hp =>
    cases hnext
    exact stepHost_evolves hs hp
  | @answer _ r _ =>
    cases hstack with
    | nil => cases hnext
    | code _ _ => cases r <;> cases hnext <;> exact .refl
    | host _ _ =>
      cases r <;> cases hnext <;> exact (Store.Change.count ⟨_, _, rfl⟩).evolves hs

end Engine

namespace World

theorem Step.evolves {w w' : World} {issued : List Handle} (hw : w.Sound)
    (h : w.Step issued w') : w.store.Evolves w'.store := by
  cases h with
  | query s q => exact (Store.Change.query q).evolves hw
  | newFunc s type hf => exact (Store.Change.newFunc type hf).evolves hw
  | call s f args =>
    rw [store_ofOperation]
    exact (Operation.call_begins args).evolves hw
  | callValues s f args =>
    rw [store_ofOperation]
    exact (Operation.callValues_begins args).evolves hw
  | instantiate s hm imports =>
    rw [store_ofOperation]
    exact Operation.instantiate_evolves hw hm imports
  | next h =>
    obtain ⟨type, hm⟩ := hw
    exact Engine.next_evolves hm h
  | @done base m r s h =>
    obtain ⟨type, hm⟩ := hw
    cases Engine.done_cases h
    exact (Store.Change.count ⟨_, _, rfl⟩).evolves hm.wellFormed

/-- Whatever is done with a store, it changes in these ways only. -/
theorem Leads.evolves {w w' : World} (hw : w.Sound) (h : w.Leads w') :
    w.store.Evolves w'.store := by
  induction h with
  | refl => exact .refl
  | tail hleads hstep ih =>
    obtain ⟨issued, hstep⟩ := hstep
    exact ih.trans (hstep.evolves (Leads.sound hw hleads).1)

theorem Reachable.evolves {w : World} (hw : w.Reachable) :
    ∃ id config, Store.Evolves { id, config } w.store := by
  obtain ⟨id, config, hleads⟩ := hw
  have hempty : Store.WellFormed { id, config } := ⟨nofun, nofun, nofun, nofun⟩
  exact ⟨id, config, hleads.evolves (w := .idle { id, config }) hempty⟩

end World

/-! ## Constants -/

namespace Store

variable {s t : Store}

/-- Every global of the first store that is not mutable is the same in the second. -/
def KeepsConstants (s t : Store) : Prop :=
  ∀ {a : Nat} {g : Global}, s.globals[a]? = some g → g.type.isMutable = false →
    t.globals[a]? = some g

theorem Touched.keepsConstants {i : Instance} (h : s.Touched i t) : s.KeepsConstants t := by
  intro b g hg hconst
  cases h with
  | same => exact hg
  | memory => exact hg
  | @global a g' v ha hg' hmutable =>
    -- The global that is set is mutable, so it is another one.
    have hne : a ≠ b := by
      rintro rfl
      cases hg.symm.trans hg'
      cases hconst.symm.trans hmutable
    rw [Array.getElem?_modify, if_neg hne]
    exact hg

theorem Change.keepsConstants (h : s.Change t) (hs : s.WellFormed) : s.KeepsConstants t := by
  intro a g hg hconst
  cases h with
  | count h =>
    obtain ⟨depth, journal, rfl⟩ := h
    exact hg
  | statement _ h => exact h.keepsConstants hg hconst
  | query q =>
    obtain ⟨tables, memories, heq⟩ := s.answer_eq q
    rw [heq]
    exact hg
  | newFunc type _ => exact hg
  | @link m imports r t i hm h =>
    obtain ⟨tables, memories, heq⟩ := r.2.apply_eq t
    rw [heq]
    exact getElem?_of_prefix ((Link.link_ensures hs hm).of_ok h.linked).grows.globals hg

theorem Evolves.keepsConstants (h : s.Evolves t) : s.KeepsConstants t := by
  induction h with
  | refl => exact fun hg _ ↦ hg
  | tail _ hstep ih =>
    exact fun hg hconst ↦ hstep.2.keepsConstants hstep.1 (ih hg hconst) hconst

end Store

end WasmEngine
