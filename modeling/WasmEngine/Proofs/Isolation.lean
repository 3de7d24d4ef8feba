import WasmEngine.Proofs.Evolution

/-!
# Code is confined to what it can reach

Code of an instance can call the functions of that instance and those in its tables, and so run code
of other instances, which can call further. While no host function runs, that is all it can do: it
changes memories and mutable globals of the instances that it reaches in this way, and leaves every
other item of the store as it is, whether it returns or traps.
-/

namespace WasmEngine

open Relation

def Callable.owner? : Callable → Option Nat
  | code inst _ => some inst
  | host _ _ => none

theorem Callable.eq_code_of_owner {c : Callable} {inst : Nat} (h : c.owner? = some inst) :
    ∃ code, c = .code inst code := by
  cases c with
  | code inst' code => exact ⟨code, congrArg (Callable.code · code) (Option.some.inj h)⟩
  | host type f => cases h

namespace Store

/-- Code of the instance at the first address can call code of the instance at the second. -/
def Links (s : Store) (inst inst' : Nat) : Prop :=
  ∃ i addr c, s.instances[inst]? = some i ∧ i.Calls s addr ∧ s.funcs[addr]? = some c ∧
    c.owner? = some inst'

/-- Calls can lead from code of the first instance to code of the second. -/
def Reaches (s : Store) : Nat → Nat → Prop := ReflTransGen s.Links

/-- What code may have made of a store while it was in instances of `R`. -/
structure Confined (s : Store) (R : Nat → Prop) (t : Store) : Prop where
  funcs : t.funcs = s.funcs
  tables : t.tables = s.tables
  instances : t.instances = s.instances
  memoryCount : t.memories.size = s.memories.size
  globalCount : t.globals.size = s.globals.size
  immutable : ∀ {a : Nat} {g : Global}, s.globals[a]? = some g → g.type.isMutable = false →
    t.globals[a]? = some g
  grows : ∀ {a : Nat} {x : Memory}, s.memories[a]? = some x →
    ∃ x', t.memories[a]? = some x' ∧ x.bytes.size ≤ x'.bytes.size
  memories : ∀ {a : Nat}, (∀ inst i, R inst → s.instances[inst]? = some i → a ∉ i.memories) →
    t.memories[a]? = s.memories[a]?
  globals : ∀ {a : Nat}, (∀ inst i, R inst → s.instances[inst]? = some i → a ∉ i.globals) →
    t.globals[a]? = s.globals[a]?

namespace Confined

variable {s t u : Store} {R : Nat → Prop}

/-- The calls in progress and the journal do not matter. -/
theorem of_recounts (h : s.Recounts t) : s.Confined R t := by
  obtain ⟨depth, journal, rfl⟩ := h
  exact ⟨rfl, rfl, rfl, rfl, rfl, fun hg _ ↦ hg, fun hx ↦ ⟨_, hx, Nat.le_refl _⟩, fun _ ↦ rfl,
    fun _ ↦ rfl⟩

theorem trans (h : s.Confined R t) (h' : t.Confined R u) : s.Confined R u where
  funcs := h'.funcs.trans h.funcs
  tables := h'.tables.trans h.tables
  instances := h'.instances.trans h.instances
  memoryCount := h'.memoryCount.trans h.memoryCount
  globalCount := h'.globalCount.trans h.globalCount
  immutable hg hmutable := h'.immutable (h.immutable hg hmutable) hmutable
  grows hx := by
    obtain ⟨y, hy, hxy⟩ := h.grows hx
    obtain ⟨z, hz, hyz⟩ := h'.grows hy
    exact ⟨z, hz, Nat.le_trans hxy hyz⟩
  memories hout := by
    rw [h'.memories (by rwa [h.instances]), h.memories hout]
  globals hout := by
    rw [h'.globals (by rwa [h.instances]), h.globals hout]

end Confined

end Store

theorem Memory.Change.size_le {x x' : Memory} (h : Memory.Change x x') :
    x.bytes.size ≤ x'.bytes.size := by
  cases h with
  | write addr bytes => simp [Memory.write]
  | grow hgrow =>
    simp only [Memory.grow] at hgrow
    split at hgrow
    · cases hgrow
      simp
    · cases hgrow

/-- A step of code is confined to the instance of the code. -/
theorem Store.Touched.confined {s t : Store} {R : Nat → Prop} {inst : Nat} {i : Instance}
    (hi : s.instances[inst]? = some i) (hR : R inst) (h : s.Touched i t) : s.Confined R t := by
  have hsame : s.Confined R s := .of_recounts ⟨_, _, rfl⟩
  have hkeeps : s.KeepsConstants t := h.keepsConstants
  cases h with
  | same => exact hsame
  | @memory a x x' ha hx hchange =>
    refine { hsame with memoryCount := by simp [setMemory], grows := ?_, memories := ?_ }
    · intro b y hy
      simp only [setMemory, Array.getElem?_setIfInBounds]
      split
      · rename_i hab
        subst hab
        obtain rfl := Option.some.inj (hx.symm.trans hy)
        rw [if_pos (Array.getElem?_eq_some_iff.mp hx).1]
        exact ⟨x', rfl, hchange.size_le⟩
      · exact ⟨y, hy, Nat.le_refl _⟩
    · intro b hout
      have hne : a ≠ b := by
        rintro rfl
        exact hout inst i hR hi ha
      simp only [setMemory, Array.getElem?_setIfInBounds, if_neg hne]
  | @global a g v ha hg hmutable =>
    refine { hsame with globalCount := by simp, immutable := hkeeps, globals := ?_ }
    intro b hout
    have hne : a ≠ b := by
      rintro rfl
      exact hout inst i hR hi ha
    simp only [Array.getElem?_modify, if_neg hne]

/-! ## Calls -/

theorem Suspended.inst_of_resume {w : Suspended} {v : Option Value} {a : Activation}
    (h : w.resume v = .ok a) : a.inst = w.activation.inst := by
  obtain ⟨⟨inst, slots, regions, returned⟩, result⟩ := w
  cases result with
  | none =>
    cases h
    rfl
  | some slot =>
    cases v with
    | none => cases h
    | some v =>
      obtain ⟨slots', -, h⟩ := except_bind_eq_ok.mp h
      cases h
      rfl

/-! ## Runs -/

def Control.isHost {A : Type} : Control A → Bool
  | .host _ _ => true
  | _ => false

/-- All code that runs or waits belongs to instances of `R`, and has done to the store `s` what code
of these instances may do. -/
structure Machine.Within (s : Store) (R : Nat → Prop) (m : Machine Activation Suspended) :
    Prop where
  confined : s.Confined R m.store
  control : ∀ {a : Activation}, m.control = .code a → R a.inst
  frames : ∀ {w : Suspended}, .code w ∈ m.stack → R w.activation.inst

namespace Engine

variable {s : Store} {R : Nat → Prop} {base : Option FuncType}

/-- A step of code stays within the instances that calls can lead to. -/
theorem stepCode_within (hR : ∀ {inst inst'}, R inst → s.Links inst inst' → R inst') {t : Store}
    {a : Activation} {i : Instance} {code : Code} {stack : List (Frame Suspended)}
    (ht : t.WellFormed) (ha : a.Sound t i code) (h : Machine.Within s R ⟨t, .code a, stack⟩) :
    (compiled.stepCode t a stack).Within s R := by
  have hsteps := ha.step_steps ht
  have hinst := h.control rfl
  have htouched {u : Store} (hu : t.Touched i u) : s.Confined R u :=
    h.confined.trans (hu.confined ha.inst hinst)
  unfold stepCode
  split
  · rename_i a' u hrun
    obtain ⟨hu, ha'⟩ := hsteps.of_ok hrun
    refine ⟨htouched hu, ?_, h.frames⟩
    rintro b hb
    cases hb
    exact (ha' : a'.inst = a.inst) ▸ hinst
  · rename_i caller addr args w u hrun
    obtain ⟨hu, hw, hcalls⟩ := hsteps.of_ok hrun
    obtain ⟨hbegun, hcode⟩ := Exec.enter_begins u (some caller) addr args
    have hconfined := htouched hu
    refine ⟨hconfined.trans (.of_recounts hbegun), ?_, ?_⟩
    · intro b hb
      -- Code that starts to run is that of a function which the instance of the caller can call.
      cases he : (Exec.begin (Exec.enter (some caller) addr args) u).1 with
      | error x => simp only [he, begin] at hb; cases hb
      | ok e =>
        cases e with
        | host type p => simp only [he, begin] at hb; cases hb
        | code addr' inst' code' args' =>
          simp only [he, begin] at hb
          cases hb
          obtain ⟨-, hfunc⟩ := hcode he
          refine hR hinst ⟨i, addr, .code inst' code', ?_, ?_, ?_, rfl⟩
          · rw [← h.confined.instances]
            exact ha.inst
          · simpa only [Instance.Calls, ← h.confined.tables] using hcalls
          · rwa [← hconfined.funcs]
    · intro w' hw'
      obtain heq | hw' := List.mem_cons.mp hw'
      · cases heq
        exact hw ▸ hinst
      · exact h.frames hw'
  · rename_i v u hrun
    obtain ⟨hu, -⟩ := hsteps.of_ok hrun
    exact ⟨(htouched hu).trans (.of_recounts ⟨_, _, rfl⟩), nofun, h.frames⟩
  · rename_i x u hrun
    exact ⟨htouched (hsteps.of_error hrun), nofun, h.frames⟩

theorem next_within (hR : ∀ {inst inst'}, R inst → s.Links inst inst' → R inst')
    {m m' : Machine Activation Suspended} (hm : m.Sound base) (hhost : m.control.isHost = false)
    (hnext : compiled.next m = .next m') (h : m.Within s R) : m'.Within s R := by
  obtain ⟨t, control, stack⟩ := m
  obtain ⟨ht, type, hcontrol, hstack⟩ := hm
  cases hcontrol with
  | code ha =>
    cases hnext
    exact stepCode_within hR ht ha h
  | host _ => cases hhost
  | @answer _ r hr =>
    cases hstack with
    | nil => cases hnext
    | @code w i code callee stack hw _ =>
      have hframes {w' : Suspended} (hw' : .code w' ∈ stack) : R w'.activation.inst :=
        h.frames (List.mem_cons_of_mem _ hw')
      cases r with
      | error x =>
        cases hnext
        exact ⟨h.confined, by simp, hframes⟩
      | ok answer =>
        cases hnext
        refine ⟨h.confined, ?_, hframes⟩
        intro a ha
        simp only [deliver] at ha
        split at ha
        · rename_i a' hresume
          cases ha
          obtain ⟨v, -, hresume⟩ := except_bind_eq_ok.mp hresume
          rw [Suspended.inst_of_resume hresume]
          exact h.frames List.mem_cons_self
        · cases ha
    | @host _ _ _ _ stack _ _ =>
      have hframes {w' : Suspended} (hw' : .code w' ∈ stack) : R w'.activation.inst :=
        h.frames (List.mem_cons_of_mem _ hw')
      cases r <;> cases hnext <;>
        exact ⟨h.confined.trans (.of_recounts ⟨_, _, rfl⟩), by simp, hframes⟩

/-- A step of a call above `frames` in which no host program runs. -/
def QuietStep (frames : List (Frame Suspended)) (m m' : Machine Activation Suspended) : Prop :=
  compiled.StepAbove frames m m' ∧ m.control.isHost = false

/-- A call of code is confined to the instances that it reaches as long as no host program runs. -/
theorem quiet_confined {inst : Nat} {code : Code} {args : List Value} {t : Store} {i : Instance}
    {frames : List (Frame Suspended)} {m : Machine Activation Suspended}
    (hs : s.Confined (s.Reaches inst) t) (ht : t.WellFormed) (hi : t.instances[inst]? = some i)
    (hcode : code ∈ i.module.code) (hargs : args.map Value.type = code.type.params)
    (hrun : ReflTransGen (QuietStep frames)
      ⟨t, .code (Activation.start inst code args), frames⟩ m) :
    s.Confined (s.Reaches inst) m.store := by
  have hclosed {k k' : Nat} (hk : s.Reaches inst k) (hlinks : s.Links k k') : s.Reaches inst k' :=
    hk.tail hlinks
  -- All along, what is above `frames` is a sound machine of its own within those instances.
  have habove : ∃ m₀ : Machine Activation Suspended, m = m₀.above frames ∧
      m₀.Sound (some code.type) ∧ m₀.Within s (s.Reaches inst) := by
    induction hrun with
    | refl =>
      refine ⟨⟨t, .code (Activation.start inst code args), []⟩, rfl,
        ⟨ht, _, .code (Activation.start_sound ht hi hcode hargs), .nil⟩, hs, ?_, nofun⟩
      intro a ha
      cases ha
      exact .refl
    | tail _ hstep ih =>
      obtain ⟨m₀, rfl, hm₀, hwithin⟩ := ih
      obtain ⟨m₁, hnext, rfl⟩ := hstep.1.exists_next
      exact ⟨m₁, rfl, (next_follows hm₀ hnext).sound, next_within hclosed hm₀ hstep.2 hnext hwithin⟩
  obtain ⟨m₀, rfl, -, hwithin⟩ := habove
  exact hwithin.confined

/-- No host program runs in the first steps of a machine. -/
def hostFree : Nat → Machine Activation Suspended → Bool
  | 0, m => !m.control.isHost
  | fuel + 1, m => !m.control.isHost &&
    match compiled.next m with
    | .next m => hostFree fuel m
    | .done _ _ => true

theorem quiet_of_run {fuel : Nat} {m : Machine Activation Suspended} {r : Except Trap Answer}
    {t : Store} (hfree : hostFree fuel m = true) (hrun : compiled.run fuel m = some (r, t)) :
    ReflTransGen (QuietStep []) m ⟨t, .answer r, []⟩ := by
  induction fuel generalizing m with
  | zero => cases hrun
  | succ fuel ih =>
    simp only [hostFree, Bool.and_eq_true, Bool.not_eq_true'] at hfree
    obtain ⟨hhost, hfree⟩ := hfree
    unfold Engine.run at hrun
    split at hrun
    · rename_i m' hnext
      rw [hnext] at hfree
      refine (ih hfree hrun).head ⟨⟨hnext, ?_⟩, hhost⟩
      rintro ⟨hstack, x, hcontrol⟩
      obtain ⟨s, control, stack⟩ := m
      cases hstack
      cases hcontrol
      cases x <;> cases hnext
    · rename_i hnext
      cases hrun
      cases done_cases hnext
      exact .refl

end Engine

/-! ## Calls of an embedder -/

namespace Operation

variable {α : Type} {s : Store} {addr inst : Nat} {code : Code}

/-- No host program runs in the first steps of an operation. -/
def hostFree (fuel : Nat) : Operation α × Store → Bool
  | (.settled _, _) => true
  | (.running e _, s) => Engine.hostFree fuel ⟨s, Engine.compiled.begin s e, []⟩

theorem Begins.confined {f : Ref .func} {o : Operation α × Store} (h : Begins s f o)
    (hs : s.WellFormed) (hf : s.resolve f = some addr)
    (hfunc : s.funcs[addr]? = some (.code inst code)) {fuel base : Nat} {a : α} {s' : Store}
    (hfree : hostFree fuel o = true)
    (hcomplete : Engine.compiled.complete fuel base o = some (a, s')) :
    s.Confined (s.Reaches inst) s' := by
  cases h with
  | settled a =>
    cases hcomplete
    exact .of_recounts ⟨_, _, rfl⟩
  | host haddr hhost _ _ =>
    cases hf.symm.trans haddr
    cases hfunc.symm.trans hhost
  | @func _ _ _ args haddr hc htype hargs finish =>
    cases hf.symm.trans haddr
    cases hfunc.symm.trans hc
    cases htype
    obtain ⟨⟨r, u⟩, hrun, hu⟩ := Option.bind_eq_some_iff.mp hcomplete
    cases hu
    have hquiet := Engine.quiet_of_run hfree hrun
    have hwf := (Exec.begin_fits (Exec.enter_ensures hs none ⟨_, hfunc, rfl⟩ hargs)).1.wellFormed
    obtain ⟨hbegun, hcode⟩ := Exec.enter_begins s none addr args
    have hsame : s.Confined (s.Reaches inst) (Exec.begin (Exec.enter none addr args) s).2 :=
      .of_recounts hbegun
    refine Store.Confined.trans (t := u) ?_ (.of_recounts ⟨_, _, rfl⟩)
    cases he : (Exec.begin (Exec.enter none addr args) s).1 with
    | error x =>
      -- The call is refused, and the outcome is there at once.
      rw [he] at hrun
      cases fuel with
      | zero => cases hrun
      | succ fuel =>
        cases hrun
        exact hsame
    | ok e =>
      cases e with
      | host type p =>
        simp only [hostFree, he] at hfree
        cases fuel <;> cases hfree
      | code addr' inst' code' args' =>
        obtain ⟨rfl, hfunc'⟩ := hcode he
        cases hfunc.symm.trans hfunc'
        obtain ⟨i, hi, hmem⟩ := hs.funcs hfunc
        rw [he] at hquiet
        exact Engine.quiet_confined hsame hwf (hsame.instances ▸ hi) hmem hargs hquiet

end Operation

/-- A call of code during which no host function runs changes nothing but memories and mutable
globals of the instances that it can reach, whether it returns or traps, and whether code, a host
function or the embedder makes it. -/
theorem Store.WellFormed.calls_isolated {s : Store} (hs : s.WellFormed) {addr inst : Nat}
    {code : Code} (hfunc : s.funcs[addr]? = some (.code inst code)) :
    (∀ {args frames m}, args.map Value.type = code.type.params →
      ReflTransGen (Engine.QuietStep frames)
        ⟨s, .code (Activation.start inst code args), frames⟩ m →
      s.Confined (s.Reaches inst) m.store) ∧
    ∀ {fuel f}, s.resolve f = some addr →
      (∀ {args r s'}, Operation.hostFree fuel (Operation.call s f args) = true →
        s.call fuel f args = some (r, s') → s.Confined (s.Reaches inst) s') ∧
      ∀ {args r s'}, Operation.hostFree fuel (Operation.callValues s f args) = true →
        s.callValues fuel f args = some (r, s') → s.Confined (s.Reaches inst) s' := by
  refine ⟨fun {args frames m} hargs hrun ↦ ?_, fun {fuel f} hf ↦ ⟨?_, ?_⟩⟩
  · obtain ⟨i, hi, hmem⟩ := hs.funcs hfunc
    exact Engine.quiet_confined (.of_recounts ⟨_, _, rfl⟩) hs hi hmem hargs hrun
  · intro args r s'
    exact (Operation.call_begins args).confined hs hf hfunc
  · intro args r s'
    exact (Operation.callValues_begins args).confined hs hf hfunc

/-- A binary with a mutable global and a function that sets it and then traps. -/
def setBinary : List UInt8 :=
  [0, 0x61, 0x73, 0x6d, 1, 0, 0, 0,
   1, 4, 1, 0x60, 0, 0,
   3, 2, 1, 0,
   6, 6, 1, 0x7f, 1, 0x41, 0, 0x0b,
   10, 9, 1, 7, 0, 0x41, 7, 0x24, 0, 0, 0x0b]

/-- Of two instances, the first sets its global before it traps. -/
theorem setting_call_isolated :
    ∃ s code s', (World.idle s).Reachable ∧ s.WellFormed ∧ s.resolve (⟨0, 0⟩ : Ref .func) = some 0 ∧
      s.funcs[0]? = some (.code 0 code) ∧
      Operation.hostFree 9 (Operation.callValues s ⟨0, 0⟩ []) = true ∧
      s.callValues 9 ⟨0, 0⟩ [] = some (.error .unreachable, s') ∧
      s.globals.toList.map (·.value) = [.i32 0, .i32 0] ∧
      s'.globals.toList.map (·.value) = [.i32 7, .i32 0] ∧ s.Confined (s.Reaches 0) s' := by
  have hload : ((Store.load 1 { id := 0 } setBinary).bind fun p ↦ (p.2.load 1 setBinary).map fun q ↦
      (q.2.resolve (⟨0, 0⟩ : Ref .func), q.2.funcs[0]?.bind Callable.owner?,
        q.2.globals.toList.map (·.value))) = some (some 0, some 0, [.i32 0, .i32 0]) := by
    decide +kernel
  have hcall : ((Store.load 1 { id := 0 } setBinary).bind fun p ↦
      (p.2.load 1 setBinary).bind fun q ↦ (q.2.callValues 9 ⟨0, 0⟩ []).map fun u ↦
        (Operation.hostFree 9 (Operation.callValues q.2 ⟨0, 0⟩ []), u.1,
          u.2.globals.toList.map (·.value))) =
      some (true, .error .unreachable, [.i32 7, .i32 0]) := by
    decide +kernel
  obtain ⟨p, hp, hload⟩ := Option.bind_eq_some_iff.mp hload
  obtain ⟨q, hq, hload⟩ := Option.map_eq_some_iff.mp hload
  rw [hp, Option.bind_some, hq, Option.bind_some] at hcall
  obtain ⟨u, hu, hcall⟩ := Option.map_eq_some_iff.mp hcall
  injection hload with hresolve hload
  injection hload with howner hglobals
  injection hcall with hfree hcall
  injection hcall with hresult hset
  obtain ⟨c, hc, howner⟩ := Option.bind_eq_some_iff.mp howner
  obtain ⟨code, rfl⟩ := Callable.eq_code_of_owner howner
  have hw := ((World.reachable_new 0 {}).load hp).load hq
  have hs : q.2.WellFormed := hw.sound
  have hrun : q.2.callValues 9 ⟨0, 0⟩ [] = some (.error .unreachable, u.2) := by
    rw [hu, ← hresult]
  exact ⟨q.2, code, u.2, hw, hs, hresolve, hc, hfree, hrun, hglobals, hset,
    ((hs.calls_isolated hc).2 hresolve).2 hfree hrun⟩

end WasmEngine
