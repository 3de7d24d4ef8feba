import WasmEngine.Proofs.Evolution

/-!
# Calls in progress are counted exactly

The depth of a store is to be the number of calls in progress. It goes up in one place, where a call
begins, and comes down in several: code returns, a host program ends, and where an operation ends
that a host program or the embedder asked for, the depth is set back to what it was when it began.
A trap does not lower the depth by itself, so that it counts too much until then.

What one step does to the depth and to the stack of frames is said once, by `Moves`. From that comes
the invariant that the depth is the number of frames and of what runs, except while a trap is handed
on, when it may be more.
-/

namespace WasmEngine

open Relation

/-- Whether a call runs, rather than the outcome of one being handed on. -/
def Control.runs {A : Type} : Control A → Bool
  | .answer _ => false
  | _ => true

/-- How many calls are in progress: those that wait, and the one that runs. -/
def Machine.live {A W : Type} (m : Machine A W) : Nat := m.stack.length + m.control.runs.toNat

/-! ## Beginning a call -/

/-- What it comes to when a call is begun in the store `s`: it is refused if there is no room for
one more, and it is counted otherwise, even if it fails for another reason. -/
inductive Store.Admits (s : Store) : Except Trap Entry → Store → Prop
  | full {t : Store} (hfull : s.config.maxCallDepth ≤ s.depth) (hdepth : t.depth = s.depth) :
      Admits s (.error (.callStackExhausted s.depth)) t
  | counted {e : Except Trap Entry} {t : Store} (hroom : s.depth < s.config.maxCallDepth)
      (hdepth : t.depth = s.depth + 1) (he : ∀ d, e ≠ .error (.callStackExhausted d)) :
      Admits s e t

theorem Store.Admits.congr {s s' t : Store} {e : Except Trap Entry} (h : s.Admits e t)
    (hdepth : s.depth = s'.depth) (hconfig : s.config = s'.config) : s'.Admits e t := by
  cases h with
  | full hfull ht =>
    rw [hdepth]
    exact .full (by rw [← hdepth, ← hconfig]; exact hfull) (ht.trans hdepth)
  | counted hroom ht he =>
    exact .counted (by rw [← hdepth, ← hconfig]; exact hroom) (by rw [ht, hdepth]) he

namespace Exec

variable {s : Store}

/-- The program neither counts calls nor finds that there are too many. -/
def KeepsCount {α : Type} (x : Exec α) : Prop :=
  ∀ s, Ensures x s (fun _ t ↦ t.depth = s.depth) fun e t ↦
    t.depth = s.depth ∧ ∀ d, e ≠ .callStackExhausted d

theorem enterHost_keepsCount (type : Option FuncType) (f : HostFunc) (caller : Option Nat)
    (args : List Number) : KeepsCount (enterHost type f caller args) :=
  fun s ↦ .bind (.modify (Q := fun _ t ↦ t.depth = s.depth) rfl) fun _ _ ht ↦
    .get_bind (.pure ht)

/-- A call is counted before anything else, or refused. -/
theorem begin_admits {x : Exec Entry} (hx : KeepsCount x) :
    s.Admits (begin (do pushDepth; x) s).1 (begin (do pushDepth; x) s).2 := by
  obtain hroom | hfull := Nat.lt_or_ge s.depth s.config.maxCallDepth
  · simp only [begin, EStateM.run_bind, run_pushDepth_of_room hroom]
    have hensures := hx { s with depth := s.depth + 1 }
    cases hrun : x.run { s with depth := s.depth + 1 } with
    | ok e t => exact .counted hroom (hensures.of_ok hrun) nofun
    | error e t =>
      obtain ⟨hdepth, he⟩ := hensures.of_error hrun
      exact .counted hroom hdepth fun d hd ↦ he d (Except.error.inj hd)
  · simp only [begin, EStateM.run_bind, run_pushDepth_of_full hfull]
    exact .full hfull rfl

theorem enter_admits (caller : Option Nat) {addr : Nat} {type : FuncType} (args : List Value)
    (hfunc : s.HasFunc addr type) :
    s.Admits (begin (enter caller addr args) s).1 (begin (enter caller addr args) s).2 := by
  obtain ⟨c, hc, htype⟩ := hfunc
  have hfound := run_funcAt hc
  cases c with
  | code inst code =>
    have hbegin : begin (enter caller addr args) s =
        begin (do pushDepth; return .code addr inst code args) s := by
      simp only [begin, enter, EStateM.run_bind, hfound]
    rw [hbegin]
    exact begin_admits fun _ ↦ .pure rfl
  | host type' f =>
    cases type' with
    | none => cases htype
    | some type' =>
      have hbegin : begin (enter caller addr args) s = begin (do
          pushDepth
          let numbers ← ofExcept (args.mapM Number.ofValue)
          enterHost (some type') f caller numbers) s := by
        simp only [begin, enter, EStateM.run_bind, hfound]
      rw [hbegin]
      refine begin_admits fun t ↦ ?_
      refine .bind (.ofExcept (Q := fun _ u ↦ u = t) (fun _ _ ↦ rfl) fun e he ↦ ⟨rfl, ?_⟩) ?_
      · obtain ⟨v, -, hv⟩ := except_mapM_eq_error he
        cases v <;> cases hv
        exact nofun
      · rintro numbers u rfl
        exact enterHost_keepsCount (some type') f caller numbers u

end Exec

/-! ## Operations -/

/-- An operation begun in the store `s` is settled without a call that is counted, or comes to a
call that is. -/
inductive OperationCounts {α : Type} (s : Store) : Operation α × Store → Prop
  | settled {a : α} {t : Store} (hdepth : t.depth = s.depth) : OperationCounts s (.settled a, t)
  | running {e : Except Trap Entry} {finish : Except Trap Answer → α} {t : Store}
      (he : s.Admits e t) : OperationCounts s (.running e finish, t)

theorem Link.Prepared.depth_eq {s t : Store} {m : Module} {imports : Imports}
    {r : Nat × SegmentPlan} {i : Instance} (hs : s.WellFormed) (hm : m.Decoded)
    (h : Prepared s m imports r t i) : (r.2.apply t).depth = s.depth := by
  obtain ⟨tables, memories, heq⟩ := r.2.apply_eq t
  rw [heq]
  exact ((link_ensures hs hm).of_ok h.linked).grows.depth

namespace Operation

variable {s : Store}

theorem Begins.counts {α : Type} {f : Ref .func} {o : Operation α × Store} (h : Begins s f o) :
    OperationCounts s o := by
  cases h with
  | settled a => exact .settled rfl
  | host _ _ args _ =>
    exact .running (Exec.begin_admits (Exec.enterHost_keepsCount none _ none args))
  | func _ hfunc htype _ _ => exact .running (Exec.enter_admits none _ ⟨_, hfunc, htype⟩)

theorem instantiate_counts (hs : s.WellFormed) {m : Module} (hm : m.Decoded) (imports : Imports) :
    OperationCounts s (instantiate s m imports) := by
  obtain ⟨e, _, -, -, heq, -⟩ | ⟨r, t, i, h, heq | ⟨index, addr, -, -, hfunc, heq⟩⟩ :=
    instantiate_cases hs hm imports
  · rw [heq]
    exact .settled rfl
  · rw [heq]
    exact .settled (h.depth_eq hs hm)
  · rw [heq]
    exact .running ((Exec.enter_admits none [] hfunc).congr (h.depth_eq hs hm) h.kept.ext.config)

end Operation

/-! ## Steps of the machine -/

/-- The frame of a host program says at which depth the operation began that it waits for. -/
def Frame.BegunAt {W : Type} (depth : Nat) : Frame W → Prop
  | .code _ => True
  | .host _ base _ => base = depth

/-- What a step does to the depth and to the stack. -/
inductive Machine.Moves :
    Machine Activation Suspended → Machine Activation Suspended → Prop
  /-- What runs goes on. -/
  | goOn {s t : Store} {c c' : Control Activation} {stack : List (Frame Suspended)}
      (hc : c.runs = true) (hc' : c'.runs = true) (hdepth : t.depth = s.depth) :
      Moves ⟨s, c, stack⟩ ⟨t, c', stack⟩
  /-- What runs makes a call and waits for it. -/
  | call {s t : Store} {c : Control Activation} {e : Except Trap Entry}
      {frame : Frame Suspended} {stack : List (Frame Suspended)} (hc : c.runs = true)
      (hframe : frame.BegunAt s.depth) (he : s.Admits e t) :
      Moves ⟨s, c, stack⟩ ⟨t, Engine.compiled.begin t e, frame :: stack⟩
  /-- What runs ends, and its call is no longer counted. -/
  | ret {s t : Store} {c : Control Activation} {r : Except Trap Answer}
      {stack : List (Frame Suspended)} (hc : c.runs = true) (hdepth : t.depth = s.depth - 1)
      (hr : ∀ d, r ≠ .error (.callStackExhausted d)) : Moves ⟨s, c, stack⟩ ⟨t, .answer r, stack⟩
  /-- What runs traps. -/
  | trap {s t : Store} {c : Control Activation} {x : Trap} {stack : List (Frame Suspended)}
      (hc : c.runs = true) (hdepth : t.depth = s.depth)
      (hx : ∀ d, x = .callStackExhausted d → ∃ type, c = .host type (.done (.error x))) :
      Moves ⟨s, c, stack⟩ ⟨t, .answer (.error x), stack⟩
  /-- Code takes the value that it waited for. -/
  | resume {s : Store} {answer : Answer} {w : Suspended} {a : Activation}
      {stack : List (Frame Suspended)} :
      Moves ⟨s, .answer (.ok answer), .code w :: stack⟩ ⟨s, .code a, stack⟩
  /-- A trap drops code that waits. -/
  | drop {s : Store} {x : Trap} {w : Suspended} {stack : List (Frame Suspended)} :
      Moves ⟨s, .answer (.error x), .code w :: stack⟩ ⟨s, .answer (.error x), stack⟩
  /-- A host program goes on, and the depth is what it was. -/
  | regain {s : Store} {r : Except Trap Answer} {type : Option FuncType} {base : Nat}
      {next : Except Trap Answer → HostProgram} {stack : List (Frame Suspended)} :
      Moves ⟨s, .answer r, .host type base next :: stack⟩
        ⟨{ s with depth := base }, .host type (next r), stack⟩

theorem Store.Touched.depth_eq {s t : Store} {i : Instance} (h : s.Touched i t) :
    t.depth = s.depth := by
  cases h <;> rfl

/-- A query counts no calls. -/
theorem Store.depth_answer (s : Store) (q : Query) : (s.answer q).2.depth = s.depth := by
  obtain ⟨tables, memories, heq⟩ := s.answer_eq q
  rw [heq]

namespace Engine

variable {s : Store} {stack : List (Frame Suspended)}

theorem stepCode_moves {a : Activation} {i : Instance} {code : Code} (hs : s.WellFormed)
    (ha : a.Sound s i code) :
    Machine.Moves ⟨s, .code a, stack⟩ (compiled.stepCode s a stack) := by
  have hsteps := ha.step_steps hs
  have hensures := ha.step_ensures hs
  unfold stepCode
  split
  · rename_i a' t hrun
    exact .goOn rfl rfl (hsteps.of_ok hrun).1.depth_eq
  · rename_i caller addr args w t hrun
    obtain ⟨htouched, -⟩ := hsteps.of_ok hrun
    obtain ⟨hkept, -, callee, hfunc, -⟩ := hensures.of_ok hrun
    exact .call rfl trivial
      ((Exec.enter_admits (some caller) args hfunc).congr htouched.depth_eq hkept.ext.config)
  · rename_i v t hrun
    exact .ret rfl (congrArg (· - 1) (hsteps.of_ok hrun).1.depth_eq) nofun
  · rename_i x t hrun
    refine .trap rfl (hsteps.of_error hrun).depth_eq ?_
    rintro d rfl
    exact ((hensures.of_error hrun).2).elim

theorem suspend_moves {α : Type} {type : Option FuncType} {p : HostProgram} {next : α → HostProgram}
    {o : Operation α × Store} (ho : OperationCounts s o) :
    Machine.Moves ⟨s, .host type p, stack⟩ (compiled.suspend type s.depth next stack o) := by
  cases ho with
  | settled hdepth => exact .goOn rfl rfl hdepth
  | running he => exact .call rfl rfl he

theorem stepHost_moves {type : Option FuncType} {p : HostProgram} (hs : s.WellFormed)
    (hp : p.Lawful) :
    Machine.Moves ⟨s, .host type p, stack⟩ (compiled.stepHost s type stack p) := by
  cases hp with
  | done r =>
    cases r with
    | ok x =>
      refine .ret rfl rfl fun d hd ↦ ?_
      obtain h | h := hostAnswer_eq_error hd
      · cases h
      · cases h
    | error x => exact .trap rfl rfl fun _ _ ↦ ⟨type, rfl⟩
  | query _ => exact .goOn rfl rfl (s.depth_answer _)
  | call _ => exact suspend_moves (Operation.call_begins _).counts
  | callValues _ => exact suspend_moves (Operation.callValues_begins _).counts
  | instantiate hm _ => exact suspend_moves (Operation.instantiate_counts hs hm _)
  | newFunc _ _ => exact .goOn rfl rfl rfl

theorem next_moves {base : Option FuncType} {m m' : Machine Activation Suspended}
    (hm : m.Sound base) (hnext : compiled.next m = .next m') : m.Moves m' := by
  obtain ⟨s, control, stack⟩ := m
  obtain ⟨hs, type, hcontrol, hstack⟩ := hm
  cases hcontrol with
  | code ha =>
    cases hnext
    exact stepCode_moves hs ha
  | host hp =>
    cases hnext
    exact stepHost_moves hs hp
  | @answer _ r hr =>
    cases hstack with
    | nil => cases hnext
    | code hw _ =>
      cases r with
      | error x =>
        cases hnext
        exact .drop
      | ok answer =>
        cases hnext
        obtain ⟨a, hdeliver, -⟩ := deliver_eq hw hr
        rw [hdeliver]
        exact .resume
    | host _ _ => cases r <;> cases hnext <;> exact .regain

end Engine

/-! ## The count -/

/-- Each host program that waits does so for an operation that began when it was itself the last
call counted. -/
def FramesCounted (base : Nat) : List (Frame Suspended) → Prop
  | [] => True
  | frame :: stack => frame.BegunAt (base + stack.length + 1) ∧ FramesCounted base stack

/-- The depth of a machine whose operation began at depth `base`. -/
structure Machine.Counted (base : Nat) (m : Machine Activation Suspended) : Prop where
  bounded : m.store.depth ≤ m.store.config.maxCallDepth
  covers : base + m.live ≤ m.store.depth
  exact : (∀ x, m.control ≠ .answer (.error x)) → m.store.depth = base + m.live
  frames : FramesCounted base m.stack

namespace Machine.Counted

variable {base : Nat} {s t : Store} {c : Control Activation} {stack : List (Frame Suspended)}

theorem of_runs (hc : c.runs = true) (hdepth : s.depth = base + stack.length + 1)
    (hbound : s.depth ≤ s.config.maxCallDepth) (hframes : FramesCounted base stack) :
    Machine.Counted base ⟨s, c, stack⟩ := by
  have hlive : base + Machine.live ⟨s, c, stack⟩ = s.depth := by
    rw [Machine.live, hc, hdepth]
    rfl
  exact ⟨hbound, Nat.le_of_eq hlive, fun _ ↦ hlive.symm, hframes⟩

theorem of_answer {r : Except Trap Answer} (hdepth : s.depth = base + stack.length)
    (hbound : s.depth ≤ s.config.maxCallDepth) (hframes : FramesCounted base stack) :
    Machine.Counted base ⟨s, .answer r, stack⟩ :=
  ⟨hbound, Nat.le_of_eq hdepth.symm, fun _ ↦ hdepth, hframes⟩

theorem of_trap {x : Trap} (hdepth : base + stack.length ≤ s.depth)
    (hbound : s.depth ≤ s.config.maxCallDepth) (hframes : FramesCounted base stack) :
    Machine.Counted base ⟨s, .answer (.error x), stack⟩ :=
  ⟨hbound, hdepth, fun h ↦ (h x rfl).elim, hframes⟩

theorem depth_of_runs (h : Machine.Counted base ⟨s, c, stack⟩) (hc : c.runs = true) :
    s.depth = base + stack.length + 1 := by
  have hcontrol : ∀ x, c ≠ .answer (.error x) := by
    rintro x rfl
    cases hc
  have hdepth := h.exact hcontrol
  rw [live, hc] at hdepth
  exact hdepth

/-- A call that has begun is counted as far as there was room for it. -/
theorem of_admits {e : Except Trap Entry} (hs : s.depth = base + stack.length)
    (hbound : s.depth ≤ s.config.maxCallDepth) (he : s.Admits e t) (hconfig : t.config = s.config)
    (hframes : FramesCounted base stack) :
    Machine.Counted base ⟨t, Engine.compiled.begin t e, stack⟩ := by
  cases he with
  | full hfull hdepth =>
    refine .of_trap (Nat.le_of_eq (hdepth.trans hs).symm) ?_ hframes
    rwa [hconfig, hdepth]
  | counted hroom hdepth _ =>
    have hbound' : t.depth ≤ t.config.maxCallDepth := by
      rw [hconfig, hdepth]
      exact hroom
    match e with
    | .error x => exact .of_trap (by omega) hbound' hframes
    | .ok (.code _ _ _ _) => exact .of_runs rfl (by omega) hbound' hframes
    | .ok (.host _ _) => exact .of_runs rfl (by omega) hbound' hframes

/-- Every step keeps the count. -/
theorem step {m m' : Machine Activation Suspended} (h : m.Counted base) (hmoves : m.Moves m')
    (hconfig : m'.store.config = m.store.config) : m'.Counted base := by
  have hbound := h.bounded
  have hcovers := h.covers
  have hframes := h.frames
  cases hmoves with
  | @goOn s t c c' stack hc hc' hdepth =>
    refine .of_runs hc' (hdepth.trans (h.depth_of_runs hc)) ?_ hframes
    exact hconfig ▸ hdepth ▸ hbound
  | call hc hframe he =>
    have hs := h.depth_of_runs hc
    exact .of_admits hs hbound he hconfig ⟨hs ▸ hframe, hframes⟩
  | @ret s t c r stack hc hdepth hr =>
    have hs := h.depth_of_runs hc
    have hle : t.depth ≤ s.depth := hdepth ▸ Nat.sub_le _ _
    exact .of_answer (by omega) (hconfig ▸ Nat.le_trans hle hbound) hframes
  | @trap s t c x stack hc hdepth hx =>
    have hs := h.depth_of_runs hc
    exact .of_trap (by omega) (hconfig ▸ hdepth ▸ hbound) hframes
  | @resume s answer w a stack =>
    have hs : s.depth = base + (stack.length + 1) := h.exact nofun
    exact .of_runs rfl hs hbound hframes.2
  | @drop s x w stack =>
    have hs : base + (stack.length + 1) ≤ s.depth := hcovers
    exact .of_trap (by omega) hbound hframes.2
  | @regain s r type d next stack =>
    -- The frame has the depth at which the program ran before, which is not above what it is now.
    have hd : d = base + stack.length + 1 := hframes.1
    have hs : base + (stack.length + 1) ≤ s.depth := hcovers
    exact .of_runs rfl hd (Nat.le_trans (by omega : d ≤ s.depth) hbound) hframes.2

end Machine.Counted

/-- The operations of an embedder that may come to a call. -/
inductive Store.Begins (s : Store) : {α : Type} → Operation α × Store → Prop
  | call (f : Ref .func) (args : List Number) : Begins s (Operation.call s f args)
  | callValues (f : Ref .func) (args : List Value) : Begins s (Operation.callValues s f args)
  | instantiate {m : Module} (hm : m.Decoded) (imports : Imports) :
      Begins s (Operation.instantiate s m imports)

theorem Store.Begins.counts {s : Store} (hs : s.WellFormed) {α : Type} {o : Operation α × Store}
    (h : s.Begins o) : OperationCounts s o := by
  cases h with
  | call f args => exact (Operation.call_begins args).counts
  | callValues f args => exact (Operation.callValues_begins args).counts
  | instantiate hm imports => exact Operation.instantiate_counts hs hm imports

namespace World

/-- No call is in progress between two operations, and within one all of them are counted. -/
def Counted : World → Prop
  | idle s => s.depth = 0
  | running base m => base = 0 ∧ m.Counted base

theorem ofOperation_counted {α : Type} {s : Store} {o : Operation α × Store} (hs : s.depth = 0)
    (ho : OperationCounts s o) (hconfig : o.2.config = s.config) :
    (ofOperation s.depth o).Counted := by
  cases ho with
  | settled hdepth => exact hdepth.trans hs
  | running he =>
    have hbound : s.depth ≤ s.config.maxCallDepth := hs ▸ Nat.zero_le _
    exact ⟨hs, .of_admits rfl hbound he hconfig trivial⟩

theorem Step.counted {w w' : World} {issued : List Handle} (hsound : w.Sound) (hw : w.Counted)
    (h : w.Step issued w') : w'.Counted := by
  have hext := (h.sound hsound).2.1
  cases h with
  | query s q => exact (s.depth_answer q).trans hw
  | newFunc s type hf => exact hw
  | call s f args =>
    rw [store_ofOperation] at hext
    exact ofOperation_counted hw (Operation.call_begins args).counts hext.config
  | callValues s f args =>
    rw [store_ofOperation] at hext
    exact ofOperation_counted hw (Operation.callValues_begins args).counts hext.config
  | instantiate s hm imports =>
    rw [store_ofOperation] at hext
    exact ofOperation_counted hw (Operation.instantiate_counts hsound hm imports) hext.config
  | next h =>
    obtain ⟨hbase, hm⟩ := hw
    exact ⟨hbase, hm.step (Engine.next_moves hsound.choose_spec h) hext.config⟩
  | done h => exact hw.1

theorem Leads.counted {w w' : World} (hsound : w.Sound) (hw : w.Counted) (h : w.Leads w') :
    w'.Counted := by
  induction h with
  | refl => exact hw
  | tail hleads hstep ih =>
    obtain ⟨issued, hstep⟩ := hstep
    exact hstep.counted (Leads.sound hsound hleads).1 ih

theorem Reachable.counted {w : World} (hw : w.Reachable) : w.Counted := by
  obtain ⟨id, config, hleads⟩ := hw
  exact hleads.counted (reachable_new id config).sound rfl

end World

/-! ## What the count says -/

/-- The call that runs returns in the next step. -/
inductive Machine.Returns : Machine Activation Suspended → Prop
  | code {s t : Store} {a : Activation} {v : Option Value} {stack : List (Frame Suspended)}
      (h : a.step.run s = .ok (.ret v) t) : Returns ⟨s, .code a, stack⟩
  | host {s : Store} {type : Option FuncType} {x : Option Number}
      {stack : List (Frame Suspended)} : Returns ⟨s, .host type (.done (.ok x)), stack⟩

/-- How the calls of a machine are counted whose operation began at depth `base`. -/
structure Machine.Accounts (base : Nat) (m : Machine Activation Suspended) : Prop where
  /-- The depth counts the calls in progress, except while a trap is handed on. -/
  exact : (∀ x, m.control ≠ .answer (.error x)) → m.store.depth = base + m.live
  bounded : m.store.depth ≤ m.store.config.maxCallDepth
  /-- A call that returns was counted, and no longer is. -/
  returns : ∀ {m' : Machine Activation Suspended}, Engine.compiled.next m = .next m' →
    m.Returns → m'.store.depth + 1 = m.store.depth
  /-- A call, for which a frame is put on the stack, is refused just if it is one too many. -/
  refuses : ∀ {m' : Machine Activation Suspended} {frame : Frame Suspended} {d : Nat},
    Engine.compiled.next m = .next m' → m'.stack = frame :: m.stack →
    (m'.control = .answer (.error (.callStackExhausted d)) ↔
      d = m.store.config.maxCallDepth ∧ m.store.config.maxCallDepth < base + m.live + 1)
  /-- Other than by a call that is refused, the trap comes up only if a host program ends with
  it. -/
  only : ∀ {m' : Machine Activation Suspended} {d : Nat}, Engine.compiled.next m = .next m' →
    m'.control = .answer (.error (.callStackExhausted d)) →
    (∃ frame, m'.stack = frame :: m.stack) ∨
    m.control = .answer (.error (.callStackExhausted d)) ∨
    ∃ type, m.control = .host type (.done (.error (.callStackExhausted d)))
  /-- Whenever a call runs again above the same frames, the depth is what it was. -/
  restores : ∀ {m' : Machine Activation Suspended},
    ReflTransGen (fun m₁ m₂ ↦ Engine.compiled.next m₁ = .next m₂) m m' →
    m.control.runs = true → m'.control.runs = true → m'.stack = m.stack →
    m'.store.depth = m.store.depth

theorem Store.Admits.exhausted_iff {s t : Store} {e : Except Trap Entry} (h : s.Admits e t)
    (hbound : s.depth ≤ s.config.maxCallDepth) {d : Nat} :
    e = .error (.callStackExhausted d) ↔
      d = s.config.maxCallDepth ∧ s.config.maxCallDepth < s.depth + 1 := by
  cases h with
  | full hfull hdepth =>
    rw [Except.error.injEq, Trap.callStackExhausted.injEq]
    omega
  | counted hroom _ he => exact ⟨fun h ↦ (he d h).elim, fun h ↦ by omega⟩

theorem Engine.begin_eq_trap {s : Store} {e : Except Trap Entry} {x : Trap} :
    compiled.begin s e = .answer (.error x) ↔ e = .error x := by
  match e with
  | .error y => simp [begin]
  | .ok (.code _ _ _ _) => simp [begin]
  | .ok (.host _ _) => simp [begin]

namespace Machine

variable {base : Nat} {type : Option FuncType} {m m' : Machine Activation Suspended}

/-- Only a call puts a frame on the stack. -/
theorem Moves.admits_of_push {frame : Frame Suspended} (h : m.Moves m')
    (hstack : m'.stack = frame :: m.stack) : m.control.runs = true ∧
      ∃ e, m.store.Admits e m'.store ∧ m'.control = Engine.compiled.begin m'.store e := by
  cases h with
  | call hc _ he => exact ⟨hc, _, he, rfl⟩
  | _ =>
    have hlength := congrArg List.length hstack
    simp only [List.length_cons] at hlength
    omega

theorem Counted.live_eq (h : m.Counted base) (hruns : m.control.runs = true) :
    m.store.depth = base + m.live := by
  refine h.exact fun x hx ↦ ?_
  rw [hx] at hruns
  cases hruns

theorem Counted.returns (h : m.Counted base) (hm : m.Sound type)
    (hnext : Engine.compiled.next m = .next m') (hreturns : m.Returns) :
    m'.store.depth + 1 = m.store.depth := by
  cases hreturns with
  | @code s t a v stack hrun =>
    obtain ⟨i, code, ha⟩ := hm.activation rfl
    have hdepth : t.depth = s.depth := ((ha.step_steps hm.wellFormed).of_ok hrun).1.depth_eq
    have hs := h.depth_of_runs rfl
    have hstep : Engine.compiled.step a = a.step := rfl
    cases hnext
    simp only [Engine.stepCode, hstep, hrun]
    exact (by omega : t.depth - 1 + 1 = s.depth)
  | host =>
    have hs := h.depth_of_runs rfl
    cases hnext
    simp only [Engine.stepHost]
    omega

theorem Counted.accounts (h : m.Counted base) (hm : m.Sound type) : m.Accounts base where
  exact := h.exact
  bounded := h.bounded
  returns := h.returns hm
  refuses {m' frame d} hnext hstack := by
    obtain ⟨hruns, e, he, hcontrol⟩ := (Engine.next_moves hm hnext).admits_of_push hstack
    rw [hcontrol, Engine.begin_eq_trap, he.exhausted_iff h.bounded, h.live_eq hruns]
  only {m' d} hnext hcontrol := by
    cases Engine.next_moves hm hnext with
    | goOn _ hc' _ =>
      subst hcontrol
      cases hc'
    | call _ _ _ => exact .inl ⟨_, rfl⟩
    | ret _ _ hr => exact (hr d (Control.answer.inj hcontrol)).elim
    | trap _ _ hx =>
      cases hcontrol
      exact .inr (.inr (hx d rfl))
    | resume => cases hcontrol
    | drop => exact .inr (.inl hcontrol)
    | regain => cases hcontrol
  restores {m'} hsteps hruns hruns' hstack := by
    have hkept : m'.Sound type ∧ m'.Counted base := by
      clear hruns' hstack
      induction hsteps with
      | refl => exact ⟨hm, h⟩
      | tail _ hnext ih =>
        have hfollows := Engine.next_follows ih.1 hnext
        exact ⟨hfollows.sound, ih.2.step (Engine.next_moves ih.1 hnext) hfollows.ext.config⟩
    rw [h.live_eq hruns, hkept.2.live_eq hruns', live, live, hstack, hruns, hruns']

end Machine

/-- In every world that an embedder can reach, the calls in progress are counted exactly. An
operation that it begins is refused for too many calls just if there is no room for one, and leaves
the depth as it was, however it ends. -/
theorem World.Reachable.depth_exact {w : World} (hw : w.Reachable) :
    (∀ {base m}, w = running base m → m.Accounts base) ∧
    ∀ {s}, w = idle s → s.depth = 0 ∧ ∀ {α : Type} {o : Operation α × Store}, s.Begins o →
      (∀ {e finish t d}, o = (.running e finish, t) → (e = .error (.callStackExhausted d) ↔
        d = s.config.maxCallDepth ∧ s.config.maxCallDepth < s.depth + 1)) ∧
      ∀ {fuel a s'}, Engine.compiled.complete fuel s.depth o = some (a, s') →
        s'.depth = s.depth := by
  have hsound := hw.sound
  have hcounted := hw.counted
  constructor
  · rintro base m rfl
    obtain ⟨type, hm⟩ := hsound
    exact hcounted.2.accounts hm
  · rintro s rfl
    have hs : s.depth = 0 := hcounted
    refine ⟨hs, fun {α o} ho ↦ ?_⟩
    cases ho.counts hsound with
    | settled hdepth =>
      refine ⟨nofun, fun {fuel a s'} hcomplete ↦ ?_⟩
      cases hcomplete
      exact hdepth
    | running he =>
      refine ⟨?_, fun {fuel a s'} hcomplete ↦ ?_⟩
      · rintro e' finish' t' d heq
        cases heq
        exact he.exhausted_iff (hs ▸ Nat.zero_le _)
      · obtain ⟨p, -, hp⟩ := Option.bind_eq_some_iff.mp hcomplete
        cases hp
        rfl

/-- A host function that calls itself and goes on if that fails. -/
def reentrant : HostFunc := ⟨0, fun _ _ ↦ .call ⟨0, 0⟩ [] fun _ ↦ .done (.ok none)⟩

def reentrantStore : Store :=
  (Store.newFunc { id := 0, config := { maxCallDepth := 2 } } none reentrant).2

/-- The function is called and has called itself. Its next call is one too many, and it returns all
the same. -/
theorem reentrant_depth_exact :
    ∃ m m', (World.running 0 m).Reachable ∧ m.Accounts 0 ∧ m.live = 2 ∧ m.store.depth = 0 + 2 ∧
      Engine.compiled.next m = .next m' ∧ m'.control = .answer (.error (.callStackExhausted 2)) ∧
      (World.idle reentrantStore).Reachable ∧
      ∃ s', reentrantStore.call 9 ⟨0, 0⟩ [] = some (.ok none, s') ∧
        s'.depth = reentrantStore.depth := by
  have hlawful : reentrant.Lawful := fun _ _ ↦ .call fun _ ↦ .done _
  have hidle : (World.idle reentrantStore).Reachable :=
    ⟨0, { maxCallDepth := 2 }, .single ⟨_, .newFunc _ none hlawful⟩⟩
  have hcalled : ∃ m, (World.running 0 m).Reachable ∧ m.live = 2 ∧
      (∀ x, m.control ≠ .answer (.error x)) ∧ ∃ m', Engine.compiled.next m = .next m' ∧
        m'.control = .answer (.error (.callStackExhausted 2)) := by
    obtain ⟨id, config, hleads⟩ := hidle
    have hbegun := hleads.tail ⟨_, .call reentrantStore ⟨0, 0⟩ []⟩
    exact ⟨_, ⟨id, config, hbegun.tail ⟨_, .next rfl⟩⟩, rfl, nofun, _, rfl, rfl⟩
  obtain ⟨m, hm, hlive, hruns, m', hnext, hcontrol⟩ := hcalled
  have haccounts := hm.depth_exact.1 rfl
  have hreturned : ∃ s', reentrantStore.call 9 ⟨0, 0⟩ [] = some (.ok none, s') := ⟨_, rfl⟩
  obtain ⟨s', hs'⟩ := hreturned
  exact ⟨m, m', hm, haccounts, hlive, hlive ▸ haccounts.exact hruns, hnext, hcontrol, hidle, s',
    hs', ((hidle.depth_exact.2 rfl).2 (.call ⟨0, 0⟩ [])).2 hs'⟩

end WasmEngine
