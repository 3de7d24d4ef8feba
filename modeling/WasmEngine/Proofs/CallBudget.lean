import WasmEngine.Proofs.CallDepth
import WasmEngine.Proofs.Isolation

/-!
# Room for more calls

How many calls may be in progress is looked at in one place, where a call is counted, and only to
refuse it. A call in a store with more room therefore goes through the same steps as in one with
less, until the latter refuses a call. That refusal is a trap, and since only a host program could
go on after a trap, it is then the outcome as long as no host program runs. So a call that comes to
any other outcome comes to the same one, and leaves the same store behind, with any more room.
-/

namespace WasmEngine

/-- The second store is the first one with room for as many calls, or for more. -/
inductive Store.Roomier : Store → Store → Prop
  | mk {s : Store} {n : Nat} (h : s.config.maxCallDepth ≤ n) :
      Roomier s { s with config := { s.config with maxCallDepth := n } }

/-- The trap of a call that is one too many. -/
def Trap.OfRoom (t : Trap) : Prop := ∃ d, t = .callStackExhausted d

/-- The program does the same in a store with more room, unless it runs out of room. -/
abbrev Exec.Scales {α : Type} (x : Exec α) : Prop := Relaxes Store.Roomier Trap.OfRoom x x

/-! ## Statements -/

namespace Exec

theorem found_scales {α : Type} (kind : Referent) (o : Option α) : Scales (found kind o) := by
  cases o with
  | none => exact .throw _
  | some a => exact .pure a

/-- What is looked up in a store is found, or missing, however much room there is. -/
theorem lookUp_scales {α : Type} (kind : Referent) (look : Store → Option α)
    (hlook : ∀ s t, s.Roomier t → look t = look s) : Scales (do found kind (look (← get))) :=
  .get_bind fun s t h ↦ hlook s t h ▸ found_scales kind (look s)

theorem instanceAt_scales (inst : Nat) : Scales (instanceAt inst) :=
  lookUp_scales .inst (·.instances[inst]?) fun _ _ h ↦ by cases h; rfl

theorem funcAt_scales (addr : Nat) : Scales (funcAt addr) :=
  lookUp_scales .func (·.funcs[addr]?) fun _ _ h ↦ by cases h; rfl

theorem globalAt_scales (addr : Nat) : Scales (globalAt addr) :=
  lookUp_scales .global (·.globals[addr]?) fun _ _ h ↦ by cases h; rfl

theorem memoryAt_scales (addr : Nat) : Scales (memoryAt addr) :=
  lookUp_scales .memory (·.memories[addr]?) fun _ _ h ↦ by cases h; rfl

theorem tableAt_scales (addr : Nat) : Scales (tableAt addr) :=
  lookUp_scales .table (·.tables[addr]?) fun _ _ h ↦ by cases h; rfl

/-- So is what an instance is asked for. -/
theorem address_scales (kind : Referent) (look : Instance → Option Nat) (inst : Nat) :
    Scales (do found kind (look (← instanceAt inst))) :=
  .bind (instanceAt_scales inst) fun i ↦ found_scales kind (look i)

theorem funcAddress_scales (inst index : Nat) : Scales (funcAddress inst index) :=
  address_scales .func (·.funcs[index]?) inst

theorem globalAddress_scales (inst index : Nat) : Scales (globalAddress inst index) :=
  address_scales .global (·.globals[index]?) inst

theorem memoryAddress_scales (inst : Nat) : Scales (memoryAddress inst) :=
  address_scales .memory (·.memories[0]?) inst

theorem tableAddress_scales (inst : Nat) : Scales (tableAddress inst) :=
  address_scales .table (·.tables[0]?) inst

theorem globalGet_scales (inst index : Nat) : Scales (globalGet inst index) :=
  .bind (globalAddress_scales inst index) fun addr ↦ .bind (globalAt_scales addr) fun _ ↦ .pure _

theorem globalSet_scales (inst index : Nat) (v : Value) : Scales (globalSet inst index v) := by
  refine .bind (globalAddress_scales inst index) fun addr ↦ .bind (globalAt_scales addr) fun _ ↦ ?_
  apply Relaxes.modify
  rintro s _ ⟨h⟩
  exact .mk h

theorem load_scales (inst : Nat) (access : Access) (addr : Nat) :
    Scales (load inst access addr) :=
  .bind (memoryAddress_scales inst) fun a ↦ .bind (memoryAt_scales a) fun _ ↦ .ofExcept _

theorem store_scales (inst : Nat) (access : Access) (addr : Nat) (value : BitVec 32) :
    Scales (store inst access addr value) := by
  refine .bind (memoryAddress_scales inst) fun a ↦ .bind (memoryAt_scales a) fun _ ↦
    .ite ?_ (.throw _)
  apply Relaxes.modify
  rintro s _ ⟨h⟩
  exact .mk h

theorem memorySize_scales (inst : Nat) : Scales (memorySize inst) :=
  .bind (memoryAddress_scales inst) fun a ↦ .bind (memoryAt_scales a) fun _ ↦ .pure _

theorem memoryGrow_scales (inst delta : Nat) : Scales (memoryGrow inst delta) := by
  refine .bind (memoryAddress_scales inst) fun a ↦ .bind (memoryAt_scales a) fun x ↦ ?_
  cases x.grow delta with
  | error e => exact .pure _
  | ok p =>
    refine .bind (.modify ?_) fun _ ↦ .pure _
    rintro s _ ⟨h⟩
    exact .mk h

theorem indirectCallee_scales (inst type index : Nat) :
    Scales (indirectCallee inst type index) := by
  refine .bind (tableAddress_scales inst) fun a ↦ .bind (tableAt_scales a) fun x ↦ ?_
  cases x.get? index with
  | none => exact .throw _
  | some slot =>
    cases slot with
    | none => exact .throw _
    | some addr =>
      refine .bind (instanceAt_scales inst) fun i ↦ ?_
      cases i.module.types[type]? with
      | none => exact .throw _
      | some expected => exact .bind (funcAt_scales addr) fun c ↦ .ite (.pure _) (.throw _)

end Exec

namespace Activation

open Exec

variable (a : Activation)

theorem set_scales (slot : Slot) (v : Value) : Scales (a.set slot v) :=
  .bind (.ofExcept _) fun _ ↦ .pure _

theorem ret_scales (value : Option Slot) : Scales (a.ret value) := by
  cases value with
  | none => exact .pure _
  | some slot => exact .bind (.ofExcept _) fun v ↦ .pure _

theorem take_scales (target : Target) : Scales (a.take target) := by
  cases target with
  | leave label carried =>
    refine .bind ?_ fun b ↦ ?_
    · cases carried with
      | none => exact .pure _
      | some move => exact .bind (.ofExcept _) fun v ↦ set_scales a move.2 v
    · cases regionsFrom label b.regions with
      | none => exact .throw _
      | some p => exact .pure _
  | restart label =>
    simp only [take]
    cases regionsFrom label a.regions with
    | none => exact .throw _
    | some p => exact .pure _
  | ret value => exact a.ret_scales value

/-- A statement has nothing to do with the room for calls. -/
theorem exec_scales (stmt : Stmt) : Scales (a.exec stmt) := by
  have hset (slot : Slot) (v : Value) :
      Scales (do return Action.next (← a.set slot v) : Exec (Action Activation Suspended)) :=
    .bind (a.set_scales slot v) fun _ ↦ .pure _
  cases stmt with
  | unreachable => exact .throw _
  | block label body => exact .pure _
  | loop label body => exact .pure _
  | conditional label cond thenBody elseBody => exact .bind (.ofExcept _) fun c ↦ .pure _
  | branch target => exact .bind (a.take_scales target) fun b ↦ .pure _
  | branchIf cond target =>
    exact .bind (.ofExcept _) fun c ↦ .ite (.bind (a.take_scales target) fun b ↦ .pure _) (.pure _)
  | branchTable index targets default =>
    exact .bind (.ofExcept _) fun i ↦ .bind (a.take_scales _) fun b ↦ .pure _
  | ret value => exact .bind (a.ret_scales value) fun b ↦ .pure _
  | call func args result =>
    exact .bind (funcAddress_scales _ _) fun addr ↦ .bind (.ofExcept _) fun args ↦ .pure _
  | callIndirect type callee args result =>
    exact .bind (.ofExcept _) fun index ↦ .bind (indirectCallee_scales _ _ _) fun addr ↦
      .bind (.ofExcept _) fun args ↦ .pure _
  | copy dst src => exact .bind (.ofExcept _) fun v ↦ hset dst v
  | const dst value => exact hset dst value
  | globalGet dst global => exact .bind (globalGet_scales _ _) fun v ↦ hset dst v
  | globalSet global src =>
    exact .bind (.ofExcept _) fun v ↦ .bind (globalSet_scales _ _ v) fun _ ↦ .pure _
  | select dst ifFalse cond =>
    exact .bind (.ofExcept _) fun c ↦ .ite (.pure _) (.bind (.ofExcept _) fun v ↦ hset dst v)
  | unary op dst operand =>
    exact .bind (.ofExcept _) fun v ↦ .bind (.ofExcept _) fun w ↦ hset dst w
  | binary op dst lhs rhs =>
    exact .bind (.ofExcept _) fun l ↦ .bind (.ofExcept _) fun r ↦ .bind (.ofExcept _) fun w ↦
      hset dst w
  | load access offset dst addr =>
    exact .bind (.ofExcept _) fun base ↦ .bind (load_scales _ _ _) fun w ↦ hset dst _
  | store access offset addr value =>
    exact .bind (.ofExcept _) fun base ↦ .bind (.ofExcept _) fun w ↦
      .bind (store_scales _ _ _ w) fun _ ↦ .pure _
  | memorySize dst => exact .bind (memorySize_scales _) fun n ↦ hset dst _
  | memoryGrow dst delta =>
    exact .bind (.ofExcept _) fun d ↦ .bind (memoryGrow_scales _ _) fun w ↦ hset dst _

theorem step_scales : Scales a.step := by
  obtain ⟨inst, slots, regions, returned⟩ := a
  cases regions with
  | nil => exact .pure _
  | cons region regions =>
    obtain ⟨label, body, rest, isLoop⟩ := region
    cases rest with
    | nil => exact .pure _
    | cons stmt rest => exact exec_scales _ stmt

end Activation

/-! ## Calls -/

namespace Exec

variable {s t : Store}

theorem pushDepth_scales : Scales pushDepth := by
  apply Relaxes.get_bind
  rintro s _ ⟨h⟩
  refine .check (Nat.le_trans h) ⟨s.depth, rfl⟩ (.modify ?_)
  rintro s _ ⟨h⟩
  exact .mk h

theorem enterHost_scales (type : Option FuncType) (f : HostFunc) (caller : Option Nat)
    (args : List Number) : Scales (enterHost type f caller args) := by
  refine .bind (.modify ?_) fun _ ↦ .get_bind ?_
  · rintro s _ ⟨h⟩
    exact .mk h
  · rintro s _ ⟨h⟩
    exact .pure _

theorem enter_scales (caller : Option Nat) (addr : Nat) (args : List Value) :
    Scales (enter caller addr args) := by
  refine .bind (funcAt_scales addr) fun c ↦ ?_
  cases c with
  | code inst code => exact .bind pushDepth_scales fun _ ↦ .pure _
  | host type f =>
    cases type with
    | none => exact .throw _
    | some type =>
      exact .bind pushDepth_scales fun _ ↦ .bind (.ofExcept _) fun numbers ↦
        enterHost_scales (some type) f caller numbers

/-- A call begins alike with more room, unless it is refused for want of it. -/
theorem begin_roomier {x : Exec Entry} (hx : Scales x) (h : s.Roomier t) :
    ((begin x t).1 = (begin x s).1 ∧ (begin x s).2.Roomier (begin x t).2) ∨
      ∃ d, (begin x s).1 = .error (.callStackExhausted d) := by
  have hrun := hx s t h
  unfold begin
  generalize x.run s = r at hrun
  generalize x.run t = r' at hrun
  cases hrun with
  | ok e h => exact .inl ⟨rfl, h⟩
  | error e h => exact .inl ⟨rfl, h⟩
  | excused he =>
    obtain ⟨d, rfl⟩ := he
    exact .inr ⟨d, rfl⟩

end Exec

/-! ## Machines -/

/-- The machines differ in the room for calls only, of which the second has no less. -/
inductive Machine.Roomier :
    Machine Activation Suspended → Machine Activation Suspended → Prop
  | mk {s t : Store} {c : Control Activation} {stack : List (Frame Suspended)}
      (h : s.Roomier t) : Roomier ⟨s, c, stack⟩ ⟨t, c, stack⟩

/-- A call has just been refused because it is one too many. -/
def Machine.OutOfRoom (m : Machine Activation Suspended) : Prop :=
  ∃ d, m.control = .answer (.error (.callStackExhausted d))

namespace Engine

variable {s t : Store}

/-- A machine that begins a call, and one with more room that does. -/
theorem begin_roomier {x : Exec Entry} (hx : Exec.Scales x) (h : s.Roomier t)
    (stack : List (Frame Suspended)) :
    Machine.Roomier
      ⟨(Exec.begin x s).2, compiled.begin (Exec.begin x s).2 (Exec.begin x s).1, stack⟩
      ⟨(Exec.begin x t).2, compiled.begin (Exec.begin x t).2 (Exec.begin x t).1, stack⟩ ∨
    Machine.OutOfRoom
      ⟨(Exec.begin x s).2, compiled.begin (Exec.begin x s).2 (Exec.begin x s).1, stack⟩ := by
  obtain ⟨heq, h⟩ | ⟨d, hd⟩ := Exec.begin_roomier hx h
  · have hcontrol : compiled.begin (Exec.begin x t).2 (Exec.begin x t).1 =
        compiled.begin (Exec.begin x s).2 (Exec.begin x s).1 := by
      rw [heq]
      cases (Exec.begin x s).1 with
      | error e => rfl
      | ok e => cases e <;> rfl
    rw [hcontrol]
    exact .inl (.mk h)
  · exact .inr ⟨d, begin_eq_trap.mpr hd⟩

theorem stepCode_roomier (h : s.Roomier t) (a : Activation) (stack : List (Frame Suspended)) :
    (compiled.stepCode s a stack).Roomier (compiled.stepCode t a stack) ∨
      (compiled.stepCode s a stack).OutOfRoom := by
  have hstep : Relaxed Store.Roomier Trap.OfRoom ((compiled.step a).run s)
      ((compiled.step a).run t) := a.step_scales s t h
  unfold stepCode
  generalize (compiled.step a).run s = r at hstep
  generalize (compiled.step a).run t = r' at hstep
  cases hstep with
  | ok action h =>
    cases action with
    | next a => exact .inl (.mk h)
    | call caller addr args w =>
      exact begin_roomier (Exec.enter_scales (some caller) addr args) h (.code w :: stack)
    | ret v =>
      obtain ⟨h⟩ := h
      exact .inl (.mk (.mk h))
  | error e h => exact .inl (.mk h)
  | excused he =>
    obtain ⟨d, rfl⟩ := he
    exact .inr ⟨d, rfl⟩

/-- Where no host program runs, a step is the same with more room, unless a call is refused. -/
theorem next_roomier {m m' m₁ : Machine Activation Suspended} (h : m.Roomier m')
    (hhost : m.control.isHost = false) (hnext : compiled.next m = .next m₁) :
    (∃ m₁', compiled.next m' = .next m₁' ∧ m₁.Roomier m₁') ∨ m₁.OutOfRoom := by
  obtain @⟨s, t, control, stack, h⟩ := h
  cases control with
  | code a =>
    cases hnext
    obtain h | h := stepCode_roomier h a stack
    · exact .inl ⟨_, rfl, h⟩
    · exact .inr h
  | host type p => cases hhost
  | answer r =>
    cases stack with
    | nil => cases r <;> cases hnext
    | cons frame stack =>
      cases frame with
      | code w => cases r <;> cases hnext <;> exact .inl ⟨_, rfl, .mk h⟩
      | host type base next =>
        obtain ⟨h⟩ := h
        cases r <;> cases hnext <;> exact .inl ⟨_, rfl, .mk (.mk h)⟩

/-- A trap is the outcome of a run if no host program takes it. -/
theorem run_of_trap {fuel : Nat} {x : Trap} {stack : List (Frame Suspended)}
    {r : Except Trap Answer} {s' : Store}
    (hfree : hostFree fuel ⟨s, .answer (.error x), stack⟩ = true)
    (hrun : compiled.run fuel ⟨s, .answer (.error x), stack⟩ = some (r, s')) : r = .error x := by
  induction fuel generalizing stack with
  | zero => cases hrun
  | succ fuel ih =>
    cases stack with
    | nil =>
      cases hrun
      rfl
    | cons frame stack =>
      cases frame with
      | code w => exact ih hfree hrun
      | host type base next => cases fuel <;> cases hfree

/-- A run with no host program that comes to an outcome other than for want of room comes to it with
more room as well, in as many steps. -/
theorem run_roomier {fuel : Nat} {m m' : Machine Activation Suspended} {r : Except Trap Answer}
    {s' : Store} (h : m.Roomier m') (hfree : hostFree fuel m = true)
    (hrun : compiled.run fuel m = some (r, s')) (hr : ∀ d, r ≠ .error (.callStackExhausted d)) :
    ∃ t', compiled.run fuel m' = some (r, t') ∧ s'.Roomier t' := by
  induction fuel generalizing m m' with
  | zero => cases hrun
  | succ fuel ih =>
    simp only [hostFree, Bool.and_eq_true, Bool.not_eq_true'] at hfree
    obtain ⟨hhost, hfree⟩ := hfree
    unfold run at hrun ⊢
    cases hnext : compiled.next m with
    | next m₁ =>
      rw [hnext] at hrun hfree
      obtain ⟨m₁', hnext', h₁⟩ | ⟨d, hd⟩ := next_roomier h hhost hnext
      · rw [hnext']
        exact ih h₁ hfree hrun
      · obtain ⟨s₁, control, stack⟩ := m₁
        cases hd
        exact (hr d (run_of_trap hfree hrun)).elim
    | done r' s₁ =>
      rw [hnext] at hrun
      cases hrun
      cases done_cases hnext
      obtain ⟨h⟩ := h
      cases r <;> exact ⟨_, rfl, h⟩

end Engine

/-! ## Calls of an embedder -/

namespace Operation

/-- Call the function at an address with arguments of the types that it asks for. -/
def invoke (s : Store) (addr : Nat) (args : List Value) :
    Operation (Except Trap Answer) × Store :=
  let (e, s) := Exec.begin (Exec.enter none addr args) s
  (.running e id, s)

/-- The operations are settled alike, or they come to the same call, which is passed on alike and
which only the first may refuse for want of room. -/
inductive Roomier {α : Type} :
    Operation (Except Trap α) × Store → Operation (Except Trap α) × Store → Prop
  | settled (a : Except Trap α) {s t : Store} (h : s.Roomier t) :
      Roomier (.settled a, s) (.settled a, t)
  | running {x : Exec Entry} (hx : Exec.Scales x) {finish : Except Trap Answer → Except Trap α}
      (hfinish : ∀ t, finish (.error t) = .error t) {s t : Store} (h : s.Roomier t) :
      Roomier (.running (Exec.begin x s).1 finish, (Exec.begin x s).2)
        (.running (Exec.begin x t).1 finish, (Exec.begin x t).2)

variable {α : Type} {s t : Store}

theorem Roomier.complete {o o' : Operation (Except Trap α) × Store} (h : Roomier o o')
    {fuel base : Nat} {r : Except Trap α} {s' : Store} (hfree : hostFree fuel o = true)
    (hcomplete : Engine.compiled.complete fuel base o = some (r, s'))
    (hr : ∀ d, r ≠ .error (.callStackExhausted d)) :
    ∃ t', Engine.compiled.complete fuel base o' = some (r, t') ∧ s'.Roomier t' := by
  cases h with
  | settled a h =>
    cases hcomplete
    exact ⟨_, rfl, h⟩
  | running hx hfinish h =>
    obtain ⟨⟨r₀, s₀⟩, hrun, hs₀⟩ := Option.bind_eq_some_iff.mp hcomplete
    cases hs₀
    have hr₀ : ∀ d, r₀ ≠ .error (.callStackExhausted d) := by
      rintro d rfl
      exact hr d (hfinish _)
    obtain hmachine | ⟨d, hd⟩ := Engine.begin_roomier hx h []
    · obtain ⟨t₀, hrun', ⟨h₀⟩⟩ := Engine.run_roomier hmachine hfree hrun hr₀
      refine ⟨_, ?_, .mk h₀⟩
      simp only [Engine.complete, hrun']
      rfl
    · simp only at hd
      rw [hostFree, hd] at hfree
      rw [hd] at hrun
      exact (hr₀ d (Engine.run_of_trap hfree hrun)).elim

theorem invoke_roomier (h : s.Roomier t) (addr : Nat) (args : List Value) :
    Roomier (invoke s addr args) (invoke t addr args) :=
  .running (Exec.enter_scales none addr args) (fun _ ↦ rfl) h

theorem call_roomier (h : s.Roomier t) (f : Ref .func) (args : List Number) :
    Roomier (call s f args) (call t f args) := by
  have hresolve : t.resolve f = s.resolve f := by cases h; rfl
  have hfuncs : t.funcs = s.funcs := by cases h; rfl
  unfold call
  rw [hresolve, hfuncs]
  split
  · exact .settled _ h
  · split
    · exact .settled _ h
    · exact .running (.bind Exec.pushDepth_scales fun _ ↦ Exec.enterHost_scales none _ none args)
        (fun _ ↦ rfl) h
    · dsimp only
      split
      · exact .settled _ h
      · split
        · exact .settled _ h
        · split
          · exact .settled _ h
          · exact .running (Exec.enter_scales none _ _) (fun _ ↦ rfl) h

theorem callValues_roomier (h : s.Roomier t) (f : Ref .func) (args : List Value) :
    Roomier (callValues s f args) (callValues t f args) := by
  have hresolve : t.resolve f = s.resolve f := by cases h; rfl
  have hfuncs : t.funcs = s.funcs := by cases h; rfl
  unfold callValues
  rw [hresolve, hfuncs]
  split
  · exact .settled _ h
  · split
    · exact .settled _ h
    · split
      · exact .settled _ h
      · split
        · exact .settled _ h
        · split
          · exact .settled _ h
          · exact .running (Exec.enter_scales none _ _) (fun _ ↦ rfl) h

end Operation

/-- Call the function at an address, as is done with a start function. There is no result if it runs
for more than `fuel` steps. -/
def Store.invoke (fuel : Nat) (s : Store) (addr : Nat) (args : List Value) :
    Option (Except Trap Answer × Store) :=
  Engine.compiled.complete fuel s.depth (Operation.invoke s addr args)

/-- A call that runs no host function and ends other than for want of room ends in the same way with
more room, and then the stores differ in nothing else. The stores need not be well formed for it. -/
theorem Store.Roomier.same_outcome {s t : Store} (h : s.Roomier t) (fuel : Nat) :
    (∀ {addr args r s'}, Operation.hostFree fuel (Operation.invoke s addr args) = true →
      s.invoke fuel addr args = some (r, s') → (∀ d, r ≠ .error (.callStackExhausted d)) →
      ∃ t', t.invoke fuel addr args = some (r, t') ∧ s'.Roomier t') ∧
    (∀ {f args r s'}, Operation.hostFree fuel (Operation.call s f args) = true →
      s.call fuel f args = some (r, s') → (∀ d, r ≠ .error (.callStackExhausted d)) →
      ∃ t', t.call fuel f args = some (r, t') ∧ s'.Roomier t') ∧
    ∀ {f args r s'}, Operation.hostFree fuel (Operation.callValues s f args) = true →
      s.callValues fuel f args = some (r, s') → (∀ d, r ≠ .error (.callStackExhausted d)) →
      ∃ t', t.callValues fuel f args = some (r, t') ∧ s'.Roomier t' := by
  have hdepth : t.depth = s.depth := by cases h; rfl
  unfold invoke call callValues
  rw [hdepth]
  refine ⟨?_, ?_, ?_⟩
  · intro addr args r s' hfree hcomplete hr
    exact (Operation.invoke_roomier h addr args).complete hfree hcomplete hr
  · intro f args r s' hfree hcomplete hr
    exact (Operation.call_roomier h f args).complete hfree hcomplete hr
  · intro f args r s' hfree hcomplete hr
    exact (Operation.callValues_roomier h f args).complete hfree hcomplete hr

/-- A binary with a function that calls itself with one less until its argument is zero, and then
gives seven. -/
def countdownBinary : List UInt8 :=
  [0, 0x61, 0x73, 0x6d, 1, 0, 0, 0,
   1, 6, 1, 0x60, 1, 0x7f, 1, 0x7f,
   3, 2, 1, 0,
   10, 19, 1, 17, 0, 0x20, 0, 0x04, 0x7f, 0x20, 0, 0x41, 1, 0x6b, 0x10, 0, 0x05, 0x41, 7, 0x0b,
     0x0b]

/-- Counting down from two takes three calls, for which there is just room. Counting down from three
fails there, and gives seven where there is room for four. -/
theorem countdown_same_outcome :
    ∃ s s' t', Store.load 1 { id := 0, config := { maxCallDepth := 3 } } countdownBinary =
        some (.ok ⟨0, 0⟩, s) ∧
      let t : Store := { s with config := { s.config with maxCallDepth := 4 } }
      s.Roomier t ∧ Operation.hostFree 50 (Operation.callValues s ⟨0, 0⟩ [.i32 2]) = true ∧
      s.callValues 50 ⟨0, 0⟩ [.i32 2] = some (.ok (some (.i32 7)), s') ∧
      t.callValues 50 ⟨0, 0⟩ [.i32 2] = some (.ok (some (.i32 7)), t') ∧ s'.Roomier t' ∧
      (s.callValues 50 ⟨0, 0⟩ [.i32 3]).map Prod.fst = some (.error (.callStackExhausted 3)) ∧
      (t.callValues 50 ⟨0, 0⟩ [.i32 3]).map Prod.fst = some (.ok (some (.i32 7))) := by
  have hload : ((Store.load 1 { id := 0, config := { maxCallDepth := 3 } } countdownBinary).map
      fun p ↦ (p.1, p.2.config.maxCallDepth)) = some (.ok ⟨0, 0⟩, 3) := by
    decide +kernel
  have htwo : ((Store.load 1 { id := 0, config := { maxCallDepth := 3 } } countdownBinary).map
      fun p ↦ (Operation.hostFree 50 (Operation.callValues p.2 ⟨0, 0⟩ [.i32 2]),
        (p.2.callValues 50 ⟨0, 0⟩ [.i32 2]).map Prod.fst)) =
      some (true, some (.ok (some (.i32 7)))) := by
    decide +kernel
  have hthree : ((Store.load 1 { id := 0, config := { maxCallDepth := 3 } } countdownBinary).map
      fun p ↦ ((p.2.callValues 50 ⟨0, 0⟩ [.i32 3]).map Prod.fst,
        (Store.callValues 50 { p.2 with config := { p.2.config with maxCallDepth := 4 } } ⟨0, 0⟩
          [.i32 3]).map Prod.fst)) =
      some (some (.error (.callStackExhausted 3)), some (.ok (some (.i32 7)))) := by
    decide +kernel
  obtain ⟨⟨r, s⟩, hs, hload⟩ := Option.map_eq_some_iff.mp hload
  rw [hs] at htwo hthree
  injection hload with hr hconfig
  injection htwo with htwo
  injection htwo with hfree htwo
  injection hthree with hthree
  injection hthree with hexhausted hroom
  obtain ⟨⟨r', s'⟩, hs', rfl⟩ := Option.map_eq_some_iff.mp htwo
  have hroomier : s.Roomier { s with config := { s.config with maxCallDepth := 4 } } :=
    .mk (hconfig ▸ by decide)
  obtain ⟨t', ht', hsame⟩ := (hroomier.same_outcome 50).2.2 hfree hs' nofun
  cases hr
  exact ⟨s, s', t', hs, hroomier, hfree, hs', ht', hsame, hexhausted, hroom⟩

end WasmEngine
