import WasmEngine.Proofs.Worlds

/-!
# Compiled code is type safe

Traps that report a missing item or an operand of the wrong type guard against broken code. In every
machine that an embedder can reach, no code raises one of them: such a trap is one that a host
function ended with itself. Calls pass arguments of the callee's types, and what a call returns is
of the type that its code declares.
-/

namespace WasmEngine

open Relation

theorem Trap.OfEntry.not_internal {t : Trap} (h : t.OfEntry) : ¬t.Internal := by
  cases t <;> simp_all [OfEntry, Internal]

theorem Trap.OfStatement.not_internal {t : Trap} (h : t.OfStatement) : ¬t.Internal := by
  cases t <;> simp_all [OfStatement, Internal]

/-- What can be said of a machine whatever it has run so far. -/
structure Machine.Safe (m : Machine Activation Suspended) : Prop where
  /-- A trap about something broken is handed on, or a host function ends with it. -/
  internal : ∀ {m' : Machine Activation Suspended} {t : Trap},
    Engine.compiled.next m = .next m' → m'.control = .answer (.error t) → t.Internal →
    m.control = .answer (.error t) ∨ ∃ type, m.control = .host type (.done (.error t))
  /-- The statements of code raise a few traps only. -/
  statement : ∀ {a : Activation} {t : Trap} {s : Store}, m.control = .code a →
    a.step.run m.store = .error t s → t.OfStatement
  /-- Code calls functions that are there, with arguments of their types. -/
  calls : ∀ {a : Activation} {caller addr : Nat} {args : List Value} {w : Suspended} {s : Store},
    m.control = .code a → a.step.run m.store = .ok (.call caller addr args w) s →
    ∃ type, s.HasFunc addr type ∧ args.map Value.type = type.params
  /-- Code goes on with whatever its callee answers. -/
  resumes : ∀ {answer : Answer} {w : Suspended} {frames : List (Frame Suspended)},
    m.control = .answer (.ok answer) → m.stack = .code w :: frames →
    ∃ v a, answer = .value v ∧ w.resume v = .ok a
  /-- A call of code ends with a trap, or returns a value of its result type if it has one. -/
  returns : ∀ {addr inst : Nat} {code : Code} {args : List Value} {r : Except Trap Answer}
    {s : Store}, m.store.funcs[addr]? = some (.code inst code) →
    args.map Value.type = code.type.params →
    m.control = .code (Activation.start inst code args) →
    ReflTransGen (Engine.compiled.StepAbove m.stack) m ⟨s, .answer r, m.stack⟩ →
    (∃ t, r = .error t) ∨ ∃ v, r = .ok (.value v) ∧ ResultFits v code.type.result

theorem AnswerFits.some_cases {type : FuncType} {r : Except Trap Answer}
    (h : AnswerFits (some type) r) :
    (∃ t, r = .error t) ∨ ∃ v, r = .ok (.value v) ∧ ResultFits v type.result := by
  match r, h with
  | .error t, _ => exact .inl ⟨t, rfl⟩
  | .ok (.value v), hv => exact .inr ⟨v, rfl, hv⟩

theorem Machine.Sound.safe {base : Option FuncType} {m : Machine Activation Suspended}
    (hm : m.Sound base) : m.Safe where
  internal {m' t} hnext hcontrol ht := by
    have hraises := (Engine.next_follows hm hnext).raises t hcontrol
    obtain ⟨s, control, stack⟩ := m
    cases control with
    | code a =>
      obtain h | h := hraises
      · exact (h.not_internal ht).elim
      · exact (h.not_internal ht).elim
    | host type p =>
      obtain rfl | rfl | h := hraises
      · exact .inr ⟨type, rfl⟩
      · cases ht
      · exact (h.not_internal ht).elim
    | answer r => exact .inl (congrArg _ hraises)
  statement {a t s} hcontrol hrun := by
    obtain ⟨i, code, ha⟩ := hm.activation hcontrol
    exact ((ha.step_ensures hm.wellFormed).of_error hrun).2
  calls {a caller addr args w s} hcontrol hrun := by
    obtain ⟨i, code, ha⟩ := hm.activation hcontrol
    obtain ⟨-, -, type, hfunc, hargs, -⟩ := (ha.step_ensures hm.wellFormed).of_ok hrun
    exact ⟨type, hfunc, hargs⟩
  resumes {answer w frames} hcontrol hstack := by
    obtain ⟨hs, type, hfits, hframes⟩ := hm
    rw [hcontrol] at hfits
    rw [hstack] at hframes
    cases hframes with
    | code hw _ =>
      cases hfits with
      | answer hanswer =>
        obtain ⟨t, ht⟩ | ⟨v, hv, hfits⟩ := hanswer.some_cases
        · cases ht
        · obtain ⟨a, ha, -⟩ := hw.resume hfits
          exact ⟨v, a, Except.ok.inj hv, ha⟩
  returns {addr inst code args r s} hfunc hargs hcontrol hrun := by
    obtain ⟨s₀, control, stack⟩ := m
    subst hcontrol
    exact (Engine.answer_fits hm.wellFormed hfunc hargs hrun).some_cases

/-! ## Calls of an embedder -/

namespace World

/-- A trap about something broken that a run comes to was there before, or a host function ended
with it. -/
theorem run_internal {type : Option FuncType} {fuel base : Nat}
    {m : Machine Activation Suspended} {t : Trap} {s : Store} (hm : m.Sound type)
    (ht : t.Internal) (hrun : Engine.compiled.run fuel m = some (.error t, s)) :
    m.control = .answer (.error t) ∨ ∃ m' type, (running base m).Leads (running base m') ∧
      m'.control = .host type (.done (.error t)) := by
  induction fuel generalizing m with
  | zero => cases hrun
  | succ fuel ih =>
    unfold Engine.run at hrun
    split at hrun
    · rename_i m₁ hnext
      -- Where the rest of the run begins with the trap, it is this step that raised it.
      obtain hcontrol | ⟨m', type, hleads, hcontrol⟩ := ih (Engine.next_follows hm hnext).sound hrun
      · obtain h | ⟨type, h⟩ := hm.safe.internal hnext hcontrol ht
        · exact .inl h
        · exact .inr ⟨m, type, .refl, h⟩
      · exact .inr ⟨m', type, hleads.head ⟨_, .next hnext⟩, hcontrol⟩
    · rename_i hnext
      cases hrun
      cases Engine.done_cases hnext
      exact .inl rfl

theorem run_fits {type : Option FuncType} {fuel : Nat} {m : Machine Activation Suspended}
    {r : Except Trap Answer} {s : Store} (hm : m.Sound type)
    (hrun : Engine.compiled.run fuel m = some (r, s)) : AnswerFits type r := by
  induction fuel generalizing m with
  | zero => cases hrun
  | succ fuel ih =>
    unfold Engine.run at hrun
    split at hrun
    · rename_i m₁ hnext
      exact ih (Engine.next_follows hm hnext).sound hrun
    · rename_i hnext
      cases hrun
      cases Engine.done_cases hnext
      exact hm.outcome_fits

/-- If a call was begun and its outcome is a trap about something broken, then a host function ended
with that trap on the way. -/
def CallSafe {α : Type} (base fuel : Nat) (o : Operation (Except Trap α) × Store) : Prop :=
  ∀ {e finish s₀ t s}, o = (.running e finish, s₀) →
    Engine.compiled.complete fuel base o = some (.error t, s) → t.Internal →
    ∃ m type, (ofOperation base o).Leads (running base m) ∧
      m.control = .host type (.done (.error t))

theorem callSafe_of_fits {α : Type} {s : Store} {o : Operation (Except Trap α) × Store}
    (h : OperationFits s Operation.Faithful o) (base fuel : Nat) : CallSafe base fuel o := by
  rintro e finish s₀ t s' rfl hcomplete ht
  cases h with
  | running hkept he hfinish =>
    obtain ⟨⟨r, s₁⟩, hrun, hr⟩ := Option.bind_eq_some_iff.mp hcomplete
    injection Option.some.inj hr with houtcome _
    have hm : Machine.Sound _ ⟨s₀, Engine.compiled.begin s₀ e, []⟩ :=
      ⟨hkept.wellFormed, _, he.control hkept.wellFormed, .nil⟩
    obtain rfl := hfinish r (run_fits hm hrun) t houtcome ht
    obtain hcontrol | h := run_internal hm ht hrun
    · exact ((he.raises hcontrol).not_internal ht).elim
    · exact h

/-- In every world that an embedder can reach, a running machine is safe, and a call of a function
whose arguments pass its checks does not fail for something broken unless a host function does. -/
theorem Reachable.type_safe {w : World} (hw : w.Reachable) :
    (∀ {base m}, w = running base m → m.Safe) ∧
    ∀ {s}, w = idle s → ∀ fuel f, (∀ args, CallSafe s.depth fuel (Operation.call s f args)) ∧
      ∀ args, CallSafe s.depth fuel (Operation.callValues s f args) := by
  have hsound := hw.sound
  constructor
  · rintro base m rfl
    obtain ⟨type, hm⟩ := hsound
    exact hm.safe
  · rintro s rfl fuel f
    exact ⟨fun args ↦ callSafe_of_fits (Operation.call_fits hsound args) s.depth fuel,
      fun args ↦ callSafe_of_fits (Operation.callValues_fits hsound args) s.depth fuel⟩

def machine? : World → Option (Machine Activation Suspended)
  | idle _ => none
  | running _ m => some m

theorem eq_running_of_machine {α : Type} {base : Nat} {o : Operation α × Store}
    {m : Machine Activation Suspended} (h : (ofOperation base o).machine? = some m) :
    ofOperation base o = running base m := by
  obtain ⟨o, s⟩ := o
  cases o with
  | settled a => cases h
  | running e finish =>
    cases h
    rfl

end World

/-- A binary with a function of one argument that branches out of a block with a result. -/
def branchBinary : List UInt8 :=
  [0, 0x61, 0x73, 0x6d, 1, 0, 0, 0,
   1, 6, 1, 0x60, 1, 0x7f, 1, 0x7f,
   3, 2, 1, 0,
   10, 16, 1, 14, 0, 0x02, 0x7f, 0x20, 0, 0x20, 0, 0x0d, 0, 0x1a, 0x41, 5, 0x0b, 0x0b]

/-- A call of a function that branches, about to run. -/
theorem branching_call_safe :
    ∃ r s m, Store.load 1 { id := 0 } branchBinary = some (r, s) ∧
      World.ofOperation s.depth (Operation.callValues s ⟨0, 0⟩ [.i32 7]) = .running s.depth m ∧
      (World.running s.depth m).Reachable ∧ m.Safe ∧
      World.CallSafe s.depth 20 (Operation.callValues s ⟨0, 0⟩ [.i32 7]) := by
  have hload : ((Store.load 1 { id := 0 } branchBinary).bind fun (_, s) ↦
      (World.ofOperation s.depth (Operation.callValues s ⟨0, 0⟩ [.i32 7])).machine?).isSome := by
    decide +kernel
  obtain ⟨m, hm⟩ := Option.isSome_iff_exists.mp hload
  obtain ⟨⟨r, s⟩, hs, hm⟩ := Option.bind_eq_some_iff.mp hm
  have hidle := (World.reachable_new 0 {}).load hs
  have hrunning := World.eq_running_of_machine hm
  have hw : (World.running s.depth m).Reachable := by
    obtain ⟨id, config, hleads⟩ := hidle
    rw [← hrunning]
    exact ⟨id, config, hleads.tail ⟨_, .callValues s ⟨0, 0⟩ [.i32 7]⟩⟩
  exact ⟨r, s, m, hs, hrunning, hw, hw.type_safe.1 rfl,
    (hidle.type_safe.2 rfl 20 ⟨0, 0⟩).2 [.i32 7]⟩

end WasmEngine
