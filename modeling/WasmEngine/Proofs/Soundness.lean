import WasmEngine.Machine
import WasmEngine.Proofs.Linking
import WasmEngine.Proofs.Statements

/-!
# The machine runs soundly

Every call in progress has a type: that of its code, or that of its host function, which may have
none. A machine is sound when its store is well formed, what it runs and what waits is sound, and
each frame waits for a call of the type that was made. Every step keeps that, and the store extends
what it was.
-/

namespace WasmEngine

/-- The outcome of a call of a function of the given type, or of one without a type. -/
def AnswerFits : Option FuncType → Except Trap Answer → Prop
  | _, .error _ => True
  | some type, .ok (.value v) => ResultFits v type.result
  | none, .ok (.number _) => True
  | _, _ => False

/-- Frames that wait for a call of the given type, above one of type `base`. -/
inductive StackFits (s : Store) (base : Option FuncType) :
    Option FuncType → List (Frame Suspended) → Prop
  | nil : StackFits s base base []
  | code {w : Suspended} {i : Instance} {code : Code} {callee : FuncType}
      {stack : List (Frame Suspended)} (hw : w.Sound s i code callee)
      (hstack : StackFits s base (some code.type) stack) :
      StackFits s base (some callee) (.code w :: stack)
  | host {callee type : Option FuncType} {depth : Nat} {next : Except Trap Answer → HostProgram}
      {stack : List (Frame Suspended)} (hnext : ∀ r, (next r).Lawful)
      (hstack : StackFits s base type stack) :
      StackFits s base callee (.host type depth next :: stack)

/-- What a call of the given type is about to do. -/
inductive ControlFits (s : Store) : Option FuncType → Control Activation → Prop
  | code {a : Activation} {i : Instance} {code : Code} (ha : a.Sound s i code) :
      ControlFits s (some code.type) (.code a)
  | host {type : Option FuncType} {p : HostProgram} (hp : p.Lawful) :
      ControlFits s type (.host type p)
  | answer {type : Option FuncType} {r : Except Trap Answer} (hr : AnswerFits type r) :
      ControlFits s type (.answer r)

/-- A machine whose bottommost call has the type `base`. -/
structure Machine.Sound (base : Option FuncType) (m : Machine Activation Suspended) : Prop where
  wellFormed : m.store.WellFormed
  fits : ∃ type, ControlFits m.store type m.control ∧ StackFits m.store base type m.stack

/-- The traps that keep a call from beginning. -/
def Trap.OfEntry : Trap → Prop
  | .callStackExhausted _ | .i64AtBoundary => True
  | _ => False

/-- A call of the given type that is about to run. -/
def EntryFits (s : Store) (type : Option FuncType) : Except Trap Entry → Prop
  | .error t => t.OfEntry
  | .ok (.code _ inst c args) => type = some c.type ∧ args.map Value.type = c.type.params ∧
      ∃ i, s.instances[inst]? = some i ∧ c ∈ i.module.code
  | .ok (.host type' p) => type = type' ∧ p.Lawful

theorem StackFits.mono {s s' : Store} {base type : Option FuncType}
    {stack : List (Frame Suspended)} (hext : s.Extends s') (h : StackFits s base type stack) :
    StackFits s' base type stack := by
  induction h with
  | nil => exact .nil
  | code hw _ ih => exact .code (hw.mono hext) ih
  | host hnext _ ih => exact .host hnext ih

/-- A call that begins does what its function asks for. -/
theorem EntryFits.control {s : Store} (hs : s.WellFormed) {type : Option FuncType}
    {e : Except Trap Entry} (h : EntryFits s type e) :
    ControlFits s type (Engine.compiled.begin s e) := by
  match e, h with
  | .error t, _ => exact .answer trivial
  | .ok (.code _ inst c args), ⟨htype, hargs, i, hi, hc⟩ =>
    subst htype
    exact .code (Activation.start_sound hs hi hc hargs)
  | .ok (.host _ p), ⟨htype, hp⟩ =>
    subst htype
    exact .host hp

/-! ## Beginning a call -/

namespace Exec

variable {s : Store}

theorem pushDepth_ensures (hs : s.WellFormed) :
    Ensures pushDepth s (fun _ s' ↦ s.Kept s') fun t s' ↦ s.Kept s' ∧ t.OfEntry := by
  refine .get_bind (.ite (fun _ ↦ .throw_bind ⟨.refl hs, trivial⟩) fun _ ↦ .modify ?_)
  exact hs.withDepth _

theorem enterHost_ensures (hs : s.WellFormed) {type : Option FuncType} {f : HostFunc}
    (hf : f.Lawful) {caller : Option Nat} {args : List Number} {E : Trap → Store → Prop} :
    Ensures (enterHost type f caller args) s
      (fun e s' ↦ s.Kept s' ∧ EntryFits s' type (.ok e)) E := by
  refine .bind (.modify (Q := fun _ s' ↦ s.Kept s') (hs.withJournal _)) fun _ s' hkept ↦ ?_
  exact .get_bind (.pure ⟨hkept, rfl, hf _ _⟩)

/-- A function that is called with arguments of its type is entered, unless the calls in progress
are too many or a 64-bit integer would have to cross to the host. -/
theorem enter_ensures (hs : s.WellFormed) (caller : Option Nat) {addr : Nat} {type : FuncType}
    {args : List Value} (hfunc : s.HasFunc addr type)
    (hargs : args.map Value.type = type.params) :
    Ensures (enter caller addr args) s (fun e s' ↦ s.Kept s' ∧ EntryFits s' (some type) (.ok e))
      fun t s' ↦ s.Kept s' ∧ t.OfEntry := by
  obtain ⟨c, hc, htype⟩ := hfunc
  refine .bind (funcAt_ensures hc) ?_
  rintro c' s' ⟨rfl, rfl⟩
  cases c' with
  | code inst code =>
    obtain rfl := Option.some.inj htype
    obtain ⟨i, hi, hcode⟩ := hs.funcs hc
    refine .bind (pushDepth_ensures hs) fun _ s'' hkept ↦ .pure ?_
    exact ⟨hkept, rfl, hargs, i, hkept.ext.instances hi, hcode⟩
  | host type' f =>
    cases type' with
    | none => cases htype
    | some type' =>
      obtain rfl := Option.some.inj htype
      refine .bind (pushDepth_ensures hs) fun _ s'' hkept ↦ ?_
      refine .bind (.ofExcept (Q := fun _ t ↦ t = s'') (fun _ _ ↦ rfl) fun t ht ↦ ⟨hkept, ?_⟩)
        fun numbers t ht ↦ ?_
      · obtain ⟨v, -, hv⟩ := except_mapM_eq_error ht
        cases v <;> cases hv
        trivial
      · subst ht
        refine (enterHost_ensures hkept.wellFormed (hs.funcs hc)).mono ?_ fun _ _ he ↦ he
        exact fun e t' he ↦ ⟨hkept.trans he.1, he.2⟩

/-- A call that can be begun begins, or is refused at once. -/
theorem begin_fits {type : Option FuncType} {x : Exec Entry}
    (h : Ensures x s (fun e s' ↦ s.Kept s' ∧ EntryFits s' type (.ok e))
      fun t s' ↦ s.Kept s' ∧ t.OfEntry) :
    s.Kept (begin x s).2 ∧ EntryFits (begin x s).2 type (begin x s).1 := by
  unfold begin
  cases hrun : x.run s with
  | ok e s' => exact h.of_ok hrun
  | error t s' => exact h.of_error hrun

/-- The start function of an instance, which takes no arguments. -/
theorem begin_start (hs : s.WellFormed) {addr : Nat} (hfunc : s.HasFunc addr ⟨[], []⟩) :
    s.Kept (begin (enter none addr []) s).2 ∧
      EntryFits (begin (enter none addr []) s).2 (some ⟨[], []⟩) (begin (enter none addr []) s).1 :=
  begin_fits (enter_ensures hs none hfunc rfl)

end Exec

/-! ## Operations -/

/-- The traps that say that an address, a slot or an operand is not as it should be. -/
def Trap.Internal : Trap → Prop
  | .badHandle _ | .operandType _ => True
  | _ => False

/-- An operation on a store. If it comes to a call, that can run, and `F` relates what the call may
come to with the outcome of the operation. -/
inductive OperationFits {α : Type} (s : Store) (F : Except Trap Answer → α → Prop) :
    Operation α × Store → Prop
  | settled {s' : Store} {a : α} (hkept : s.Kept s') : OperationFits s F (.settled a, s')
  | running {s' : Store} {type : Option FuncType} {e : Except Trap Entry}
      {finish : Except Trap Answer → α} (hkept : s.Kept s') (he : EntryFits s' type e)
      (hfinish : ∀ r, AnswerFits type r → F r (finish r)) :
      OperationFits s F (.running e finish, s')

theorem Answer.toNumber_eq_error {answer : Answer} {t : Trap} (h : answer.toNumber = .error t) :
    t = .i64AtBoundary := by
  match answer, h with
  | .value (some (.i64 _)), h => cases h; rfl

namespace Operation

variable {s : Store} {f : Ref .func}

theorem type_of_mistyped {k : Nat} {args : List Value} {types : List ValueType}
    (hlen : args.length = types.length) (h : mistyped? k args types = none) :
    args.map Value.type = types := by
  induction args generalizing k types with
  | nil =>
    cases types with
    | nil => rfl
    | cons _ _ => cases hlen
  | cons v args ih =>
    cases types with
    | nil => cases hlen
    | cons t types =>
      simp only [mistyped?] at h
      split at h
      · rename_i hv
        rw [List.map_cons, hv, ih (Nat.succ.inj hlen) h]
      · cases h

theorem type_of_mapM_toValue {args : List Number} {types : List ValueType} {values : List Value}
    (hlen : args.length = types.length)
    (h : ((args.zip types).mapM fun (x, t) ↦ x.toValue t) = .ok values) :
    values.map Value.type = types := by
  have hvalues := except_mapM_eq_ok.mp h
  clear h
  induction types generalizing args values with
  | nil =>
    rw [List.zip_nil_right] at hvalues
    cases hvalues
    rfl
  | cons t types ih =>
    cases args with
    | nil => cases hlen
    | cons x args =>
      rw [List.zip_cons_cons] at hvalues
      cases hvalues with
      | cons hx hvalues =>
        rw [List.map_cons, Number.type_of_toValue hx, ih (Nat.succ.inj hlen) hvalues]

/-- What a call of the host makes of its outcome: an error that says that something is not as it
should be is one that came up in the call. -/
def Faithful {α : Type} (r : Except Trap Answer) (a : Except Trap α) : Prop :=
  ∀ t, a = .error t → t.Internal → r = .error t

theorem faithful_toNumber (r : Except Trap Answer) : Faithful r (r >>= Answer.toNumber) := by
  intro t ht hint
  cases r with
  | error t' => exact congrArg _ (Except.error.inj ht)
  | ok answer =>
    have := Answer.toNumber_eq_error ht
    subst this
    cases hint

theorem faithful_toValue {type : FuncType} {r : Except Trap Answer}
    (hr : AnswerFits (some type) r) : Faithful r (r >>= Answer.toValue) := by
  intro t ht hint
  match r, hr with
  | .error t', _ => exact congrArg _ (Except.error.inj ht)
  | .ok (.value v), _ => cases ht

theorem call_fits (hs : s.WellFormed) (args : List Number) :
    OperationFits s Faithful (call s f args) := by
  unfold call
  split
  · exact .settled (.refl hs)
  · rename_i addr _
    split
    · exact .settled (.refl hs)
    · rename_i f' hf
      have hbegin : Ensures (do Exec.pushDepth; Exec.enterHost none f' none args) s
          (fun e s' ↦ s.Kept s' ∧ EntryFits s' none (.ok e)) fun t s' ↦ s.Kept s' ∧ t.OfEntry := by
        refine .bind (Exec.pushDepth_ensures hs) fun _ s' hkept ↦ ?_
        refine (Exec.enterHost_ensures hkept.wellFormed (hs.funcs hf)).mono ?_ fun _ _ he ↦ he
        exact fun e t he ↦ ⟨hkept.trans he.1, he.2⟩
      obtain ⟨hkept, he⟩ := Exec.begin_fits hbegin
      exact .running hkept he fun r _ ↦ faithful_toNumber r
    · rename_i callable hnone hc
      have htype : callable.type? = some (callable.type?.getD ⟨[], []⟩) := by
        obtain ⟨type, htype⟩ := Callable.exists_type hnone
        rw [htype]
        rfl
      dsimp only
      split
      · exact .settled (.refl hs)
      · rename_i hlen
        split
        · exact .settled (.refl hs)
        · split
          · exact .settled (.refl hs)
          · rename_i values hvalues
            have hargs := type_of_mapM_toValue (not_not.mp hlen) hvalues
            obtain ⟨hkept, he⟩ :=
              Exec.begin_fits (Exec.enter_ensures hs none ⟨callable, hc, htype⟩ hargs)
            exact .running hkept he fun r _ ↦ faithful_toNumber r

theorem callValues_fits (hs : s.WellFormed) (args : List Value) :
    OperationFits s Faithful (callValues s f args) := by
  unfold callValues
  split
  · exact .settled (.refl hs)
  · split
    · exact .settled (.refl hs)
    · rename_i callable hc
      split
      · exact .settled (.refl hs)
      · rename_i type htype
        split
        · exact .settled (.refl hs)
        · rename_i hlen
          split
          · exact .settled (.refl hs)
          · rename_i hmistyped
            have hargs := type_of_mistyped (not_not.mp hlen) hmistyped
            obtain ⟨hkept, he⟩ :=
              Exec.begin_fits (Exec.enter_ensures hs none ⟨callable, hc, htype⟩ hargs)
            exact .running hkept he fun r hr ↦ faithful_toValue hr

/-- What an instantiation makes of the outcome of the start function. -/
def started (i : Ref .inst) : Except Trap Answer → Except InstantiationError (Ref .inst)
  | .ok _ => .ok i
  | .error t => .error (.trap t)

/-- An instantiation fails to link and leaves the store as it was, or it is settled with an instance
that has no start function, or it comes to a call of the start function. -/
theorem instantiate_cases (hs : s.WellFormed) {m : Module} (hm : m.Decoded) (imports : Imports) :
    (∃ e t, (Link.link m imports).run s = .error e t ∧
      (Link.prepare m imports).run s = .error e s ∧
      instantiate s m imports = (.settled (.error e), s) ∧
      (imports.KnownTo s → ∃ l, e = .link l)) ∨
    ∃ r t i, Link.Prepared s m imports r t i ∧
      (instantiate s m imports = (.settled (.ok (s.ref r.1)), r.2.apply t) ∨
        ∃ index addr, m.start = some index ∧ i.funcs[index]? = some addr ∧
          (r.2.apply t).HasFunc addr ⟨[], []⟩ ∧
          instantiate s m imports =
            (.running (Exec.begin (Exec.enter none addr []) (r.2.apply t)).1 (started (s.ref r.1)),
              (Exec.begin (Exec.enter none addr []) (r.2.apply t)).2)) := by
  obtain ⟨e, t, hfail, hrun, hlink⟩ | ⟨r, t, i, h⟩ := Link.prepare_cases hs hm imports
  · refine .inl ⟨e, t, hfail, hrun, ?_, hlink⟩
    simp only [instantiate, hrun]
  · refine .inr ⟨r, t, i, h, ?_⟩
    cases hstart : (do i.funcs[← m.start]? : Option Nat) with
    | none =>
      refine .inl ?_
      simp only [instantiate, h.run, hstart]
    | some addr =>
      obtain ⟨index, hindex, haddr⟩ := Option.bind_eq_some_iff.mp hstart
      have htype := hm.valid.start index hindex
      rw [← h.module] at htype
      obtain ⟨addr', haddr', hfunc⟩ := (h.kept.wellFormed.instances h.inst).hasFunc htype
      obtain rfl := Option.some.inj (haddr'.symm.trans haddr)
      refine .inr ⟨index, addr', hindex, haddr, hfunc, ?_⟩
      simp only [instantiate, h.run, hstart]
      rfl

theorem instantiate_fits (hs : s.WellFormed) {m : Module} (hm : m.Decoded) (imports : Imports) :
    OperationFits s (fun _ _ ↦ True) (instantiate s m imports) := by
  obtain ⟨e, _, -, -, heq, -⟩ | ⟨r, t, i, h, heq | ⟨index, addr, -, -, hfunc, heq⟩⟩ :=
    instantiate_cases hs hm imports
  · rw [heq]
    exact .settled (.refl hs)
  · rw [heq]
    exact .settled h.kept
  · rw [heq]
    obtain ⟨hkept, he⟩ := Exec.begin_start h.kept.wellFormed hfunc
    exact .running (h.kept.trans hkept) he fun _ _ ↦ trivial

end Operation

/-! ## Steps of the machine -/

/-- What a step from the store `s` leads to, above a bottommost call of the type `base`: if the step
makes a call fail, its trap is one of `Raises`. -/
structure Machine.Follows (base : Option FuncType) (s : Store) (Raises : Trap → Prop)
    (m : Machine Activation Suspended) : Prop where
  sound : m.Sound base
  ext : s.Extends m.store
  raises : ∀ t, m.control = .answer (.error t) → Raises t

theorem Machine.Follows.mono {base : Option FuncType} {s : Store} {R R' : Trap → Prop}
    {m : Machine Activation Suspended} (h : m.Follows base s R) (hR : ∀ t, R t → R' t) :
    m.Follows base s R' :=
  ⟨h.sound, h.ext, fun t ht ↦ hR t (h.raises t ht)⟩

/-- The traps that a step of code leads to: its statement raises it, or the callee cannot be
entered. -/
def Trap.OfCode (t : Trap) : Prop := t.OfStatement ∨ t.OfEntry

/-- The traps that a step of a host program leads to: it ends with the trap, it ends with a result
that does not fit, or what it calls cannot be entered. -/
def Trap.OfProgram (p : HostProgram) (t : Trap) : Prop :=
  p = .done (.error t) ∨ t = .unexpectedHostResult ∨ t.OfEntry

/-- The traps that a step of the machine leads to: those of what it runs, or the one that it hands
on. -/
def Trap.OfControl : Control Activation → Trap → Prop
  | .code _, t => t.OfCode
  | .host _ p, t => t.OfProgram p
  | .answer r, t => r = .error t

/-- A sound machine comes to an outcome that fits its bottommost call. -/
theorem Machine.Sound.outcome_fits {base : Option FuncType} {s : Store} {r : Except Trap Answer}
    (h : Machine.Sound base ⟨s, .answer r, []⟩) : AnswerFits base r := by
  obtain ⟨-, type, hcontrol, hstack⟩ := h
  cases hstack
  cases hcontrol with
  | answer hr => exact hr

theorem Machine.Sound.activation {base : Option FuncType} {m : Machine Activation Suspended}
    (hm : m.Sound base) {a : Activation} (hcontrol : m.control = .code a) :
    ∃ i code, a.Sound m.store i code := by
  obtain ⟨hs, type, hfits, -⟩ := hm
  rw [hcontrol] at hfits
  cases hfits with
  | code ha => exact ⟨_, _, ha⟩

theorem EntryFits.raises {s : Store} {type : Option FuncType} {e : Except Trap Entry}
    (h : EntryFits s type e) {t : Trap} (ht : Engine.compiled.begin s e = .answer (.error t)) :
    t.OfEntry := by
  match e, h, ht with
  | .error t', h, ht =>
    cases ht
    exact h
  | .ok (.code _ _ _ _), _, ht => cases ht
  | .ok (.host _ _), _, ht => cases ht

theorem hostAnswer_fits (type : Option FuncType) (x : Option Number) :
    AnswerFits type (hostAnswer type x) := by
  cases type with
  | none => trivial
  | some type =>
    cases hresult : type.result with
    | none => cases x <;> simp [hostAnswer, AnswerFits, hresult, ResultFits]
    | some t =>
      cases x with
      | none => simp [hostAnswer, AnswerFits, hresult]
      | some x =>
        cases hv : x.toValue t with
        | error t' => simp [hostAnswer, hresult, hv, bind, Except.bind, AnswerFits]
        | ok v =>
          have hfits : ResultFits (some v) (some t) := .some (Number.type_of_toValue hv)
          simpa [hostAnswer, hresult, hv, bind, Except.bind, pure, Except.pure, AnswerFits]
            using hfits

theorem hostAnswer_eq_error {type : Option FuncType} {x : Option Number} {t : Trap}
    (h : hostAnswer type x = .error t) : t = .unexpectedHostResult ∨ t = .i64AtBoundary := by
  unfold hostAnswer at h
  split at h
  · cases h
  · split at h
    · rename_i t' x' _
      cases hv : x'.toValue t' with
      | ok v =>
        rw [hv] at h
        cases h
      | error t'' =>
        rw [hv] at h
        cases h
        cases t' <;> cases hv
        exact .inr rfl
    · cases h
    · cases h
      exact .inl rfl

namespace Engine

variable {s : Store} {base type : Option FuncType} {stack : List (Frame Suspended)}

/-- Code that waits goes on with every outcome that fits the callee. -/
theorem deliver_eq {w : Suspended} {i : Instance} {code : Code} {callee : FuncType}
    (hw : w.Sound s i code callee) {answer : Answer} (h : AnswerFits (some callee) (.ok answer)) :
    ∃ a, compiled.deliver w answer = .code a ∧ a.Sound s i code := by
  match answer, h with
  | .value v, h =>
    obtain ⟨a, hresume, ha⟩ := hw.resume h
    refine ⟨a, ?_, ha⟩
    have hdeliver : (Answer.value v).toValue >>= compiled.resume w = .ok a := hresume
    simp only [deliver, hdeliver]

theorem stepCode_follows {a : Activation} {i : Instance} {code : Code} (hs : s.WellFormed)
    (ha : a.Sound s i code) (hstack : StackFits s base (some code.type) stack) :
    (compiled.stepCode s a stack).Follows base s Trap.OfCode := by
  have hensures := ha.step_ensures hs
  unfold stepCode
  split
  · rename_i a' s' hrun
    obtain ⟨hkept, ha'⟩ := hensures.of_ok hrun
    exact ⟨⟨hkept.wellFormed, _, .code ha', hstack.mono hkept.ext⟩, hkept.ext, nofun⟩
  · rename_i caller addr args w s' hrun
    obtain ⟨hkept, -, callee, hfunc, hargs, hw⟩ := hensures.of_ok hrun
    obtain ⟨hkept', he⟩ :=
      Exec.begin_fits (Exec.enter_ensures hkept.wellFormed (some caller) hfunc hargs)
    have hext := hkept.ext.trans hkept'.ext
    exact ⟨⟨hkept'.wellFormed, some callee, he.control hkept'.wellFormed,
      .code (hw.mono hkept'.ext) (hstack.mono hext)⟩, hext, fun t ht ↦ .inr (he.raises ht)⟩
  · rename_i v s' hrun
    obtain ⟨hkept, hv⟩ := hensures.of_ok hrun
    have hkept' := hkept.trans (hkept.wellFormed.withDepth (s'.depth - 1))
    exact ⟨⟨hkept'.wellFormed, some code.type, .answer hv, hstack.mono hkept'.ext⟩, hkept'.ext,
      nofun⟩
  · rename_i t s' hrun
    obtain ⟨hkept, ht⟩ := hensures.of_error hrun
    refine ⟨⟨hkept.wellFormed, _, .answer trivial, hstack.mono hkept.ext⟩, hkept.ext, ?_⟩
    intro t' ht'
    cases ht'
    exact .inl ht

theorem suspend_follows {α : Type} {F : Except Trap Answer → α → Prop} {next : α → HostProgram}
    {o : Operation α × Store} {depth : Nat} (ho : OperationFits s F o)
    (hnext : ∀ a, (next a).Lawful) (hstack : StackFits s base type stack) :
    (compiled.suspend type depth next stack o).Follows base s Trap.OfEntry := by
  cases ho with
  | settled hkept =>
    exact ⟨⟨hkept.wellFormed, type, .host (hnext _), hstack.mono hkept.ext⟩, hkept.ext, nofun⟩
  | running hkept he _ =>
    exact ⟨⟨hkept.wellFormed, _, he.control hkept.wellFormed,
      .host (fun _ ↦ hnext _) (hstack.mono hkept.ext)⟩, hkept.ext, fun t ht ↦ he.raises ht⟩

theorem stepHost_follows {p : HostProgram} (hs : s.WellFormed) (hp : p.Lawful)
    (hstack : StackFits s base type stack) :
    (compiled.stepHost s type stack p).Follows base s (Trap.OfProgram p) := by
  cases hp with
  | done r =>
    cases r with
    | ok x =>
      have hkept := hs.withDepth (s.depth - 1)
      refine ⟨⟨hkept.wellFormed, type, .answer (hostAnswer_fits type x), hstack.mono hkept.ext⟩,
        hkept.ext, ?_⟩
      intro t ht
      obtain rfl | rfl := hostAnswer_eq_error (Control.answer.inj ht)
      · exact .inr (.inl rfl)
      · exact .inr (.inr trivial)
    | error t =>
      refine ⟨⟨hs, type, .answer trivial, hstack⟩, .refl s, ?_⟩
      intro t' ht'
      cases ht'
      exact .inl rfl
  | query hnext =>
    obtain ⟨hkept, -⟩ := hs.answer _
    exact ⟨⟨hkept.wellFormed, type, .host (hnext _), hstack.mono hkept.ext⟩, hkept.ext, nofun⟩
  | call hnext =>
    exact (suspend_follows (Operation.call_fits hs _) hnext hstack).mono
      fun _ ht ↦ .inr (.inr ht)
  | callValues hnext =>
    exact (suspend_follows (Operation.callValues_fits hs _) hnext hstack).mono
      fun _ ht ↦ .inr (.inr ht)
  | instantiate hm hnext =>
    exact (suspend_follows (Operation.instantiate_fits hs hm _) hnext hstack).mono
      fun _ ht ↦ .inr (.inr ht)
  | newFunc hbody hnext =>
    obtain ⟨hkept, -⟩ := hs.newFunc (f := ⟨_, _⟩) hbody
    exact ⟨⟨hkept.wellFormed, type, .host (hnext _), hstack.mono hkept.ext⟩, hkept.ext, nofun⟩

/-- Every step of a sound machine leads to a sound machine. -/
theorem next_follows {m m' : Machine Activation Suspended} (hm : m.Sound base)
    (hnext : compiled.next m = .next m') :
    m'.Follows base m.store (Trap.OfControl m.control) := by
  obtain ⟨s, control, stack⟩ := m
  obtain ⟨hs, type, hcontrol, hstack⟩ := hm
  cases hcontrol with
  | code ha =>
    cases hnext
    exact stepCode_follows hs ha hstack
  | host hp =>
    cases hnext
    exact stepHost_follows hs hp hstack
  | @answer _ r hr =>
    cases hstack with
    -- With no frame below, the outcome is final and there is no next machine.
    | nil => cases hnext
    | code hw hstack =>
      cases r with
      | error t =>
        cases hnext
        refine ⟨⟨hs, _, .answer trivial, hstack⟩, .refl s, ?_⟩
        intro t' ht'
        exact Control.answer.inj ht'
      | ok answer =>
        cases hnext
        obtain ⟨a, hdeliver, ha⟩ := deliver_eq hw hr
        refine ⟨⟨hs, _, ?_, hstack⟩, .refl s, ?_⟩
        · rw [hdeliver]
          exact .code ha
        · rw [hdeliver]
          exact nofun
    | @host _ _ depth _ _ hp hstack =>
      have hkept := hs.withDepth depth
      cases r <;> cases hnext <;>
        exact ⟨⟨hkept.wellFormed, _, .host (hp _), hstack.mono hkept.ext⟩, hkept.ext, nofun⟩

end Engine

/-! ## Calls above waiting frames -/

/-- The machine with more frames below. -/
def Machine.above {A W : Type} (m : Machine A W) (frames : List (Frame W)) : Machine A W :=
  { m with stack := m.stack ++ frames }

namespace Engine

variable {A W : Type} {E : Engine A W} {m m' : Machine A W} {frames : List (Frame W)}

theorem stepCode_above (s : Store) (a : A) (stack : List (Frame W)) :
    E.stepCode s a (stack ++ frames) = (E.stepCode s a stack).above frames := by
  unfold stepCode
  split <;> rfl

theorem suspend_above {α : Type} (type : Option FuncType) (base : Nat) (next : α → HostProgram)
    (stack : List (Frame W)) (o : Operation α × Store) :
    E.suspend type base next (stack ++ frames) o =
      (E.suspend type base next stack o).above frames := by
  obtain ⟨o, s⟩ := o
  cases o <;> rfl

theorem stepHost_above (s : Store) (type : Option FuncType) (stack : List (Frame W))
    (p : HostProgram) :
    E.stepHost s type (stack ++ frames) p = (E.stepHost s type stack p).above frames := by
  cases p with
  | done r => cases r <;> rfl
  | query q next => rfl
  | call f args next => exact suspend_above type s.depth next stack _
  | callValues f args next => exact suspend_above type s.depth next stack _
  | instantiate m imports next => exact suspend_above type s.depth next stack _
  | newFunc fType tag body next => rfl

/-- What a call does is the same whatever waits for it. -/
theorem next_above (h : E.next m = .next m') :
    E.next (m.above frames) = .next (m'.above frames) := by
  obtain ⟨s, control, stack⟩ := m
  cases control with
  | code a =>
    cases h
    exact congrArg Progress.next (stepCode_above s a stack)
  | host type p =>
    cases h
    exact congrArg Progress.next (stepHost_above s type stack p)
  | answer r =>
    cases stack with
    | nil => cases r <;> cases h
    | cons frame stack => cases r <;> cases frame <;> cases h <;> rfl

theorem done_cases {r : Except Trap Answer} {s : Store} (h : E.next m = .done r s) :
    m = ⟨s, .answer r, []⟩ := by
  obtain ⟨s', control, stack⟩ := m
  cases control with
  | code a => cases h
  | host type p => cases h
  | answer r =>
    cases stack with
    | nil => cases r <;> cases h <;> rfl
    | cons frame stack => cases r <;> cases frame <;> cases h

/-- A step of the call above `frames`, which is not over yet. -/
def StepAbove (E : Engine A W) (frames : List (Frame W)) (m m' : Machine A W) : Prop :=
  E.next m = .next m' ∧ ¬(m.stack = frames ∧ ∃ r, m.control = .answer r)

theorem StepAbove.exists_next (h : E.StepAbove frames (m.above frames) m') :
    ∃ m'', E.next m = .next m'' ∧ m' = m''.above frames := by
  cases hnext : E.next m with
  | next m'' =>
    refine ⟨m'', rfl, ?_⟩
    exact Progress.next.inj (h.1.symm.trans (next_above hnext))
  | done r s =>
    cases done_cases hnext
    exact (h.2 ⟨rfl, r, rfl⟩).elim

open Relation

/-- The outcome of a call of code fits its type. -/
theorem answer_fits {s s' : Store} (hs : s.WellFormed) {addr inst : Nat} {code : Code}
    (hfunc : s.funcs[addr]? = some (.code inst code)) {args : List Value}
    (hargs : args.map Value.type = code.type.params) {frames : List (Frame Suspended)}
    {r : Except Trap Answer}
    (hrun : ReflTransGen (compiled.StepAbove frames)
      ⟨s, .code (Activation.start inst code args), frames⟩ ⟨s', .answer r, frames⟩) :
    AnswerFits (some code.type) r := by
  obtain ⟨i, hi, hcode⟩ := hs.funcs hfunc
  have hstart : Machine.Sound (some code.type) ⟨s, .code (Activation.start inst code args), []⟩ :=
    ⟨hs, some code.type, .code (Activation.start_sound hs hi hcode hargs), .nil⟩
  -- All along, what is above `frames` is a sound machine of its own.
  have hsound : ∀ m, ReflTransGen (compiled.StepAbove frames)
      ⟨s, .code (Activation.start inst code args), frames⟩ m →
      ∃ m₀ : Machine Activation Suspended, m = m₀.above frames ∧ m₀.Sound (some code.type) := by
    intro m hm
    induction hm with
    | refl => exact ⟨_, rfl, hstart⟩
    | tail _ hstep ih =>
      obtain ⟨m₀, rfl, hm₀⟩ := ih
      obtain ⟨m₁, hnext, rfl⟩ := hstep.exists_next
      exact ⟨m₁, rfl, (next_follows hm₀ hnext).sound⟩
  obtain ⟨⟨s₀, control, stack⟩, heq, hm₀⟩ := hsound _ hrun
  injection heq with hstore hcontrol hframes
  obtain rfl := List.self_eq_append_left.mp hframes
  subst hcontrol
  exact hm₀.outcome_fits

end Engine

end WasmEngine
