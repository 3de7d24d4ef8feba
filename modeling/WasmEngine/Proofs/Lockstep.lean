import WasmEngine.Proofs.Simulation

/-!
# Two machines in step

The machine that runs instructions and the machine that runs compiled code have the same store, and
call by call what runs and what waits stands at the same point. Programs of host functions are the
same on both sides. Every step keeps that. Then both come to the same outcome, or neither comes to
one.
-/

namespace WasmEngine

/-- What runs is the same host program or the same outcome, or stands at the same point of a
body. -/
inductive ControlTracks (s : Store) : Control Stacked.Activation → Control Activation → Prop
  | code {b : Stacked.Activation} {a : Activation} {i : Instance}
      (hi : s.instances[a.inst]? = some i) (h : Tracks i.module b a) :
      ControlTracks s (.code b) (.code a)
  | host (type : Option FuncType) (p : HostProgram) : ControlTracks s (.host type p) (.host type p)
  | answer (r : Except Trap Answer) : ControlTracks s (.answer r) (.answer r)

inductive FrameTracks (s : Store) : Frame Stacked.Waiting → Frame Suspended → Prop
  | code {w : Stacked.Waiting} {w' : Suspended} {i : Instance}
      (hi : s.instances[w'.activation.inst]? = some i) (h : WaitTracks i.module w w') :
      FrameTracks s (.code w) (.code w')
  | host (type : Option FuncType) (base : Nat) (next : Except Trap Answer → HostProgram) :
      FrameTracks s (.host type base next) (.host type base next)

/-- The machines have the same store, and what runs and what waits is aligned. -/
inductive Machine.Aligned :
    Machine Stacked.Activation Stacked.Waiting → Machine Activation Suspended → Prop
  | mk {s : Store} {c : Control Stacked.Activation} {c' : Control Activation}
      {fs : List (Frame Stacked.Waiting)} {fs' : List (Frame Suspended)}
      (hcontrol : ControlTracks s c c') (hstack : List.Forall₂ (FrameTracks s) fs fs') :
      Aligned ⟨s, c, fs⟩ ⟨s, c', fs'⟩

theorem FrameTracks.mono {s s' : Store} (hext : s.Extends s') {f : Frame Stacked.Waiting}
    {f' : Frame Suspended} (h : FrameTracks s f f') : FrameTracks s' f f' := by
  cases h with
  | code hi h => exact .code (hext.instances hi) h
  | host type base next => exact .host type base next

/-! ## Calls that begin and end -/

/-- The body of a function compiles to its code. -/
theorem Module.Lists.compiled {m : Module} {code : Code} {is : List Instr} (h : m.Lists code is) :
    code.CompiledFrom m is := by
  obtain ⟨config, bytes, bs, k, hdecode, hbodies, hcode, his⟩ := h
  obtain ⟨-, bs', hbodies', hall⟩ := Module.decode_eq_ok hdecode
  obtain rfl := Except.ok.inj (hbodies.symm.trans hbodies')
  obtain ⟨is', his', hfrom⟩ := forall₂_getElem?_left hall hcode
  obtain rfl := Option.some.inj (his.symm.trans his')
  exact hfrom

/-- A call starts at the same point. -/
theorem EntryFits.tracks (l : Listing) {s : Store} (hs : s.WellFormed) {type : Option FuncType}
    {e : Except Trap Entry} (h : EntryFits s type e) :
    ControlTracks s ((Engine.stacked l).begin s e) (Engine.compiled.begin s e) := by
  match e, h with
  | .error t, _ => exact .answer _
  | .ok (.host type p), _ => exact .host type p
  | .ok (.code addr inst code args), ⟨_, _, i, hi, hcode⟩ =>
    have hemits := (l.listed addr (hs.instances hi).decoded hcode).compiled.emits
    refine .code hi ?_
    simp only [Engine.stacked, Listing.start, hi]
    change Tracks i.module
      ⟨inst, code.type.result, (Slots.new code args).locals, [], [], l.body addr i.module code⟩
      ⟨inst, Slots.new code args, [⟨0, code.body, code.body, false⟩], none⟩
    exact .mk .nil (.function hemits)

/-- Both go on with what the callee returned. -/
theorem WaitTracks.resume {m : Module} {s : Store} {i : Instance} {code : Code} {callee : FuncType}
    {w : Stacked.Waiting} {w' : Suspended} {v : Option Value} (h : WaitTracks m w w')
    (hw : w'.Sound s i code callee) (hv : ResultFits v callee.result) :
    ∃ b a, w.resume v = .ok b ∧ w'.resume v = .ok a ∧ a.inst = w'.activation.inst ∧
      Tracks m b a := by
  obtain ⟨hsound, hresult⟩ := hw
  obtain @⟨inst, result, r, slots, vs, ts, cs, labels, is, regions, hvs, hrun⟩ := h
  cases r with
  | none => exact ⟨_, _, rfl, rfl, rfl, .mk hvs hrun⟩
  | some t =>
    cases hcallee : callee.result with
    | none =>
      rw [hcallee] at hresult
      cases hresult
    | some u =>
      rw [hcallee] at hresult hv
      cases hresult with
      | some hslot =>
        cases hv with
        | @some v _ _ =>
          obtain ⟨slots', hset⟩ := hsound.slots.settable hslot v
          refine ⟨_, _, rfl, except_bind_eq_ok.mpr ⟨slots', hset, rfl⟩, rfl, ?_⟩
          rw [Stacked.Activation.push, ← Slots.locals_of_set_operand hset]
          exact .mk (hvs.push hset) hrun

/-! ## Steps -/

theorem Activation.step_of_regions_nil {a : Activation} (h : a.regions = []) {s : Store} :
    a.step.run s = .ok (.ret a.returned) s := by
  obtain ⟨inst, slots, regions, returned⟩ := a
  subst h
  rfl

namespace Engine

variable {A W : Type} {E : Engine A W} {s s' : Store} {a a' : A} {fs : List (Frame W)}

theorem next_of_next (h : (E.step a).run s = .ok (.next a') s') :
    E.next ⟨s, .code a, fs⟩ = .next ⟨s', .code a', fs⟩ := by
  simp only [next, stepCode, h]

theorem next_of_call {caller addr : Nat} {args : List Value} {w : W}
    (h : (E.step a).run s = .ok (.call caller addr args w) s') :
    E.next ⟨s, .code a, fs⟩ =
      .next ⟨(Exec.begin (Exec.enter (some caller) addr args) s').2,
        E.begin (Exec.begin (Exec.enter (some caller) addr args) s').2
          (Exec.begin (Exec.enter (some caller) addr args) s').1, .code w :: fs⟩ := by
  simp only [next, stepCode, h]

theorem next_of_ret {v : Option Value} (h : (E.step a).run s = .ok (.ret v) s') :
    E.next ⟨s, .code a, fs⟩ =
      .next ⟨{ s' with depth := s'.depth - 1 }, .answer (.ok (.value v)), fs⟩ := by
  simp only [next, stepCode, h]

theorem next_of_error {t : Trap} (h : (E.step a).run s = .error t s') :
    E.next ⟨s, .code a, fs⟩ = .next ⟨s', .answer (.error t), fs⟩ := by
  simp only [next, stepCode, h]

end Engine

/-- Instructions ahead of the code that runs. -/
def Machine.ahead (m : Machine Stacked.Activation Stacked.Waiting) : Nat :=
  match m.control with
  | .code b => b.code.length
  | _ => 0

/-- How far compiled code goes while the other machine makes one step: not at all, if the
instruction becomes no statement; one step, as a rule; two steps, if the function returns. -/
inductive StepsWith (l : Listing) (m : Machine Stacked.Activation Stacked.Waiting)
    (m' : Machine Activation Suspended) : Prop
  | none {n : Machine Stacked.Activation Stacked.Waiting}
      (hnext : (Engine.stacked l).next m = .next n) (hahead : n.ahead < m.ahead)
      (h : n.Aligned m') : StepsWith l m m'
  | one {n : Machine Stacked.Activation Stacked.Waiting} {n' : Machine Activation Suspended}
      (hnext : (Engine.stacked l).next m = .next n) (hnext' : Engine.compiled.next m' = .next n')
      (h : n.Aligned n') : StepsWith l m m'
  | two {n : Machine Stacked.Activation Stacked.Waiting}
      {n' n'' : Machine Activation Suspended} (hnext : (Engine.stacked l).next m = .next n)
      (hnext' : Engine.compiled.next m' = .next n') (hnext'' : Engine.compiled.next n' = .next n'')
      (h : n.Aligned n'') : StepsWith l m m'
  | done {r : Except Trap Answer} {s : Store} (hdone : (Engine.stacked l).next m = .done r s)
      (hdone' : Engine.compiled.next m' = .done r s) : StepsWith l m m'

section

variable (l : Listing) {base type : Option FuncType} {s : Store}
  {fs : List (Frame Stacked.Waiting)} {fs' : List (Frame Suspended)}

theorem frames_mono {s' : Store} (hext : s.Extends s')
    (h : List.Forall₂ (FrameTracks s) fs fs') : List.Forall₂ (FrameTracks s') fs fs' :=
  h.imp fun _ _ hf ↦ hf.mono hext

theorem stepsWith_code {b : Stacked.Activation} {a : Activation} {i i' : Instance} {code : Code}
    (hs : s.WellFormed) (ha : a.Sound s i' code) (hi : s.instances[a.inst]? = some i)
    (h : Tracks i.module b a) (hstack : List.Forall₂ (FrameTracks s) fs fs') :
    StepsWith l ⟨s, .code b, fs⟩ ⟨s, .code a, fs'⟩ := by
  obtain rfl := Option.some.inj (ha.inst.symm.trans hi)
  have hensures := ha.step_ensures hs
  obtain ⟨b', hrun, htracks, hlt⟩ | hagree := h.agree hs ha
  · exact .none (Engine.next_of_next hrun) hlt (.mk (.code hi htracks) hstack)
  · obtain ⟨x, y, s₁, hx, hy, hact⟩ | ⟨t, s₁, hx, hy⟩ := hagree.cases
    · have hkept := (hensures.of_ok hy).1
      have hframes := frames_mono hkept.ext hstack
      cases hact with
      | next htracks =>
        obtain ⟨-, ha'⟩ := hensures.of_ok hy
        exact .one (Engine.next_of_next hx) (Engine.next_of_next hy)
          (.mk (.code ha'.inst htracks) hframes)
      | @call caller addr args w w' hw =>
        obtain ⟨-, -, callee, hfunc, hargs, hw'⟩ := hensures.of_ok hy
        obtain ⟨hkept', he⟩ :=
          Exec.begin_fits (Exec.enter_ensures hkept.wellFormed (some caller) hfunc hargs)
        refine .one (Engine.next_of_call hx) (Engine.next_of_call hy)
          (.mk (he.tracks l hkept'.wellFormed) (.cons ?_ (frames_mono hkept'.ext hframes)))
        exact .code (hkept'.ext.instances hw'.activation.inst) hw
      | @ret a' hregions =>
        -- Compiled code first leaves its regions and then gives the value to its caller.
        have hkept' := hkept.wellFormed.withDepth (s₁.depth - 1)
        exact .two (Engine.next_of_ret hx) (Engine.next_of_next hy)
          (Engine.next_of_ret (Activation.step_of_regions_nil hregions))
          (.mk (.answer _) (frames_mono hkept'.ext hframes))
    · have hkept := (hensures.of_error hy).1
      exact .one (Engine.next_of_error hx) (Engine.next_of_error hy)
        (.mk (.answer _) (frames_mono hkept.ext hstack))

/-- An operation that a host program asks for begins alike. -/
theorem suspend_aligned {α : Type} {F : Except Trap Answer → α → Prop} {next : α → HostProgram}
    {o : Operation α × Store} {depth : Nat} (ho : OperationFits s F o)
    (hstack : List.Forall₂ (FrameTracks s) fs fs') :
    ((Engine.stacked l).suspend type depth next fs o).Aligned
      (Engine.compiled.suspend type depth next fs' o) := by
  cases ho with
  | settled hkept => exact .mk (.host _ _) (frames_mono hkept.ext hstack)
  | running hkept he _ =>
    exact .mk (he.tracks l hkept.wellFormed)
      (.cons (.host _ _ _) (frames_mono hkept.ext hstack))

theorem stepHost_aligned {p : HostProgram} (hs : s.WellFormed) (hp : p.Lawful)
    (hstack : List.Forall₂ (FrameTracks s) fs fs') :
    ((Engine.stacked l).stepHost s type fs p).Aligned
      (Engine.compiled.stepHost s type fs' p) := by
  cases hp with
  | done r =>
    cases r with
    | ok x => exact .mk (.answer _) (frames_mono (hs.withDepth _).ext hstack)
    | error t => exact .mk (.answer _) hstack
  | query _ => exact .mk (.host _ _) (frames_mono (hs.answer _).1.ext hstack)
  | call _ => exact suspend_aligned l (Operation.call_fits hs _) hstack
  | callValues _ => exact suspend_aligned l (Operation.callValues_fits hs _) hstack
  | instantiate hm _ => exact suspend_aligned l (Operation.instantiate_fits hs hm _) hstack
  | newFunc hbody _ =>
    exact .mk (.host _ _) (frames_mono (hs.newFunc (f := ⟨_, _⟩) hbody).1.ext hstack)

/-- Code that waits gets the outcome that it waited for. -/
theorem deliver_tracks {i i' : Instance} {code : Code} {callee : FuncType} {w : Stacked.Waiting}
    {w' : Suspended} {answer : Answer} (hi : s.instances[w'.activation.inst]? = some i)
    (h : WaitTracks i.module w w') (hw : w'.Sound s i' code callee)
    (hanswer : AnswerFits (some callee) (.ok answer)) :
    ControlTracks s ((Engine.stacked l).deliver w answer) (Engine.compiled.deliver w' answer) := by
  match answer, hanswer with
  | .value v, hv =>
    obtain ⟨b, a, hb, ha, hinst, htracks⟩ := h.resume hw hv
    have hb : (Answer.value v).toValue >>= (Engine.stacked l).resume w = .ok b := hb
    have ha : (Answer.value v).toValue >>= Engine.compiled.resume w' = .ok a := ha
    simp only [Engine.deliver, hb, ha]
    exact .code (hinst ▸ hi) htracks

/-- Aligned machines step together. -/
theorem stepsWith {m : Machine Stacked.Activation Stacked.Waiting}
    {m' : Machine Activation Suspended} (hsound : m'.Sound base) (h : m.Aligned m') :
    StepsWith l m m' := by
  obtain @⟨s, c, c', fs, fs', hcontrol, hstack⟩ := h
  obtain ⟨hs, type, hfits, hframes⟩ := hsound
  cases hcontrol with
  | code hi h =>
    cases hfits with
    | code ha => exact stepsWith_code l hs ha hi h hstack
  | host type p =>
    cases hfits with
    | host hp => exact .one rfl rfl (stepHost_aligned l hs hp hstack)
  | answer r =>
    cases hfits with
    | answer hr =>
      cases hstack with
      | nil => cases r <;> exact .done rfl rfl
      | cons hframe hstack =>
        cases hframe with
        | host type depth next =>
          have hframes := frames_mono (hs.withDepth depth).ext hstack
          cases r <;> exact .one rfl rfl (.mk (.host _ _) hframes)
        | code hi h =>
          cases hframes with
          | code hw _ =>
            cases r with
            | error t => exact .one rfl rfl (.mk (.answer _) hstack)
            | ok answer => exact .one rfl rfl (.mk (deliver_tracks l hi h hw hr) hstack)

end

end WasmEngine
