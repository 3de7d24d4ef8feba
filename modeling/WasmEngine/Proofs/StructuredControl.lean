import WasmEngine.Proofs.Lockstep
import WasmEngine.Proofs.StructuredMeaning

/-!
# Structured control on a list of regions

The list of open regions on which a call of compiled code runs implements the meaning of its
statements. A statement goes from the regions it stands in to those where control is after its
ending: behind it, outside the construct that a branch leaves, or at the start of the loop that a
branch restarts. That is shown along the nesting of constructs, each of which opens one more region.
Fuel is counted against steps, so that a call whose meaning is not known with any fuel goes on for
ever, and the other way round.

All the while, the regions of the call are those of the constructs around the statement at which it
stands, and are labelled by their depth.
-/

namespace WasmEngine

open Activation (regionsFrom)

/-! ## Regions of scoped code -/

/-- Open regions of scoped code, with the kinds of their constructs. -/
inductive Nested : List Bool → List Region → Prop
  | nil : Nested [] []
  | cons {ks : List Bool} {r : Region} {rs : List Region} (hlabel : r.label = ks.length)
      (hbody : ∀ stmt ∈ r.body, stmt.Scoped (r.isLoop :: ks))
      (hrest : ∀ stmt ∈ r.rest, stmt.Scoped (r.isLoop :: ks)) (houter : Nested ks rs) :
      Nested (r.isLoop :: ks) (r :: rs)

namespace Nested

variable {ks : List Bool} {r : Region} {rs : List Region} {label : Nat}

theorem length_eq (h : Nested ks rs) : rs.length = ks.length := by
  induction h with
  | nil => rfl
  | cons _ _ _ _ ih => simp [ih]

/-- From the outermost region to the innermost, labels count up from zero. -/
theorem labels_eq (h : Nested ks rs) :
    (rs.map Region.label).reverse = List.range rs.length := by
  induction h with
  | nil => rfl
  | cons hlabel _ _ houter ih =>
    rw [List.map_cons, List.reverse_cons, ih, hlabel, ← houter.length_eq, List.length_cons,
      List.range_succ]

/-- A construct that is entered opens a region, labelled by its depth. -/
theorem enter (h : Nested ks rs) {body : List Stmt} {isLoop : Bool}
    (hbody : ∀ stmt ∈ body, stmt.Scoped (isLoop :: ks)) :
    Nested (isLoop :: ks) (⟨ks.length, body, body, isLoop⟩ :: rs) :=
  .cons (r := ⟨ks.length, body, body, isLoop⟩) rfl hbody hbody h

theorem goOn (h : Nested ks (r :: rs)) {rest : List Stmt} (hrest : ∀ stmt ∈ rest, stmt.Scoped ks) :
    Nested ks ({ r with rest } :: rs) := by
  cases h with
  | cons hlabel hbody _ houter => exact .cons (r := { r with rest }) hlabel hbody hrest houter

theorem restart (h : Nested ks (r :: rs)) : Nested ks ({ r with rest := r.body } :: rs) := by
  cases h with
  | cons hlabel hbody hrest houter => exact (Nested.cons hlabel hbody hrest houter).goOn hbody

theorem outer (h : Nested ks (r :: rs)) : ∃ ks', Nested ks' rs := by
  cases h with
  | cons _ _ _ houter => exact ⟨_, houter⟩

/-- A branch drops regions from the inside, and what is left is nested as before. -/
theorem of_regionsFrom (h : Nested ks rs) {outer : List Region}
    (hr : regionsFrom label rs = some (r, outer)) : ∃ ks', Nested ks' (r :: outer) := by
  induction h with
  | nil => cases hr
  | cons hlabel hbody hrest houter ih =>
    rw [regionsFrom] at hr
    split at hr
    · cases hr
      exact ⟨_, .cons hlabel hbody hrest houter⟩
    · exact ih hr

/-- A branch finds the region of the construct that it leads to. -/
theorem exists_regionsFrom (h : Nested ks rs) {k : Bool} (hk : kindOf label ks = some k) :
    ∃ r outer, regionsFrom label rs = some (r, outer) ∧ r.isLoop = k := by
  induction h with
  | nil => cases hk
  | @cons ks r rs hlabel _ _ _ ih =>
    rw [kindOf] at hk
    rw [regionsFrom, hlabel]
    split at hk
    · rw [if_pos ‹_›]
      exact ⟨r, rs, rfl, Option.some.inj hk⟩
    · rw [if_neg ‹_›]
      exact ih hk

end Nested

/-! ## Steps of a call -/

/-- The call of code above `fs` is over: it has left its last region, or it has trapped. -/
def Over (fs : List (Frame Suspended)) (m : Machine Activation Suspended) : Prop :=
  m.stack = fs ∧ ((∃ a, m.control = .code a ∧ a.regions = []) ∨ ∃ r, m.control = .answer r)

/-- The machine makes `n` steps in the call above `fs` and in the calls that this makes. -/
inductive Runs (fs : List (Frame Suspended)) :
    Nat → Machine Activation Suspended → Machine Activation Suspended → Prop
  | refl (m : Machine Activation Suspended) : Runs fs 0 m m
  | step {n : Nat} {m m' m'' : Machine Activation Suspended} (hover : ¬Over fs m)
      (hnext : Engine.compiled.next m = .next m') (h : Runs fs n m' m'') : Runs fs (n + 1) m m''

namespace Runs

variable {fs : List (Frame Suspended)} {n k : Nat} {m m' m'' : Machine Activation Suspended}

theorem one (hover : ¬Over fs m) (hnext : Engine.compiled.next m = .next m') : Runs fs 1 m m' :=
  .step hover hnext (.refl m')

theorem trans (h : Runs fs n m m') (h' : Runs fs k m' m'') : Runs fs (k + n) m m'' := by
  induction h with
  | refl => exact h'
  | step hover hnext _ ih => exact .step hover hnext (ih h')

theorem tail (h : Runs fs n m m') (hover : ¬Over fs m')
    (hnext : Engine.compiled.next m' = .next m'') : Runs fs (n + 1) m m'' :=
  Nat.add_comm 1 n ▸ h.trans (.one hover hnext)

theorem exists_of_le (h : Runs fs n m m') (hk : k ≤ n) : ∃ m'', Runs fs k m m'' := by
  induction h generalizing k with
  | refl m =>
    obtain rfl := Nat.le_zero.mp hk
    exact ⟨m, .refl m⟩
  | @step n m m₁ m' hover hnext _ ih =>
    cases k with
    | zero => exact ⟨m, .refl m⟩
    | succ k =>
      obtain ⟨m'', h⟩ := ih (Nat.le_of_succ_le_succ hk)
      exact ⟨m'', .step hover hnext h⟩

/-- A call that comes to an end does so from everywhere it gets to. -/
theorem rest (h : Runs fs n m m') (hover : Over fs m') (h' : Runs fs k m m'') :
    ∃ j, n = j + k ∧ Runs fs j m'' m' := by
  induction h' generalizing n with
  | refl => exact ⟨n, rfl, h⟩
  | step hgoes hnext _ ih =>
    cases h with
    | refl => exact (hgoes hover).elim
    | step _ hnext' h =>
      obtain rfl := Progress.next.inj (hnext.symm.trans hnext')
      obtain ⟨j, rfl, hj⟩ := ih h
      exact ⟨j, by omega, hj⟩

/-- A call that is over makes no more steps. -/
theorem le_of_over (h : Runs fs n m m') (hover : Over fs m') (h' : Runs fs k m m'') : k ≤ n := by
  obtain ⟨j, rfl, -⟩ := h.rest hover h'
  omega

/-- Steps are determined, so that a call has one end. -/
theorem eq_of_over (h : Runs fs n m m') (hover : Over fs m') (h' : Runs fs k m m'')
    (hover' : Over fs m'') : m'' = m' := by
  obtain ⟨j, -, hj⟩ := h.rest hover h'
  cases hj with
  | refl => rfl
  | step hgoes => exact (hgoes hover').elim

end Runs

/-! ## Where control goes -/

namespace Structured

/-- Where control stands after a statement or body that stood in the regions `rs` and behind which
control goes on in the regions `after`: the open regions, and what the function has returned. -/
inductive Ending.Lands (after rs : List Region) : Ending → List Region → Option Value → Prop
  | falls : Lands after rs .falls after none
  | leaves {label : Nat} {r : Region} {outer : List Region}
      (h : regionsFrom label rs = some (r, outer)) (hkind : r.isLoop = false) :
      Lands after rs (.leaves label) outer none
  | restarts {label : Nat} {r : Region} {outer : List Region}
      (h : regionsFrom label rs = some (r, outer)) (hkind : r.isLoop = true) :
      Lands after rs (.restarts label) ({ r with rest := r.body } :: outer) none
  | returns (v : Option Value) : Lands after rs (.returns v) [] v

namespace Ending

variable {after after' rs rs' : List Region} {r : Region} {e : Ending} {v : Option Value}

/-- Where a branch leads does not depend on what is left of the region it is made in. -/
theorem Lands.of_rest {rest : List Stmt} (he : e ≠ .falls)
    (h : e.Lands after ({ r with rest } :: rs) rs' v) : e.Lands after' (r :: rs) rs' v := by
  cases h with
  | falls => exact (he rfl).elim
  | returns v => exact .returns v
  | leaves h hkind =>
    rw [regionsFrom] at h
    split at h
    · cases h
      exact .leaves (if_pos ‹_›) hkind
    · exact .leaves ((if_neg ‹_›).trans h) hkind
  | restarts h hkind =>
    rw [regionsFrom] at h
    split at h
    · cases h
      exact .restarts (r := r) (if_pos ‹_›) hkind
    · exact .restarts ((if_neg ‹_›).trans h) hkind

/-- The body of a region ends with a branch that leaves the region or restarts it, or in a way that
does not concern the region. -/
theorem Lands.cases_region (h : e.Lands rs (r :: rs) rs' v) :
    (r.isLoop = false ∧ e = .leaves r.label ∧ rs' = rs ∧ v = none) ∨
      (r.isLoop = true ∧ e = .restarts r.label ∧ rs' = { r with rest := r.body } :: rs ∧ v = none) ∨
      (e ≠ .leaves r.label ∧ e ≠ .restarts r.label ∧ e.Lands rs rs rs' v) := by
  cases h with
  | falls => exact .inr (.inr ⟨by simp, by simp, .falls⟩)
  | returns v => exact .inr (.inr ⟨by simp, by simp, .returns v⟩)
  | leaves h hkind =>
    rw [regionsFrom] at h
    split at h
    · cases h
      exact .inl ⟨hkind, congrArg _ (Eq.symm ‹_›), rfl, rfl⟩
    · rename_i hne
      exact .inr (.inr ⟨fun heq ↦ hne (leaves.inj heq).symm, by simp, .leaves h hkind⟩)
  | restarts h hkind =>
    rw [regionsFrom] at h
    split at h
    · cases h
      exact .inr (.inl ⟨hkind, congrArg _ (Eq.symm ‹_›), rfl, rfl⟩)
    · rename_i hne
      exact .inr (.inr ⟨by simp, fun heq ↦ hne (restarts.inj heq).symm, .restarts h hkind⟩)

end Ending

/-- The machine above `fs` goes from `m` where the outcome of a statement or body says. It makes at
least one step, and at least `fuel` steps if the outcome is not known. -/
def Follows (fs : List (Frame Suspended)) (fuel inst : Nat) (after rs : List Region)
    (m : Machine Activation Suspended) : Outcome → Prop
  | .ends e slots s => ∃ n rs' v, e.Lands after rs rs' v ∧
      Runs fs (n + 1) m ⟨s, .code ⟨inst, slots, rs', v⟩, fs⟩
  | .traps t s => ∃ n, Runs fs (n + 1) m ⟨s, .answer (.error t), fs⟩
  | .unfinished => ∃ n m', fuel ≤ n ∧ Runs fs n m m'

/-- A machine that runs code in the given regions above `fs`. -/
abbrev inside (fs : List (Frame Suspended)) (inst : Nat) (rs : List Region) (slots : Slots)
    (s : Store) : Machine Activation Suspended :=
  ⟨s, .code ⟨inst, slots, rs, none⟩, fs⟩

section

variable {fs : List (Frame Suspended)} {fuel fuel' inst : Nat} {after rs : List Region}
  {r : Region} {m m' : Machine Activation Suspended} {o : Outcome}

theorem Follows.of_runs {n : Nat} (h : Follows fs fuel inst after rs m' o) (hruns : Runs fs n m m')
    (hfuel : fuel' ≤ fuel + n) : Follows fs fuel' inst after rs m o := by
  cases o with
  | ends e slots s =>
    obtain ⟨k, rs', v, hlands, hk⟩ := h
    exact ⟨k + n, rs', v, hlands, by simpa only [Nat.add_right_comm] using hruns.trans hk⟩
  | traps t s =>
    obtain ⟨k, hk⟩ := h
    exact ⟨k + n, by simpa only [Nat.add_right_comm] using hruns.trans hk⟩
  | unfinished =>
    obtain ⟨k, m'', hle, hk⟩ := h
    exact ⟨k + n, m'', by omega, hruns.trans hk⟩

theorem Follows.mono (h : Follows fs fuel inst after rs m o) (hfuel : fuel' ≤ fuel) :
    Follows fs fuel' inst after rs m o :=
  h.of_runs (.refl m) hfuel

/-- A block or conditional whose body goes where it says does so too. -/
theorem Follows.caught (h : Follows fs fuel inst rs (r :: rs) m o) (hkind : r.isLoop = false) :
    Follows fs fuel inst rs rs m (o.caught r.label) := by
  cases o with
  | traps t s => exact h
  | unfinished => exact h
  | ends e slots s =>
    obtain ⟨n, rs', v, hlands, hruns⟩ := h
    obtain ⟨-, rfl, rfl, rfl⟩ | ⟨hloop, -⟩ | ⟨hne, -, hlands⟩ := hlands.cases_region
    · simp only [Outcome.caught, if_pos]
      exact ⟨n, _, _, .falls, hruns⟩
    · exact absurd (hkind.symm.trans hloop) Bool.false_ne_true
    · have hcaught : (Outcome.ends e slots s).caught r.label = .ends e slots s := by
        cases e with
        | leaves l => simp only [Outcome.caught, if_neg fun heq ↦ hne (congrArg _ heq)]
        | _ => rfl
      rw [hcaught]
      exact ⟨n, rs', v, hlands, hruns⟩

/-- A loop whose body goes where it says does so too, however often it is restarted. -/
theorem Follows.iterate {body : Slots → Store → Outcome} (hkind : r.isLoop = true)
    (hfresh : { r with rest := r.body } = r)
    (hbody : ∀ slots s, Follows fs fuel inst rs (r :: rs) (inside fs inst (r :: rs) slots s)
      (body slots s)) {n : Nat} (hn : n ≤ fuel) (slots : Slots) (s : Store) :
    Follows fs n inst rs rs (inside fs inst (r :: rs) slots s)
      (iterate r.label body n slots s) := by
  induction n generalizing slots s with
  | zero => exact ⟨0, _, Nat.le_refl 0, .refl _⟩
  | succ n ih =>
    have hround := hbody slots s
    rw [Structured.iterate]
    cases hout : body slots s with
    | traps t s' =>
      rw [hout] at hround
      exact hround
    | unfinished =>
      rw [hout] at hround
      exact hround.mono hn
    | ends e slots' s' =>
      rw [hout] at hround
      obtain ⟨k, rs', v, hlands, hruns⟩ := hround
      obtain ⟨hblock, -⟩ | ⟨-, rfl, rfl, rfl⟩ | ⟨-, hne, hlands⟩ := hlands.cases_region
      · exact absurd (hblock.symm.trans hkind) Bool.false_ne_true
      · -- The restart takes at least a step, so that rounds can be counted against steps.
        rw [hfresh] at hruns
        simp only [if_pos]
        have hcount : n + 1 ≤ n + (k + 1) := by omega
        exact (ih (Nat.le_of_succ_le hn) slots' s').of_runs hruns hcount
      · have hlast : Follows fs (n + 1) inst rs rs (inside fs inst (r :: rs) slots s)
            (.ends e slots' s') := ⟨k, rs', v, hlands, hruns⟩
        cases e with
        | restarts l =>
          simp only [if_neg fun heq ↦ hne (congrArg _ heq)]
          exact hlast
        | _ => exact hlast

end

end Structured

/-! ## Single statements -/

/-- The region before it runs a statement. -/
def Region.before (r : Region) (stmt : Stmt) : Region := { r with rest := stmt :: r.rest }

/-- The machine goes where the outcome of a statement says, from where it has the statement next in
the region `r`, with the regions `rs` around that. -/
abbrev Structured.FollowsAt (fs : List (Frame Suspended)) (fuel inst : Nat) (r : Region)
    (rs : List Region) (stmt : Stmt) (slots : Slots) (s : Store) (o : Outcome) : Prop :=
  Follows fs fuel inst (r :: rs) (r :: rs) (inside fs inst (r.before stmt :: rs) slots s) o

/-- What a simple statement leads to in a call without regions, and in one with regions. -/
inductive Placed (inst : Nat) (slots : Slots) (rs : List Region) (v : Option Value) :
    Action Activation Suspended → Action Activation Suspended → Prop
  | next (slots' : Slots) :
      Placed inst slots rs v (.next ⟨inst, slots', [], none⟩) (.next ⟨inst, slots', rs, v⟩)
  | call (addr : Nat) (args : List Value) (result : Option Slot) :
      Placed inst slots rs v (.call inst addr args ⟨⟨inst, slots, [], none⟩, result⟩)
        (.call inst addr args ⟨⟨inst, slots, rs, v⟩, result⟩)

/-- A simple statement has nothing to do with the regions it stands in. -/
theorem Activation.exec_placed {stmt : Stmt} (h : stmt.isSimple = true) (inst : Nat) (slots : Slots)
    (rs : List Region) (v : Option Value) (s : Store) :
    Agree (exec ⟨inst, slots, [], none⟩ stmt) (exec ⟨inst, slots, rs, v⟩ stmt) s
      (Placed inst slots rs v) := by
  have hset (slot : Slot) (x : Value) (s : Store) :
      Agree (do return Action.next (← set ⟨inst, slots, [], none⟩ slot x) : Exec _)
        (do return Action.next (← set ⟨inst, slots, rs, v⟩ slot x)) s (Placed inst slots rs v) := by
    unfold Agree
    simp only [set, EStateM.run_bind]
    cases slots.set slot x with
    | ok slots' => exact ⟨rfl, .next slots'⟩
    | error t => exact ⟨rfl, rfl⟩
  cases stmt with
  | block _ _ | loop _ _ | conditional _ _ _ _ => cases h
  | branch _ | branchIf _ _ | branchTable _ _ _ | ret _ => cases h
  | unreachable => exact .throw _
  | call func args result =>
    exact .same fun addr t ↦ .same_ofExcept fun vs ↦ .pure (.call addr vs result)
  | callIndirect type callee args result =>
    exact .same_ofExcept fun index ↦ .same fun addr t ↦ .same_ofExcept fun vs ↦
      .pure (.call addr vs result)
  | copy dst src => exact .same_ofExcept fun v ↦ hset dst v s
  | const dst value => exact hset dst value s
  | globalGet dst global => exact .same fun v t ↦ hset dst v t
  | globalSet global src =>
    exact .same_ofExcept fun v ↦ .same fun _ t ↦ .pure (.next slots)
  | select dst ifFalse cond =>
    refine .same_ofExcept fun c ↦ ?_
    split
    · exact .pure (.next slots)
    · exact .same_ofExcept fun v ↦ hset dst v s
  | unary op dst operand => exact .same_ofExcept fun v ↦ .same_ofExcept fun w ↦ hset dst w s
  | binary op dst lhs rhs =>
    exact .same_ofExcept fun l ↦ .same_ofExcept fun r ↦ .same_ofExcept fun w ↦ hset dst w s
  | load access offset dst addr => exact .same_ofExcept fun base ↦ .same fun w t ↦ hset dst _ t
  | store access offset addr value =>
    exact .same_ofExcept fun base ↦ .same_ofExcept fun w ↦ .same fun _ t ↦ .pure (.next slots)
  | memorySize dst => exact .same fun n t ↦ hset dst _ t
  | memoryGrow dst delta => exact .same_ofExcept fun d ↦ .same fun w t ↦ hset dst _ t

/-- Nor has what code does with the answer it waited for. -/
theorem Suspended.resume_placed (inst : Nat) (slots : Slots) (result : Option Slot)
    (answer : Answer) :
    (∃ t, ∀ rs v, answer.toValue >>= resume ⟨⟨inst, slots, rs, v⟩, result⟩ = .error t) ∨
      ∃ slots', ∀ rs v, answer.toValue >>= resume ⟨⟨inst, slots, rs, v⟩, result⟩ =
        .ok ⟨inst, slots', rs, v⟩ := by
  cases answer.toValue with
  | error t => exact .inl ⟨t, fun _ _ ↦ rfl⟩
  | ok v =>
    cases result with
    | none => exact .inr ⟨slots, fun _ _ ↦ rfl⟩
    | some slot =>
      cases v with
      | none => exact .inl ⟨_, fun _ _ ↦ rfl⟩
      | some v =>
        cases hset : slots.set slot v with
        | error t =>
          refine .inl ⟨t, fun rs w ↦ ?_⟩
          simp only [bind, Except.bind, resume, hset]
        | ok slots' =>
          refine .inr ⟨slots', fun rs w ↦ ?_⟩
          simp only [bind, Except.bind, resume, hset, pure, Except.pure]

namespace Structured

section

variable {fs : List (Frame Suspended)} {fuel inst : Nat} {rs : List Region} {r : Region}
  {slots : Slots} {s s' : Store}

theorem not_over_of_cons : ¬Over fs (inside fs inst (r :: rs) slots s) := by
  rintro ⟨-, ⟨a, ha, hnil⟩ | ⟨r, hr⟩⟩
  · cases ha
    cases hnil
  · cases hr

theorem stack_ne_append_cons (above : List (Frame Suspended)) (frame : Frame Suspended) :
    above ++ frame :: fs ≠ fs := by
  intro h
  have hlength := congrArg List.length h
  simp only [List.length_append, List.length_cons] at hlength
  omega

theorem not_over_above (m : Machine Activation Suspended) (w : Suspended) :
    ¬Over fs (m.above (.code w :: fs)) :=
  fun h ↦ stack_ne_append_cons m.stack (.code w) h.1

/-- The end of a body is left in a step. -/
theorem runs_end : Runs fs 1 (inside fs inst ({ r with rest := [] } :: rs) slots s)
    (inside fs inst rs slots s) :=
  .one not_over_of_cons rfl

section

variable {stmt : Stmt}

theorem runs_next {a : Activation}
    (h : (Activation.exec ⟨inst, slots, r :: rs, none⟩ stmt).run s = .ok (.next a) s') :
    Runs fs 1 (inside fs inst (r.before stmt :: rs) slots s) ⟨s', .code a, fs⟩ :=
  .one not_over_of_cons (Engine.next_of_next (E := Engine.compiled) h)

theorem runs_error {t : Trap}
    (h : (Activation.exec ⟨inst, slots, r :: rs, none⟩ stmt).run s = .error t s') :
    Runs fs 1 (inside fs inst (r.before stmt :: rs) slots s) ⟨s', .answer (.error t), fs⟩ :=
  .one not_over_of_cons (Engine.next_of_error (E := Engine.compiled) h)

end

/-- A call that does not end goes on above the code that waits for it. -/
theorem runs_of_run_eq_none {m : Machine Activation Suspended} (w : Suspended)
    (h : Engine.compiled.run fuel m = none) : ∃ m', Runs fs fuel (m.above (.code w :: fs)) m' := by
  induction fuel generalizing m with
  | zero => exact ⟨_, .refl _⟩
  | succ fuel ih =>
    rw [Engine.run] at h
    cases hnext : Engine.compiled.next m with
    | done r s => simp only [hnext] at h; cases h
    | next m₁ =>
      simp only [hnext] at h
      obtain ⟨m', hruns⟩ := ih h
      exact ⟨m', .step (not_over_above m w) (Engine.next_above hnext) hruns⟩

/-- A callee that comes to an outcome by itself comes to it above its caller, too. -/
theorem runs_of_run_eq_some {m : Machine Activation Suspended} (w : Suspended)
    {x : Except Trap Answer} (h : Engine.compiled.run fuel m = some (x, s)) :
    ∃ n, Runs fs n (m.above (.code w :: fs)) ⟨s, .answer x, .code w :: fs⟩ := by
  induction fuel generalizing m with
  | zero => cases h
  | succ fuel ih =>
    rw [Engine.run] at h
    cases hnext : Engine.compiled.next m with
    | done r s' =>
      simp only [hnext] at h
      cases h
      rw [Engine.done_cases hnext]
      exact ⟨0, .refl _⟩
    | next m₁ =>
      simp only [hnext] at h
      obtain ⟨n, hruns⟩ := ih h
      exact ⟨n + 1, .step (not_over_above m w) (Engine.next_above hnext) hruns⟩

/-- Code that waits goes on where the outcome of the call says. -/
theorem follows_ofCall {result : Option Slot} {m : Machine Activation Suspended} :
    Follows fs fuel inst rs rs (m.above (.code ⟨⟨inst, slots, rs, none⟩, result⟩ :: fs))
      (.ofCall ⟨⟨inst, slots, [], none⟩, result⟩ (Engine.compiled.run fuel m)) := by
  cases hrun : Engine.compiled.run fuel m with
  | none =>
    obtain ⟨m', hruns⟩ := runs_of_run_eq_none _ hrun
    exact ⟨fuel, m', Nat.le_refl fuel, hruns⟩
  | some p =>
    obtain ⟨x, s⟩ := p
    obtain ⟨n, hruns⟩ := runs_of_run_eq_some ⟨⟨inst, slots, rs, none⟩, result⟩ hrun
    have hover : ¬Over fs ⟨s, .answer x, .code ⟨⟨inst, slots, rs, none⟩, result⟩ :: fs⟩ :=
      not_over_above ⟨s, .answer x, []⟩ _
    cases x with
    | error t => exact ⟨n, hruns.tail hover rfl⟩
    | ok answer =>
      obtain ⟨t, ht⟩ | ⟨slots', hslots'⟩ := Suspended.resume_placed inst slots result answer
      · simp only [Outcome.ofCall, Outcome.reading, ht]
        refine ⟨n, hruns.tail hover ?_⟩
        simp only [Engine.next, Engine.deliver, Engine.compiled, ht]
      · simp only [Outcome.ofCall, Outcome.reading, hslots']
        refine ⟨n, rs, none, .falls, hruns.tail hover ?_⟩
        simp only [Engine.next, Engine.deliver, Engine.compiled, hslots']

/-- A statement without a body or a branch does what it does, and control goes on behind it. A call
goes to its callee and comes back. -/
theorem follows_simple {stmt : Stmt} (h : stmt.isSimple = true) :
    FollowsAt fs fuel inst r rs stmt slots s (simple fuel inst stmt slots s) := by
  unfold simple
  obtain ⟨act, act', t, hx, hy, hact⟩ | ⟨t, s', hx, hy⟩ :=
    (Activation.exec_placed h inst slots (r :: rs) none s).cases
  · rw [hx]
    cases hact with
    | next slots' => exact ⟨0, _, _, .falls, runs_next hy⟩
    | call addr args result =>
      have hcall : Engine.compiled.next (inside fs inst (r.before stmt :: rs) slots s) = .next _ :=
        Engine.next_of_call (E := Engine.compiled) hy
      exact follows_ofCall.of_runs (.one not_over_of_cons hcall) (Nat.le_add_right fuel 1)
  · rw [hx]
    exact ⟨0, runs_error hy⟩

/-! ## Branches -/

theorem carry_eq {v : Option Value} (carry : Option (Slot × Slot)) :
    Activation.carry ⟨inst, slots, rs, v⟩ carry =
      (do return ⟨inst, ← ofExcept (moved slots carry), rs, v⟩ : Exec Activation) := by
  cases carry with
  | none => rfl
  | some move =>
    simp only [Activation.carry, Activation.get, Activation.set, moved]
    cases slots.get move.1 <;> rfl

/-- A branch moves the operand that it carries, or fails to, and finds its region. -/
theorem follow_cases (inst : Nat) (slots : Slots) (s : Store) {ks : List Bool} {target : Target}
    (htarget : target.Scoped ks) (hrs : Nested ks rs) (after : List Region) :
    (∃ t, follow slots target = .error t ∧
        (Activation.take ⟨inst, slots, rs, none⟩ target).run s = .error t s) ∨
      ∃ e slots' rs' v, follow slots target = .ok (e, slots') ∧ e.Lands after rs rs' v ∧
        (Activation.take ⟨inst, slots, rs, none⟩ target).run s = .ok ⟨inst, slots', rs', v⟩ s := by
  cases target with
  | leave label carry =>
    obtain ⟨r, outer, hfrom, hkind⟩ := hrs.exists_regionsFrom htarget
    simp only [follow, Activation.take, carry_eq]
    cases moved slots carry with
    | error t => exact .inl ⟨t, rfl, rfl⟩
    | ok slots' =>
      refine .inr ⟨_, slots', outer, none, rfl, .leaves hfrom hkind, ?_⟩
      simp only [ofExcept, pure_bind, hfrom]
      rfl
  | restart label =>
    obtain ⟨r, outer, hfrom, hkind⟩ := hrs.exists_regionsFrom htarget
    refine .inr ⟨_, slots, _, none, rfl, .restarts hfrom hkind, ?_⟩
    simp only [Activation.take, hfrom]
    rfl
  | ret value =>
    cases value with
    | none => exact .inr ⟨_, slots, [], none, rfl, .returns none, rfl⟩
    | some slot =>
      simp only [follow, Activation.take, Activation.ret, Activation.get]
      cases slots.get slot with
      | error t => exact .inl ⟨t, rfl, rfl⟩
      | ok x => exact .inr ⟨_, slots, [], some x, rfl, .returns _, rfl⟩

/-- A statement that has come to a branch goes where the branch leads. -/
theorem follows_branch {ks : List Bool} {target : Target} {stmt : Stmt}
    (htarget : target.Scoped ks) (hrs : Nested ks (r :: rs))
    (hexec : (Activation.exec ⟨inst, slots, r :: rs, none⟩ stmt).run s =
      (do return .next (← Activation.take ⟨inst, slots, r :: rs, none⟩ target) : Exec _).run s) :
    FollowsAt fs fuel inst r rs stmt slots s (branch target slots s) := by
  unfold branch
  obtain ⟨t, hfollow, htake⟩ | ⟨e, slots', rs', v, hfollow, hlands, htake⟩ :=
    follow_cases inst slots s htarget hrs (r :: rs)
  · rw [EStateM.run_bind, htake] at hexec
    rw [hfollow]
    exact ⟨0, runs_error hexec⟩
  · rw [EStateM.run_bind, htake] at hexec
    rw [hfollow]
    exact ⟨0, rs', v, hlands, runs_next hexec⟩

/-- A statement that reads a slot first goes where its outcome says if it then does. -/
theorem follows_reading {α : Type} {stmt : Stmt} {x : Except Trap α} {k : α → Outcome}
    {f : α → Exec (Action Activation Suspended)}
    (hexec : Activation.exec ⟨inst, slots, r :: rs, none⟩ stmt = ofExcept x >>= f)
    (hk : ∀ a, (Activation.exec ⟨inst, slots, r :: rs, none⟩ stmt).run s = (f a).run s →
      FollowsAt fs fuel inst r rs stmt slots s (k a)) :
    FollowsAt fs fuel inst r rs stmt slots s (.reading s x k) := by
  cases x with
  | ok a => exact hk a (congrArg (EStateM.run · s) hexec)
  | error t => exact ⟨0, runs_error (congrArg (EStateM.run · s) hexec)⟩

/-! ## Constructs -/

/-- In whatever regions the statement stands, the machine above `fs` goes where it says. -/
def Implements (fs : List (Frame Suspended)) (fuel inst : Nat) (ks : List Bool) (stmt : Stmt) :
    Prop :=
  ∀ {r : Region} {rs : List Region}, Nested ks (r :: rs) → ∀ slots s,
    FollowsAt fs fuel inst r rs stmt slots s (eval fuel inst stmt slots s)

/-- A body whose statements go where they say does so too, and then leaves its region. -/
theorem follows_body {ks : List Bool} {body : List Stmt} (hbody : ∀ stmt ∈ body, stmt.Scoped ks)
    (hstmts : ∀ stmt ∈ body, Implements fs fuel inst ks stmt) (hrs : Nested ks (r :: rs))
    (slots : Slots) (s : Store) :
    Follows fs fuel inst rs (r :: rs) (inside fs inst ({ r with rest := body } :: rs) slots s)
      (evalBody fuel inst body slots s) := by
  induction body generalizing slots s with
  | nil => exact ⟨0, rs, none, .falls, runs_end⟩
  | cons stmt rest ih =>
    have hrest : ∀ stmt ∈ rest, stmt.Scoped ks := fun stmt h ↦ hbody stmt (List.mem_cons_of_mem _ h)
    have hfirst := hstmts stmt List.mem_cons_self (hrs.goOn hrest) slots s
    rw [evalBody]
    cases hout : eval fuel inst stmt slots s with
    | traps t s' =>
      rw [hout] at hfirst
      exact hfirst
    | unfinished =>
      rw [hout] at hfirst
      exact hfirst
    | ends e slots' s' =>
      rw [hout] at hfirst
      obtain ⟨n, rs', v, hlands, hruns⟩ := hfirst
      cases e with
      | falls =>
        cases hlands
        have hgoes := ih hrest (fun stmt h ↦ hstmts stmt (List.mem_cons_of_mem _ h)) slots' s'
        exact hgoes.of_runs hruns (Nat.le_add_right fuel (n + 1))
      | _ => exact ⟨n, rs', v, hlands.of_rest nofun, hruns⟩

/-- The machine implements every scoped statement. The induction follows the nesting of
constructs: each of them opens one more region, and its body runs in that. -/
theorem implements_of_scoped {ks : List Bool} {stmt : Stmt} (h : stmt.Scoped ks) :
    Implements fs fuel inst ks stmt := by
  induction h with
  | block hbody ih =>
    intro r rs hrs slots s
    have hinner := follows_body hbody ih (hrs.enter hbody) slots s
    exact (hinner.caught rfl).of_runs (runs_next rfl) (Nat.le_add_right fuel 1)
  | loop hbody ih =>
    intro r rs hrs slots s
    have hround := follows_body hbody ih (hrs.enter hbody)
    have hloop := Follows.iterate rfl rfl hround (Nat.le_refl fuel) slots s
    exact hloop.of_runs (runs_next rfl) (Nat.le_add_right fuel 1)
  | conditional hthen helse ihthen ihelse =>
    intro r rs hrs slots s
    refine follows_reading rfl fun c hrun ↦ ?_
    split at hrun
    · have hinner := follows_body hthen ihthen (hrs.enter hthen) slots s
      rw [if_pos ‹_›]
      exact (hinner.caught rfl).of_runs (runs_next hrun) (Nat.le_add_right fuel 1)
    · have hinner := follows_body helse ihelse (hrs.enter helse) slots s
      rw [if_neg ‹_›]
      exact (hinner.caught rfl).of_runs (runs_next hrun) (Nat.le_add_right fuel 1)
  | branch htarget =>
    intro r rs hrs slots s
    exact follows_branch htarget hrs rfl
  | branchIf htarget =>
    intro r rs hrs slots s
    refine follows_reading rfl fun c hrun ↦ ?_
    split at hrun
    · rw [if_pos ‹_›]
      exact follows_branch htarget hrs hrun
    · rw [if_neg ‹_›]
      exact ⟨0, _, none, .falls, runs_next hrun⟩
  | branchTable htargets hdefault =>
    intro r rs hrs slots s
    refine follows_reading rfl fun i hrun ↦ ?_
    exact follows_branch (Target.scoped_getD htargets hdefault i.toNat) hrs hrun
  | @ret ks value =>
    intro r rs hrs slots s
    have htarget : (Target.ret value).Scoped ks := trivial
    exact follows_branch htarget hrs rfl
  | simple hsimple =>
    intro r rs hrs slots s
    rw [eval_of_isSimple hsimple]
    exact follows_simple hsimple

end

end Structured

/-! ## Labels of open regions -/

/-- From the outermost region to the innermost, the labels are 0, 1, 2 and so on. -/
def Activation.Labelled (a : Activation) : Prop :=
  (a.regions.map Region.label).reverse = List.range a.regions.length

/-- What code goes on with, or what waits for a callee, stands in regions of scoped code. -/
def Action.Nests : Action Activation Suspended → Prop
  | .next a => ∃ ks, Nested ks a.regions
  | .call _ _ _ w => ∃ ks, Nested ks w.activation.regions
  | .ret _ => True

namespace Activation

variable {ks : List Bool} {a a' : Activation} {s s' : Store} {stmt : Stmt}
  {act : Action Activation Suspended}

/-- A branch leaves regions that are nested. -/
theorem take_nests {target : Target} (h : Nested ks a.regions)
    (hrun : (a.take target).run s = .ok a' s') : ∃ ks', Nested ks' a'.regions := by
  obtain ⟨inst, slots, rs, v⟩ := a
  cases target with
  | leave label carry =>
    rw [take, Structured.carry_eq] at hrun
    obtain ⟨b, t, hcarry, hrun⟩ := run_bind_eq_ok.mp hrun
    obtain ⟨slots', t', -, hpure⟩ := run_bind_eq_ok.mp hcarry
    cases hpure
    simp only at hrun
    split at hrun
    · rename_i r outer hfrom
      cases hrun
      exact (h.of_regionsFrom hfrom).elim fun _ hr ↦ hr.outer
    · cases hrun
  | restart label =>
    simp only [take] at hrun
    split at hrun
    · rename_i r outer hfrom
      cases hrun
      obtain ⟨ks', hr⟩ := h.of_regionsFrom hfrom
      exact ⟨ks', hr.restart⟩
    · cases hrun
  | ret value =>
    cases value with
    | none =>
      cases hrun
      exact ⟨[], .nil⟩
    | some slot =>
      obtain ⟨x, t, -, hpure⟩ := run_bind_eq_ok.mp hrun
      cases hpure
      exact ⟨[], .nil⟩

/-- So does every statement, one case for each. -/
theorem exec_nests (h : Nested ks a.regions) (hstmt : stmt.Scoped ks)
    (hrun : (a.exec stmt).run s = .ok act s') : act.Nests := by
  have htake (target : Target) {s : Store}
      (hrun : (do return .next (← a.take target) : Exec _).run s = .ok act s') : act.Nests := by
    obtain ⟨a', t, ha', hpure⟩ := run_bind_eq_ok.mp hrun
    cases hpure
    exact take_nests h ha'
  cases hstmt with
  | block hbody =>
    cases hrun
    exact ⟨_, h.enter hbody⟩
  | loop hbody =>
    cases hrun
    exact ⟨_, h.enter hbody⟩
  | conditional hthen helse =>
    obtain ⟨c, t, -, hpure⟩ := run_bind_eq_ok.mp hrun
    split at hpure
    · cases hpure
      exact ⟨_, h.enter hthen⟩
    · cases hpure
      exact ⟨_, h.enter helse⟩
  | branch htarget => exact htake _ hrun
  | branchIf htarget =>
    obtain ⟨c, t, -, hrun⟩ := run_bind_eq_ok.mp hrun
    split at hrun
    · exact htake _ hrun
    · cases hrun
      exact ⟨ks, h⟩
  | branchTable htargets hdefault =>
    obtain ⟨i, t, -, hrun⟩ := run_bind_eq_ok.mp hrun
    exact htake _ hrun
  | ret value => exact htake (.ret value) hrun
  | simple hsimple =>
    obtain ⟨inst, slots, rs, v⟩ := a
    obtain ⟨act₀, act', t, -, hact, hplaced⟩ | ⟨e, t, -, herror⟩ :=
      (exec_placed hsimple inst slots rs v s).cases
    · cases hact.symm.trans hrun
      cases hplaced <;> exact ⟨ks, h⟩
    · cases herror.symm.trans hrun

theorem step_nests (h : Nested ks a.regions) (hrun : a.step.run s = .ok act s') : act.Nests := by
  obtain ⟨inst, slots, rs, v⟩ := a
  cases rs with
  | nil =>
    cases hrun
    exact trivial
  | cons r rs =>
    obtain ⟨label, body, rest, isLoop⟩ := r
    cases rest with
    | nil =>
      cases hrun
      exact h.outer
    | cons stmt rest =>
      cases h with
      | cons hlabel hbody hrest houter =>
        have hgoes := (Nested.cons hlabel hbody hrest houter).goOn
          fun stmt hmem ↦ hrest stmt (List.mem_cons_of_mem _ hmem)
        exact exec_nests hgoes (hrest stmt List.mem_cons_self) hrun

end Activation

namespace Structured

variable {fs : List (Frame Suspended)}

/-- The call above `fs` stands in regions of scoped code, whether it runs, waits for a callee or has
trapped. -/
inductive Standing (fs : List (Frame Suspended)) : Machine Activation Suspended → Prop
  | runs {ks : List Bool} {a : Activation} (s : Store) (h : Nested ks a.regions) :
      Standing fs ⟨s, .code a, fs⟩
  | waits {ks : List Bool} {w : Suspended} (m : Machine Activation Suspended)
      (h : Nested ks w.activation.regions) : Standing fs (m.above (.code w :: fs))
  | answers (s : Store) (x : Except Trap Answer) : Standing fs ⟨s, .answer x, fs⟩

/-- A step keeps the regions of the call nested, while it runs and while it waits. -/
theorem Standing.next {m m' : Machine Activation Suspended} (h : Standing fs m)
    (hover : ¬Over fs m) (hnext : Engine.compiled.next m = .next m') : Standing fs m' := by
  cases h with
  | @runs ks a s h =>
    cases hrun : a.step.run s with
    | error t s' =>
      cases hnext.symm.trans (Engine.next_of_error (E := Engine.compiled) hrun)
      exact .answers s' _
    | ok act s' =>
      have hact := Activation.step_nests h hrun
      cases act with
      | next a' =>
        cases hnext.symm.trans (Engine.next_of_next (E := Engine.compiled) hrun)
        exact hact.elim fun _ h' ↦ .runs s' h'
      | call caller addr args w =>
        cases hnext.symm.trans (Engine.next_of_call (E := Engine.compiled) hrun)
        exact hact.elim fun _ h' ↦ .waits ⟨_, _, []⟩ h'
      | ret v =>
        cases hnext.symm.trans (Engine.next_of_ret (E := Engine.compiled) hrun)
        exact .answers _ _
  | @waits ks w m h =>
    cases hcallee : Engine.compiled.next m with
    | next m₁ =>
      cases hnext.symm.trans (Engine.next_above hcallee)
      exact .waits m₁ h
    | done x s =>
      cases Engine.done_cases hcallee
      cases x with
      | error t =>
        cases hnext
        exact .answers s _
      | ok answer =>
        obtain ⟨⟨inst, slots, rs, v⟩, result⟩ := w
        simp only [Machine.above, List.nil_append, Engine.next, Engine.deliver,
          Engine.compiled] at hnext
        obtain ⟨t, ht⟩ | ⟨slots', hslots'⟩ := Suspended.resume_placed inst slots result answer
        · rw [ht] at hnext
          cases hnext
          exact .answers s _
        · rw [hslots'] at hnext
          cases hnext
          exact .runs s h
  | answers s x => exact (hover ⟨rfl, .inr ⟨x, rfl⟩⟩).elim

/-- So do all steps, by induction on them. -/
theorem Standing.runs_to {n : Nat} {m m' : Machine Activation Suspended} (h : Standing fs m)
    (hruns : Runs fs n m m') : Standing fs m' := by
  induction hruns with
  | refl => exact h
  | step hover hnext _ ih => exact ih (h.next hover hnext)

theorem Standing.labelled {m : Machine Activation Suspended} (h : Standing fs m) :
    (∀ a, m.stack = fs → m.control = .code a → a.Labelled) ∧
      ∀ above w, m.stack = above ++ .code w :: fs → w.activation.Labelled := by
  cases h with
  | runs s h =>
    refine ⟨fun a' _ ha' ↦ ?_, fun above w hstack ↦ (stack_ne_append_cons above _ hstack.symm).elim⟩
    cases ha'
    exact h.labels_eq
  | waits m h =>
    refine ⟨fun a' hstack _ ↦ (stack_ne_append_cons m.stack _ hstack).elim, fun above w hstack ↦ ?_⟩
    cases List.append_inj_right' hstack rfl
    exact h.labels_eq
  | answers s x =>
    exact ⟨fun _ _ ↦ nofun,
      fun above w hstack ↦ (stack_ne_append_cons above _ hstack.symm).elim⟩

/-! ## Bodies of functions -/

/-- The machine above `fs` when the body of a function has come to its outcome. -/
def Outcome.machine? (inst : Nat) (fs : List (Frame Suspended)) :
    Outcome → Option (Machine Activation Suspended)
  | .ends e slots s => some ⟨s, .code ⟨inst, slots, [], e.value⟩, fs⟩
  | .traps t s => some ⟨s, .answer (.error t), fs⟩
  | .unfinished => none

/-- However the body of a function ends, no region is left. -/
theorem Ending.Lands.function {e : Ending} {r : Region} {rs : List Region} {v : Option Value}
    (hkind : r.isLoop = false) (h : e.Lands [] [r] rs v) : rs = [] ∧ v = e.value := by
  obtain ⟨-, rfl, rfl, rfl⟩ | ⟨hloop, -⟩ | ⟨-, -, hout⟩ := h.cases_region
  · exact ⟨rfl, rfl⟩
  · exact absurd (hkind.symm.trans hloop) Bool.false_ne_true
  · cases hout with
    | falls => exact ⟨rfl, rfl⟩
    | leaves hfrom | restarts hfrom => cases hfrom
    | returns v => exact ⟨rfl, rfl⟩

section

variable {body : List Stmt} (hbody : ∀ stmt ∈ body, stmt.Scoped [false]) {fuel inst : Nat}
  {slots : Slots} {s : Store}

include hbody

/-- The body of a function follows its meaning. -/
theorem follows_function (fs : List (Frame Suspended)) (fuel inst : Nat) (slots : Slots)
    (s : Store) :
    Follows fs fuel inst [] [⟨0, body, body, false⟩]
      (inside fs inst [⟨0, body, body, false⟩] slots s) (evalBody fuel inst body slots s) :=
  follows_body hbody (fun stmt hmem ↦ implements_of_scoped (hbody stmt hmem))
    (Nested.nil.enter hbody) slots s

/-- An end that the body means is one that the call comes to. -/
theorem runs_of_machine? {m : Machine Activation Suspended}
    (h : (evalBody fuel inst body slots s).machine? inst fs = some m) :
    ∃ n, Runs fs n (inside fs inst [⟨0, body, body, false⟩] slots s) m ∧ Over fs m := by
  have hgoes := follows_function hbody fs fuel inst slots s
  cases hout : evalBody fuel inst body slots s with
  | ends e slots' s' =>
    rw [hout] at h hgoes
    cases h
    obtain ⟨n, rs, v, hlands, hruns⟩ := hgoes
    obtain ⟨rfl, rfl⟩ := hlands.function rfl
    exact ⟨n + 1, hruns, rfl, .inl ⟨_, rfl, rfl⟩⟩
  | traps t s' =>
    rw [hout] at h hgoes
    cases h
    obtain ⟨n, hruns⟩ := hgoes
    exact ⟨n + 1, hruns, rfl, .inr ⟨_, rfl⟩⟩
  | unfinished =>
    rw [hout] at h
    cases h

/-- If the fuel is not enough, the call makes as many steps as there is fuel. -/
theorem runs_of_unfinished (h : evalBody fuel inst body slots s = .unfinished) :
    ∃ m, Runs fs fuel (inside fs inst [⟨0, body, body, false⟩] slots s) m := by
  have hgoes := follows_function hbody fs fuel inst slots s
  rw [h] at hgoes
  obtain ⟨n, m, hle, hruns⟩ := hgoes
  exact hruns.exists_of_le hle

end

theorem Outcome.machine?_eq_none {o : Outcome} {inst : Nat} :
    o.machine? inst fs = none ↔ o = .unfinished := by
  cases o <;> simp [machine?]

section

variable {body : List Stmt} (hbody : ∀ stmt ∈ body, stmt.Scoped [false]) (inst : Nat)
  (slots : Slots) (s : Store) (fs : List (Frame Suspended))

include hbody

/-- The ends of a call are those that its body means. -/
theorem runs_over_iff (m : Machine Activation Suspended) :
    (∃ n, Runs fs n (inside fs inst [⟨0, body, body, false⟩] slots s) m) ∧ Over fs m ↔
      ∃ fuel, (evalBody fuel inst body slots s).machine? inst fs = some m := by
  constructor
  · rintro ⟨⟨n, hruns⟩, hover⟩
    refine ⟨n + 1, ?_⟩
    cases hout : (evalBody (n + 1) inst body slots s).machine? inst fs with
    | none =>
      obtain ⟨m', hruns'⟩ := runs_of_unfinished hbody (Outcome.machine?_eq_none.mp hout)
      have hle := hruns.le_of_over hover hruns'
      omega
    | some m' =>
      obtain ⟨k, hruns', hover'⟩ := runs_of_machine? hbody hout
      rw [hruns.eq_of_over hover hruns' hover']
  · rintro ⟨fuel, hout⟩
    obtain ⟨n, hruns, hover⟩ := runs_of_machine? hbody hout
    exact ⟨⟨n, hruns⟩, hover⟩

/-- A call goes on for ever if no fuel is enough for its body, and only then. -/
theorem runs_on_iff :
    (∀ n, ∃ m, Runs fs n (inside fs inst [⟨0, body, body, false⟩] slots s) m) ↔
      ∀ fuel, evalBody fuel inst body slots s = .unfinished := by
  refine ⟨fun hgoes fuel ↦ ?_, fun hout n ↦ runs_of_unfinished hbody (hout n)⟩
  cases hout : (evalBody fuel inst body slots s).machine? inst fs with
  | none => exact Outcome.machine?_eq_none.mp hout
  | some m =>
    obtain ⟨n, hruns, hover⟩ := runs_of_machine? hbody hout
    obtain ⟨m', hruns'⟩ := hgoes (n + 1)
    have hle := hruns.le_of_over hover hruns'
    omega

end

/-- The flat list of regions implements structured control. From the start of a function whose body
is scoped, the machine comes to exactly those ends that the meaning of the body has: with the same
slots, store and returned value, or with the same trap. It goes on for ever just if the meaning of
the body is not known with any fuel. All the while the labels of the open regions, of the call as it
runs or as it waits for a callee, count up from zero. -/
theorem regions_implement_body {body : List Stmt} (hbody : ∀ stmt ∈ body, stmt.Scoped [false])
    (inst : Nat) (slots : Slots) (s : Store) (fs : List (Frame Suspended)) :
    (∀ m, (∃ n, Runs fs n (inside fs inst [⟨0, body, body, false⟩] slots s) m) ∧ Over fs m ↔
      ∃ fuel, (evalBody fuel inst body slots s).machine? inst fs = some m) ∧
    ((∀ n, ∃ m, Runs fs n (inside fs inst [⟨0, body, body, false⟩] slots s) m) ↔
      ∀ fuel, evalBody fuel inst body slots s = .unfinished) ∧
    ∀ n m, Runs fs n (inside fs inst [⟨0, body, body, false⟩] slots s) m →
      (∀ a, m.stack = fs → m.control = .code a → a.Labelled) ∧
        ∀ above w, m.stack = above ++ .code w :: fs → w.activation.Labelled := by
  refine ⟨runs_over_iff hbody inst slots s fs, runs_on_iff hbody inst slots s fs,
    fun n m hruns ↦ ?_⟩
  have hstart : Standing fs (inside fs inst [⟨0, body, body, false⟩] slots s) :=
    .runs s (Nested.nil.enter hbody)
  exact (hstart.runs_to hruns).labelled

/-- A loop that goes back from inside a conditional while the first local is not zero, and is then
left by a branch from inside the other arm, past the rest of the block around it. -/
def countdown : List Stmt :=
  [.block 1 [
    .loop 2 [
      .conditional 3 (.local 0)
        [.copy (.local 0) (.local 1), .branch (.restart 2)]
        [.branch (.leave 1 none)]],
    .unreachable]]

theorem countdown_scoped : ∀ stmt ∈ countdown, stmt.Scoped [false] := by
  have hthen : ∀ stmt ∈ [Stmt.copy (.local 0) (.local 1), .branch (.restart 2)],
      stmt.Scoped [false, true, false, false] :=
    List.forall_mem_cons.mpr ⟨.simple rfl, List.forall_mem_singleton.mpr (.branch rfl)⟩
  have helse : ∀ stmt ∈ [Stmt.branch (.leave 1 none)], stmt.Scoped [false, true, false, false] :=
    List.forall_mem_singleton.mpr (.branch rfl)
  have hloop : Stmt.Scoped [false, false] (.loop 2 [.conditional 3 (.local 0) _ _]) :=
    .loop (List.forall_mem_singleton.mpr (.conditional hthen helse))
  exact List.forall_mem_singleton.mpr (.block (List.forall_mem_cons.mpr
    ⟨hloop, List.forall_mem_singleton.mpr (.simple rfl)⟩))

/-- The regions go round the loop once more and then leave it, as the structured reading does. -/
theorem countdown_implemented :
    (∀ stmt ∈ countdown, stmt.Scoped [false]) ∧
    ∃ n, Runs [] n
      (inside [] 0 [⟨0, countdown, countdown, false⟩] ⟨#[.i32 7, .i32 0], default⟩ { id := 0 })
      (inside [] 0 [] ⟨#[.i32 0, .i32 0], default⟩ { id := 0 }) := by
  refine ⟨countdown_scoped, ?_⟩
  have himplements :=
    regions_implement_body countdown_scoped 0 ⟨#[.i32 7, .i32 0], default⟩ { id := 0 } []
  exact ((himplements.1 _).mpr ⟨2, rfl⟩).1

/-- The branches of compiled code lead to constructs around them. So a call of any function of a
decoded module does what the structure of its body means, whatever it is called with. -/
theorem decoded_calls_implement {m : Module} (hm : m.Decoded) {code : Code} (hcode : code ∈ m.code)
    (inst : Nat) (args : List Value) (s : Store) (fs : List (Frame Suspended)) :
    let slots := (Activation.start inst code args).slots
    (∀ m', (∃ n, Runs fs n ⟨s, .code (.start inst code args), fs⟩ m') ∧ Over fs m' ↔
      ∃ fuel, (evalBody fuel inst code.body slots s).machine? inst fs = some m') ∧
    ((∀ n, ∃ m', Runs fs n ⟨s, .code (.start inst code args), fs⟩ m') ↔
      ∀ fuel, evalBody fuel inst code.body slots s = .unfinished) := by
  obtain ⟨k, hk⟩ := List.mem_iff_getElem?.mp hcode
  obtain ⟨_, _, _, is, hfrom⟩ := hm.valid.code k code hk
  have hbody := hfrom.fits.scoped
  exact ⟨runs_over_iff hbody inst _ s fs, runs_on_iff hbody inst _ s fs⟩

end Structured

end WasmEngine
