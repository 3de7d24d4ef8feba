import WasmEngine.Proofs.Drafts
import WasmEngine.Proofs.InstrTyping

/-!
# Instructions and the operands of a draft

The types that a scope keeps stand for operands: those pushed in it and, in code that cannot be
reached, any number of conjured ones below them. `Build.Acts` ties a step of compilation to what it
does to the operands, in both directions. It succeeds only where the operands it leaves come from
operands that it may find, and it does succeed wherever it finds operands that suit. What each
instruction does is then the rule of its type, save that a `select` takes a conjured operand to be
an `i32`.
-/

namespace WasmEngine

def Scope.Admits (s : Scope) (os : List Operand) : Prop :=
  ∃ below, os = s.types.map Operand.pushed ++ below ∧ (∀ o ∈ below, o.conjured = true) ∧
    (s.unreachable = false → below = [])

theorem Scope.SameFrame.labelType_eq {s s' : Scope} (h : s.SameFrame s') :
    s'.labelType = s.labelType := by
  rw [labelType, labelType, h.kind, h.result]

/-- An operand that is conjured up without a type asked of it is an `i32`. -/
def Operand.Defaulted (o : Operand) : Prop := o.conjured = true → o.type = .i32

namespace Draft

def labelTypes (d : Draft) : List (Option ValueType) := d.scopes.map Scope.labelType

/-- The same scopes are open, and only operands and statements of the innermost may differ. -/
structure Framed (d d' : Draft) : Prop where
  scope : d.scope.SameFrame d'.scope
  outer : d'.outer = d.outer

variable {d d' d'' : Draft}

theorem Framed.trans (h : d.Framed d') (h' : d'.Framed d'') : d.Framed d'' :=
  ⟨h.scope.trans h'.scope, h'.outer.trans h.outer⟩

/-- Branches go on to carry the same. -/
theorem Framed.labelTypes_eq (h : d.Framed d') : d'.labelTypes = d.labelTypes := by
  simp only [labelTypes, scopes, List.map_cons, h.scope.labelType_eq, h.outer]

end Draft

/-! ## What is done to operands -/

namespace Operand

/-- Operands of the given types are taken, and then `S` is done to the rest. -/
def Takes (ts : List ValueType) (S : List Operand → List Operand → Prop)
    (os os' : List Operand) : Prop :=
  ∃ taken rest, taken.map Operand.type = ts ∧ os = taken ++ rest ∧ S rest os'

def Leaves (ts : List ValueType) (os os' : List Operand) : Prop := os' = ts.map pushed ++ os

def Conjures (_ os' : List Operand) : Prop := ∀ o ∈ os', o.conjured = true

/-- To take operands in two portions is to take them all. -/
theorem takes_append (ts ts' : List ValueType) (S : List Operand → List Operand → Prop) :
    Takes (ts ++ ts') S = Takes ts (Takes ts' S) := by
  funext os os'
  refine propext ⟨?_, ?_⟩
  · rintro ⟨taken, rest, htypes, rfl, h⟩
    obtain ⟨first, second, rfl, rfl, rfl⟩ := List.map_eq_append_iff.mp htypes
    exact ⟨first, second ++ rest, rfl, List.append_assoc _ _ _, second, rest, rfl, rfl, h⟩
  · rintro ⟨first, _, rfl, rfl, second, rest, rfl, rfl, h⟩
    exact ⟨first ++ second, rest, List.map_append, (List.append_assoc _ _ _).symm, h⟩

theorem takes_cons (t : ValueType) (ts : List ValueType)
    (S : List Operand → List Operand → Prop) : Takes (t :: ts) S = Takes [t] (Takes ts S) :=
  takes_append [t] ts S

theorem takes_nil (S : List Operand → List Operand → Prop) : Takes [] S = S := by
  funext os os'
  refine propext ⟨?_, fun h ↦ ⟨[], os, rfl, rfl, h⟩⟩
  rintro ⟨taken, rest, htypes, rfl, h⟩
  rwa [List.map_eq_nil_iff.mp htypes]

end Operand

open Operand

namespace Build

variable {α β : Type} {ls : List (Option ValueType)} {b : Build α} {f : α → Build β}
  {R S : List Operand → List Operand → Prop} {pos : Nat}

/-- The step does `R` to the operands. -/
structure Acts (ls : List (Option ValueType)) (b : Build α)
    (R : List Operand → List Operand → Prop) : Prop where
  sound {d d' : Draft} {a : α} (hls : d.labelTypes = ls) (h : b.run d = .ok a d') :
    d.Framed d' ∧ ∀ os', d'.scope.Admits os' → ∃ os, d.scope.Admits os ∧ R os os'
  complete {d : Draft} {os os' : List Operand} (hls : d.labelTypes = ls)
    (hos : d.scope.Admits os) (h : R os os') :
    ∃ a d', b.run d = .ok a d' ∧ d.Framed d' ∧ d'.scope.Admits os'

namespace Acts

/-- What a step does to the operands, said in another way. -/
theorem congr (hb : Acts ls b R) (h : ∀ os os', R os os' ↔ S os os') : Acts ls b S := by
  have heq : R = S := funext fun os ↦ funext fun os' ↦ propext (h os os')
  rwa [heq] at hb

/-- What two steps do to the operands, one after the other. -/
theorem bind (hb : Acts ls b R) (hf : ∀ a, Acts ls (f a) S) :
    Acts ls (b >>= f) fun os os'' ↦ ∃ os', R os os' ∧ S os' os'' where
  sound hls h := by
    obtain ⟨a, d₁, hrun, h⟩ := run_bind_eq_ok.mp h
    obtain ⟨hframe, hb⟩ := hb.sound hls hrun
    obtain ⟨hframe', hf⟩ := (hf a).sound (hframe.labelTypes_eq.trans hls) h
    refine ⟨hframe.trans hframe', fun os'' hos'' ↦ ?_⟩
    obtain ⟨os', hos', hS⟩ := hf os'' hos''
    obtain ⟨os, hos, hR⟩ := hb os' hos'
    exact ⟨os, hos, os', hR, hS⟩
  complete hls hos h := by
    obtain ⟨os', hR, hS⟩ := h
    obtain ⟨a, d₁, hrun, hframe, hos'⟩ := hb.complete hls hos hR
    obtain ⟨c, d₂, hrun', hframe', hos''⟩ :=
      (hf a).complete (hframe.labelTypes_eq.trans hls) hos' hS
    exact ⟨c, d₂, run_bind_eq_ok.mpr ⟨a, d₁, hrun, hrun'⟩, hframe.trans hframe', hos''⟩

/-- A step that only takes operands comes before one that does more. -/
theorem takes {ts : List ValueType} (hb : Acts ls b (Takes ts (Leaves [])))
    (hf : ∀ a, Acts ls (f a) S) : Acts ls (b >>= f) (Takes ts S) := by
  refine (hb.bind hf).congr fun os os'' ↦ ⟨?_, ?_⟩
  · rintro ⟨rest, ⟨taken, _, htypes, rfl, rfl⟩, hS⟩
    exact ⟨taken, _, htypes, rfl, hS⟩
  · rintro ⟨taken, rest, htypes, rfl, hS⟩
    exact ⟨rest, ⟨taken, rest, htypes, rfl, rfl⟩, hS⟩

/-- A step that only leaves operands comes before one that touches none. -/
theorem leaves {ts : List ValueType} (hb : Acts ls b (Leaves ts))
    (hf : ∀ a, Acts ls (f a) (Leaves [])) : Acts ls (b >>= f) (Leaves ts) :=
  (hb.bind hf).congr fun _ _ ↦ ⟨fun ⟨_, h, h'⟩ ↦ h'.trans h, fun h ↦ ⟨_, h, rfl⟩⟩

/-- A step that cannot fail. -/
theorem of_run {v : Draft → α} {next : Draft → Draft} (hrun : ∀ d, b.run d = .ok (v d) (next d))
    (hframe : ∀ d : Draft, d.Framed (next d))
    (hsound : ∀ d os', (next d).scope.Admits os' → ∃ os, d.scope.Admits os ∧ R os os')
    (hcomplete : ∀ d os os', d.scope.Admits os → R os os' → (next d).scope.Admits os') :
    Acts ls b R where
  sound {d d' a} _ h := by
    rw [hrun] at h
    cases h
    exact ⟨hframe d, hsound d⟩
  complete {d os os'} _ hos h := ⟨_, _, hrun d, hframe d, hcomplete d os os' hos h⟩

/-- A step that cannot fail and leaves the operands alone. -/
theorem of_idle {v : Draft → α} {next : Draft → Draft} (hrun : ∀ d, b.run d = .ok (v d) (next d))
    (hframe : ∀ d : Draft, d.Framed (next d))
    (hadmits : ∀ d os, (next d).scope.Admits os ↔ d.scope.Admits os) : Acts ls b (Leaves []) := by
  refine .of_run hrun hframe (fun d os' hos' ↦ ⟨os', (hadmits d os').mp hos', rfl⟩) ?_
  rintro d os os' hos hleft
  obtain rfl : os' = os := hleft
  exact (hadmits d os').mpr hos

/-- A step that fails does something that cannot be done. -/
theorem fail_bind (fault : Fault) (hR : ∀ os os', ¬R os os') :
    Acts ls (fail pos fault >>= f) R where
  sound _ h := by
    obtain ⟨_, _, hfail, -⟩ := run_bind_eq_ok.mp h
    exact (run_fail_eq_ok.mp hfail).elim
  complete _ _ h := (hR _ _ h).elim

theorem ite {c : Prop} [Decidable c] {b b' : Build α} (hb : c → Acts ls b R)
    (hb' : ¬c → Acts ls b' R) : Acts ls (if c then b else b') R := by
  split
  · rename_i h
    exact hb h
  · rename_i h
    exact hb' h

end Acts

/-! ## Primitives -/

/-- A push leaves one operand of its type. -/
theorem push_acts (t : ValueType) : Acts ls (push t) (Leaves [t]) := by
  refine .of_run (fun _ ↦ rfl) (fun d ↦ ⟨⟨rfl, rfl, rfl, rfl⟩, rfl⟩) ?_ ?_
  · rintro d _ ⟨below, rfl, hbelow, hlive⟩
    exact ⟨d.scope.types.map pushed ++ below, ⟨below, rfl, hbelow, hlive⟩, rfl⟩
  · rintro d _ _ ⟨below, rfl, hbelow, hlive⟩ rfl
    exact ⟨below, rfl, hbelow, hlive⟩

theorem emit_acts (stmt : Stmt) : Acts ls (emit stmt) (Leaves []) :=
  .of_idle (fun _ ↦ rfl) (fun _ ↦ ⟨⟨rfl, rfl, rfl, rfl⟩, rfl⟩) fun _ _ ↦ Iff.rfl

theorem pure_acts (a : α) : Acts ls (pure a : Build α) (Leaves []) :=
  .of_idle (fun _ ↦ rfl) (fun _ ↦ ⟨⟨rfl, rfl, rfl, rfl⟩, rfl⟩) fun _ _ ↦ Iff.rfl

/-- Behind a branch, any operands can be made up. -/
theorem cut_acts : Acts ls cut Conjures := by
  refine .of_run (fun _ ↦ rfl) (fun d ↦ ⟨⟨rfl, rfl, rfl, rfl⟩, rfl⟩) ?_ ?_
  · rintro d _ ⟨below, rfl, hbelow, -⟩
    refine ⟨d.scope.types.map pushed, ⟨[], (List.append_nil _).symm, ?_, fun _ ↦ rfl⟩, hbelow⟩
    exact List.forall_mem_nil _
  · rintro d _ os' - hos'
    exact ⟨os', rfl, hos', fun hlive ↦ by cases hlive⟩

/-- An operand that is there and of the expected type is popped. -/
theorem run_pop_of_cons {d : Draft} {expected : Option ValueType} {t : ValueType}
    {types : List ValueType} (htypes : d.scope.types = t :: types)
    (hexpected : ∀ e ∈ expected, e = t) : (pop pos expected).run d =
      .ok (t, (d.scope.popped t).nextSlot t) { d with scope := d.scope.popped t } := by
  have hpopped : d.scope.popped t = { d.scope with types, live := d.scope.live.decr t } := by
    rw [Scope.popped, htypes, List.tail_cons]
  rw [hpopped]
  cases expected with
  | none => simp only [pop, EStateM.run_bind, EStateM.run_get, htypes]; rfl
  | some e =>
    obtain rfl := hexpected e rfl
    simp only [pop, EStateM.run_bind, EStateM.run_get, htypes, ne_eq, not_true, if_false]
    rfl

/-- In dead code an operand is made up: of the expected type, or an `i32` if none is expected. -/
theorem run_pop_of_nil {d : Draft} {expected : Option ValueType} (htypes : d.scope.types = [])
    (hdead : d.scope.unreachable = true) : (pop pos expected).run d =
      .ok (expected.getD .i32, d.scope.nextSlot (expected.getD .i32))
        { d with maxStack := d.maxStack.raise (d.scope.height.incr (expected.getD .i32)) } := by
  simp only [pop, EStateM.run_bind, EStateM.run_get, htypes, hdead, if_true]
  rfl

/-- Whatever operands are possible after a pop, one more of the popped type is possible before it.
-/
theorem pop_sound {d d' : Draft} {expected : Option ValueType} {t : ValueType} {slot : Slot}
    (h : (pop pos expected).run d = .ok (t, slot) d') : d.Framed d' ∧ (∀ e ∈ expected, e = t) ∧
      ∀ os', d'.scope.Admits os' → ∃ o, d.scope.Admits (o :: os') ∧ o.type = t ∧
        (expected = none → o.Defaulted) := by
  obtain ⟨types, htypes, hexpected, -, rfl⟩ | ⟨htypes, hdead, rfl, -, rfl⟩ := pop_eq_ok h
  · refine ⟨⟨⟨rfl, rfl, rfl, rfl⟩, rfl⟩, hexpected, ?_⟩
    rintro _ ⟨below, rfl, hbelow, hlive⟩
    refine ⟨pushed t, ⟨below, ?_, hbelow, hlive⟩, rfl, fun _ h ↦ by cases h⟩
    simp only [Scope.popped, htypes, List.tail_cons, List.map_cons, List.cons_append]
  · refine ⟨⟨⟨rfl, rfl, rfl, rfl⟩, rfl⟩, ?_, ?_⟩
    · rintro e rfl
      rfl
    · rintro _ ⟨below, rfl, hbelow, -⟩
      refine ⟨⟨expected.getD .i32, true⟩, ⟨_, by rw [htypes]; rfl, ?_, ?_⟩, rfl, ?_⟩
      · exact List.forall_mem_cons.mpr ⟨rfl, hbelow⟩
      · rw [hdead]
        intro hlive
        cases hlive
      · rintro rfl -
        rfl

/-- If an operand of the expected type is possible, the pop succeeds, and leaves the others
possible. -/
theorem pop_complete {d : Draft} {expected : Option ValueType} {o : Operand}
    {os : List Operand} (hos : d.scope.Admits (o :: os)) (hexpected : ∀ e ∈ expected, e = o.type) :
    ∃ t slot d', (pop pos expected).run d = .ok (t, slot) d' ∧ d.Framed d' ∧
      d'.scope.Admits os ∧ ((expected = none → o.Defaulted) → t = o.type) := by
  obtain ⟨below, heq, hbelow, hlive⟩ := hos
  cases htypes : d.scope.types with
  | nil =>
    rw [htypes] at heq
    obtain rfl : o :: os = below := heq
    obtain ⟨ho, hrest⟩ := List.forall_mem_cons.mp hbelow
    have hdead : d.scope.unreachable = true := by
      by_contra hlive'
      cases hlive (by simpa using hlive')
    refine ⟨_, _, _, run_pop_of_nil htypes hdead, ⟨⟨rfl, rfl, rfl, rfl⟩, rfl⟩, ?_, ?_⟩
    · refine ⟨os, by rw [htypes]; rfl, hrest, ?_⟩
      rw [hdead]
      intro hlive
      cases hlive
    · intro hdefault
      cases expected with
      | none => exact (hdefault rfl ho).symm
      | some e => exact hexpected e rfl
  | cons t types =>
    rw [htypes] at heq
    injection heq with ho hos
    subst ho hos
    refine ⟨_, _, _, run_pop_of_cons htypes hexpected, ⟨⟨rfl, rfl, rfl, rfl⟩, rfl⟩, ?_,
      fun _ ↦ rfl⟩
    exact ⟨below, by rw [Scope.popped, htypes]; rfl, hbelow, hlive⟩

/-- A step that pops an operand and goes on with its type. -/
theorem pop_bind_acts (expected : Option ValueType) {f : ValueType × Slot → Build β}
    {S : ValueType → List Operand → List Operand → Prop}
    (hf : ∀ t slot, (∀ e ∈ expected, e = t) → Acts ls (f (t, slot)) (S t)) :
    Acts ls (pop pos expected >>= f) fun os os'' ↦ ∃ o os', os = o :: os' ∧
      (∀ e ∈ expected, e = o.type) ∧ (expected = none → o.Defaulted) ∧ S o.type os' os'' where
  sound {d d'' a} hls h := by
    obtain ⟨⟨t, slot⟩, d', hpop, h⟩ := run_bind_eq_ok.mp h
    obtain ⟨hframe, hexpected, hpop⟩ := pop_sound hpop
    obtain ⟨hframe', h⟩ := (hf t slot hexpected).sound (hframe.labelTypes_eq.trans hls) h
    refine ⟨hframe.trans hframe', fun os'' hos'' ↦ ?_⟩
    obtain ⟨os', hos', hS⟩ := h os'' hos''
    obtain ⟨o, hos, rfl, hdefault⟩ := hpop os' hos'
    exact ⟨o :: os', hos, o, os', rfl, hexpected, hdefault, hS⟩
  complete {d os os''} hls hos h := by
    obtain ⟨o, os', rfl, hexpected, hdefault, hS⟩ := h
    obtain ⟨t, slot, d', hpop, hframe, hos', ht⟩ := pop_complete hos hexpected
    obtain rfl := ht hdefault
    obtain ⟨a, d'', hrun, hframe', hos''⟩ :=
      (hf _ slot hexpected).complete (hframe.labelTypes_eq.trans hls) hos' hS
    exact ⟨a, d'', run_bind_eq_ok.mpr ⟨_, d', hpop, hrun⟩, hframe.trans hframe', hos''⟩

theorem pop_any_acts : Acts ls (pop pos none) fun os os' ↦ ∃ t, Takes [t] (Leaves []) os os' where
  sound {d d' a} _ h := by
    obtain ⟨hframe, -, hpop⟩ := pop_sound h
    refine ⟨hframe, fun os' hos' ↦ ?_⟩
    obtain ⟨o, hos, -, -⟩ := hpop os' hos'
    exact ⟨o :: os', hos, o.type, [o], os', rfl, rfl, rfl⟩
  complete {d os os'} _ hos h := by
    obtain ⟨t, taken, rest, htypes, rfl, rfl⟩ := h
    obtain ⟨o, rfl, -⟩ := List.map_eq_singleton_iff.mp htypes
    have hexpected : ∀ e ∈ (none : Option ValueType), e = o.type := by simp
    obtain ⟨t, slot, d', hpop, hframe, hos', -⟩ := pop_complete hos hexpected
    exact ⟨(t, slot), d', hpop, hframe, hos'⟩

/-- A pop of a known type takes one operand of this type. -/
theorem popType_acts (t : ValueType) : Acts ls (popType pos t) (Takes [t] (Leaves [])) := by
  refine .congr (pop_bind_acts (some t) fun _ slot _ ↦ pure_acts slot) fun os os' ↦ ⟨?_, ?_⟩
  · rintro ⟨o, rest, rfl, ht, -, hrest⟩
    exact ⟨[o], rest, by rw [ht t rfl]; rfl, rfl, hrest⟩
  · rintro ⟨taken, rest, htypes, rfl, hrest⟩
    obtain ⟨o, rfl, rfl⟩ := List.map_eq_singleton_iff.mp htypes
    exact ⟨o, rest, rfl, by simp, by simp, hrest⟩

theorem pop?_acts (r : Option ValueType) : Acts ls (pop? pos r) (Takes r.toList (Leaves [])) := by
  cases r with
  | none =>
    rw [Option.toList_none, takes_nil]
    exact pure_acts none
  | some t => exact .takes (popType_acts t) fun slot ↦ pure_acts (some slot)

theorem push?_acts (r : Option ValueType) : Acts ls (push? r) (Leaves r.toList) := by
  cases r with
  | none => exact pure_acts none
  | some t => exact .leaves (push_acts t) fun slot ↦ pure_acts (some slot)

/-- Arguments are taken from the last to the first, by induction on their types. -/
theorem popArgs_acts (ts : List ValueType) :
    Acts ls (popArgs pos ts) (Takes ts.reverse (Leaves [])) := by
  induction ts with
  | nil =>
    rw [List.reverse_nil, takes_nil]
    exact pure_acts []
  | cons t ts ih =>
    rw [List.reverse_cons, takes_append]
    exact ih.takes fun slots ↦ (popType_acts t).takes fun slot ↦ pure_acts (slot :: slots)

/-! ## Inspections -/

/-- The step looks something up that satisfies `V`, and refuses only if there is no such thing. -/
structure Inspects (ls : List (Option ValueType)) (b : Build α) (V : α → Prop) : Prop where
  sound {d d' : Draft} {a : α} (hls : d.labelTypes = ls) (h : b.run d = .ok a d') : V a ∧ d = d'
  complete {d : Draft} {a : α} (hls : d.labelTypes = ls) (ha : V a) : ∃ a', b.run d = .ok a' d

/-- A step that depends on a check does what it does for each outcome of the check that is possible.
-/
theorem Acts.inspect {V : α → Prop} (hb : Inspects ls b V) (hf : ∀ a, V a → Acts ls (f a) R)
    (hR : ∀ os os', R os os' → ∃ a, V a) : Acts ls (b >>= f) R where
  sound {d d' a} hls h := by
    obtain ⟨v, _, hrun, h⟩ := run_bind_eq_ok.mp h
    obtain ⟨hv, rfl⟩ := hb.sound hls hrun
    exact (hf v hv).sound hls h
  complete {d os os'} hls hos h := by
    obtain ⟨v, hv⟩ := hR os os' h
    obtain ⟨v', hrun⟩ := hb.complete hls hv
    obtain ⟨a, d', hrun', hframe, hos'⟩ :=
      (hf v' (hb.sound hls hrun).1).complete hls hos h
    exact ⟨a, d', run_bind_eq_ok.mpr ⟨v', d, hrun, hrun'⟩, hframe, hos'⟩

variable (ctx : Context)

theorem funcType_inspects (func : Nat) :
    Inspects ls (funcType ctx pos func) (ctx.module.funcType? func = some ·) where
  sound _ := funcType_eq_ok
  complete _ h := ⟨_, by rw [funcType, h]; rfl⟩

theorem typeAt_inspects (t : Nat) :
    Inspects ls (typeAt ctx pos t) (ctx.module.types[t]? = some ·) where
  sound _ := typeAt_eq_ok
  complete _ h := ⟨_, by rw [typeAt, h]; rfl⟩

theorem localType_inspects (index : Nat) :
    Inspects ls (localType ctx pos index) (ctx.locals[index]? = some ·) where
  sound _ := localType_eq_ok
  complete _ h := ⟨_, by rw [localType, h]; rfl⟩

theorem globalType_inspects (index : Nat) :
    Inspects ls (globalType ctx pos index) (ctx.module.globalType? index = some ·) where
  sound _ := globalType_eq_ok
  complete _ h := ⟨_, by rw [globalType, h]; rfl⟩

theorem requireTable_inspects :
    Inspects ls (requireTable ctx pos) fun _ ↦ ctx.module.spaceSize .table ≠ 0 where
  sound _ := requireTable_eq_ok
  complete _ h := ⟨(), by rw [requireTable, if_neg h]; rfl⟩

theorem requireMemory_inspects :
    Inspects ls (requireMemory ctx pos) fun _ ↦ ctx.module.spaceSize .memory ≠ 0 where
  sound _ := requireMemory_eq_ok
  complete _ h := ⟨(), by rw [requireMemory, if_neg h]; rfl⟩

/-- Exponents that are too large to shift by are too large for any width as well. -/
theorem aligned_iff (access : Access) (align : Nat) :
    ¬(align ≥ 32 ∨ 1 <<< align > access.width) ↔ 1 <<< align ≤ access.width := by
  refine ⟨fun h ↦ Nat.le_of_not_lt fun hlt ↦ h (.inr hlt), ?_⟩
  rintro hle (halign | hlt)
  · have hwidth : access.width ≤ 4 := by cases access <;> decide
    have hshift : 1 <<< 32 ≤ 1 <<< align := by
      rw [Nat.one_shiftLeft, Nat.one_shiftLeft]
      exact Nat.pow_le_pow_right (by decide) halign
    have hfalse : 1 <<< 32 ≤ 4 := Nat.le_trans hshift (Nat.le_trans hle hwidth)
    exact absurd hfalse (by decide)
  · exact absurd hlt (Nat.not_lt_of_le hle)

/-- An access is accepted if there is a memory and the alignment is natural, and only then. -/
theorem checkAccess_inspects (access : Access) (arg : MemArg) :
    Inspects ls (checkAccess ctx pos access arg) fun _ ↦
      ctx.module.spaceSize .memory ≠ 0 ∧ 1 <<< arg.align ≤ access.width where
  sound _ h := by
    simp only [checkAccess, run_bind_eq_ok, run_ite] at h
    obtain ⟨_, _, hrequire, h⟩ := h
    obtain ⟨hmemory, rfl⟩ := requireMemory_eq_ok hrequire
    split at h
    · exact (run_fail_eq_ok.mp h).elim
    · rename_i halign
      exact ⟨⟨hmemory, (aligned_iff access arg.align).mp halign⟩, (run_pure_eq_ok.mp h).2⟩
  complete {d a} hls h := by
    obtain ⟨_, hrun⟩ := (requireMemory_inspects ctx).complete hls (a := ()) h.1
    refine ⟨(), run_bind_eq_ok.mpr ⟨_, d, hrun, ?_⟩⟩
    rw [if_neg ((aligned_iff access arg.align).mpr h.2)]
    rfl

/-- The labels that branches see are those of the scopes. -/
theorem getElem?_labelTypes {d : Draft} {depth : Nat} {label : Option ValueType} :
    d.labelTypes[depth]? = some label ↔ ∃ s, d.scopes[depth]? = some s ∧ s.labelType = label := by
  rw [Draft.labelTypes, List.getElem?_map, Option.map_eq_some_iff]

theorem run_scopeAt {d : Draft} {depth : Nat} {s : Scope} (h : d.scopes[depth]? = some s) :
    (scopeAt pos depth).run d = .ok s d := by
  simp only [scopeAt, EStateM.run_bind, EStateM.run_get, h]
  rfl

/-- A branch depth is accepted just if there is a label, and what the scope carries is the label. -/
theorem scopeAt_inspects (depth : Nat) :
    Inspects ls (scopeAt pos depth) fun s ↦ ls[depth]? = some s.labelType where
  sound {d d' s} hls h := by
    obtain ⟨hs, rfl⟩ := scopeAt_eq_ok h
    subst hls
    exact ⟨getElem?_labelTypes.mpr ⟨s, hs, rfl⟩, rfl⟩
  complete {d s} hls h := by
    subst hls
    obtain ⟨s', hs', -⟩ := getElem?_labelTypes.mp h
    exact ⟨s', run_scopeAt hs'⟩

/-- A branch table is accepted just if all its labels carry the same. -/
theorem tableScopes_inspects (label : Option ValueType) (depths : List Nat) :
    Inspects ls (tableScopes pos label depths) fun _ ↦
      ∀ depth ∈ depths, ls[depth]? = some label where
  sound {d d' ss} hls h := by
    subst hls
    obtain ⟨hscopes, rfl⟩ := tableScopes_eq_ok h
    refine ⟨fun depth hdepth ↦ getElem?_labelTypes.mpr ?_, rfl⟩
    obtain ⟨s, -, hs⟩ := forall₂_exists_left hscopes.flip hdepth
    exact ⟨s, hs⟩
  complete {d ss} hls h := by
    subst hls
    clear ss
    induction depths with
    | nil => exact ⟨[], rfl⟩
    | cons depth depths ih =>
      obtain ⟨hfirst, hrest⟩ := List.forall_mem_cons.mp h
      obtain ⟨s, hs, hlabel⟩ := getElem?_labelTypes.mp hfirst
      obtain ⟨ss, hss⟩ := ih hrest
      refine ⟨s :: ss, run_bind_eq_ok.mpr ⟨s, d, run_scopeAt hs, ?_⟩⟩
      rw [if_neg (not_not.mpr hlabel)]
      exact run_bind_eq_ok.mpr ⟨ss, d, hss, rfl⟩

/-! ## Instructions -/

variable {ctx} {i : Instr} {ts ts' : List ValueType} {Choice : Operand → Prop}

/-- A step that takes and leaves what the typing rule of its instruction says acts as the
instruction should. -/
theorem Acts.of_hasType (hb : Acts ls b (Takes ts (Leaves ts'))) (h : i.HasType ctx ls ts ts')
    (hdrop : i ≠ .drop) (hselect : i ≠ .select) : Acts ls b (i.Flow ctx Choice ls) := by
  refine hb.congr fun os os' ↦ ⟨?_, ?_⟩
  · rintro ⟨taken, rest, htypes, rfl, rfl⟩
    refine .plain h htypes ?_ rest
    cases i <;> trivial
  · rintro (⟨h', htypes, -, rest⟩ | ⟨h', -, -, -⟩)
    · obtain ⟨rfl, rfl⟩ := h.unique h' hdrop hselect
      exact ⟨_, rest, htypes, rfl, rfl⟩
    · exact absurd h' h.not_diverts

/-- So does a step that takes what an instruction takes behind which code is dead. -/
theorem Acts.of_diverts (hb : Acts ls b (Takes ts Conjures)) (h : i.Diverts ctx ls ts) :
    Acts ls b (i.Flow ctx Choice ls) := by
  refine hb.congr fun os os' ↦ ⟨?_, ?_⟩
  · rintro ⟨taken, rest, htypes, rfl, hconjured⟩
    exact .diverts h htypes hconjured rest
  · rintro (⟨h', -, -, -⟩ | ⟨h', htypes, hconjured, rest⟩)
    · exact absurd h h'.not_diverts
    · obtain rfl := h.unique h'
      exact ⟨_, rest, htypes, rfl, hconjured⟩

theorem emit_cut_acts (stmt : Stmt) : Acts ls (do emit stmt; cut) Conjures :=
  ((emit_acts stmt).bind fun _ ↦ cut_acts).congr fun _ _ ↦
    ⟨fun ⟨_, _, h⟩ ↦ h, fun h ↦ ⟨_, rfl, h⟩⟩

/-- What an instruction does to operands is by one of its typing rules. -/
theorem flow_typed {os os' : List Operand} (h : i.Flow ctx Choice ls os os') :
    (∃ ts ts', i.HasType ctx ls ts ts') ∨ ∃ ts, i.Diverts ctx ls ts := by
  cases h with
  | plain h => exact .inl ⟨_, _, h⟩
  | diverts h => exact .inr ⟨_, h⟩

theorem exists_labelType (r : Option ValueType) : ∃ s : Scope, s.labelType = r :=
  ⟨{ kind := .block, result := r, label := 0, base := Lanes.zero, offset := 0 }, rfl⟩

/-- An operand of any type is dropped. Its type is not known beforehand, and in dead code it is
chosen. -/
theorem drop_acts : Acts ls (step ctx pos .drop) (Instr.Flow ctx Choice ls .drop) := by
  refine .congr (pop_any_acts.bind fun _ ↦ pure_acts ()) fun os os' ↦ ⟨?_, ?_⟩
  · rintro ⟨_, ⟨t, taken, rest, htypes, rfl, rfl⟩, rfl⟩
    exact .plain (.drop t) htypes trivial _
  · rintro (⟨h, htypes, -, rest⟩ | ⟨⟨⟩, -, -, -⟩)
    cases h with
    | drop t => exact ⟨rest, ⟨t, _, rest, htypes, rfl, rfl⟩, rfl⟩

/-- The second operand decides the type of a `select`. -/
theorem select_acts :
    Acts ls (step ctx pos .select) (Instr.Flow ctx Operand.Defaulted ls .select) := by
  refine .congr (.takes (popType_acts .i32) fun _ ↦ pop_bind_acts none fun t _ _ ↦
    (popType_acts t).takes fun _ ↦ (push_acts t).leaves fun _ ↦ emit_acts _) fun os os' ↦ ⟨?_, ?_⟩
  · rintro ⟨first, _, hfirst, rfl, o, _, rfl, -, hdefault, second, rest, hsecond, rfl, rfl⟩
    obtain ⟨cond, rfl, hcond⟩ := List.map_eq_singleton_iff.mp hfirst
    obtain ⟨dst, rfl, hdst⟩ := List.map_eq_singleton_iff.mp hsecond
    have htypes : [cond, o, dst].map Operand.type = [.i32, o.type, o.type] := by
      rw [List.map_cons, List.map_cons, List.map_cons, List.map_nil, hcond, hdst]
    have hchoice : Instr.Chooses Operand.Defaulted .select [cond, o, dst] := hdefault rfl
    exact .plain (.select o.type) htypes hchoice rest
  · rintro (⟨h, htypes, hchoice, rest⟩ | ⟨⟨⟩, -, -, -⟩)
    cases h with
    | select t =>
      obtain ⟨cond, _, rfl, hcond, htypes⟩ := List.map_eq_cons_iff.mp htypes
      obtain ⟨o, _, rfl, rfl, htypes⟩ := List.map_eq_cons_iff.mp htypes
      obtain ⟨dst, rfl, hdst⟩ := List.map_eq_singleton_iff.mp htypes
      exact ⟨[cond], o :: dst :: rest, congrArg (· :: []) hcond, rfl, o, dst :: rest, rfl,
        by simp, fun _ ↦ hchoice, [dst], rest, congrArg (· :: []) hdst, rfl, rfl⟩

/-- A global that is not mutable is refused before its operand is looked at. -/
theorem globalSet_acts (index : Nat) :
    Acts ls (step ctx pos (.globalSet index)) (Instr.Flow ctx Choice ls (.globalSet index)) := by
  refine .inspect (globalType_inspects ctx index) (fun g hg ↦ ?_) fun _ _ h ↦ ?_
  · refine .ite (fun hconst ↦ ?_) fun hmutable ↦ ?_
    · refine .fail_bind _ fun _ _ h ↦ ?_
      obtain ⟨_, _, h⟩ | ⟨_, h⟩ := flow_typed h <;> cases h
      rename_i g' hmutable hg'
      obtain rfl := Option.some.inj (hg.symm.trans hg')
      rw [hmutable] at hconst
      cases hconst
    · exact .of_hasType ((popType_acts g.type).takes fun _ ↦ emit_acts _)
        (.globalSet hg (by simpa using hmutable)) (by simp) (by simp)
  · obtain ⟨_, _, h⟩ | ⟨_, h⟩ := flow_typed h <;> cases h
    exact ⟨_, ‹_›⟩

/-- An instruction that is not part of a construct compiles just if operands flow through it, and it
does the same to them. -/
theorem step_acts (hi : i.isStructural = false) :
    Acts ls (step ctx pos i) (i.Flow ctx Operand.Defaulted ls) := by
  cases i with
  | block _ | loop _ | conditional _ | otherwise | close => cases hi
  | unreachable =>
    refine .of_diverts ?_ .unreachable
    rw [takes_nil]
    exact emit_cut_acts _
  | nop =>
    refine .of_hasType ?_ .nop (by simp) (by simp)
    rw [takes_nil]
    exact pure_acts ()
  | br depth =>
    refine .inspect (scopeAt_inspects depth) (fun s hs ↦ ?_) fun _ _ h ↦ ?_
    · exact .of_diverts ((pop?_acts _).takes fun _ ↦ emit_cut_acts _) (.br hs)
    · obtain ⟨_, _, h⟩ | ⟨_, h⟩ := flow_typed h <;> cases h
      rename_i r hr
      obtain ⟨s, rfl⟩ := exists_labelType r
      exact ⟨s, hr⟩
  | brIf depth =>
    refine .inspect (scopeAt_inspects depth) (fun s hs ↦ ?_) fun _ _ h ↦ ?_
    · refine .of_hasType ?_ (.brIf hs) (by simp) (by simp)
      rw [takes_cons]
      exact (popType_acts _).takes fun _ ↦ (pop?_acts _).takes fun _ ↦
        (push?_acts _).leaves fun _ ↦ emit_acts _
    · obtain ⟨_, _, h⟩ | ⟨_, h⟩ := flow_typed h <;> cases h
      rename_i r hr
      obtain ⟨s, rfl⟩ := exists_labelType r
      exact ⟨s, hr⟩
  | brTable depths default =>
    refine .inspect (scopeAt_inspects default) (fun s hs ↦ ?_) fun _ _ h ↦ ?_
    · refine .inspect (tableScopes_inspects _ depths) (fun ss hss ↦ ?_) fun _ _ h ↦ ?_
      · refine .of_diverts ?_ (.brTable hs hss)
        rw [takes_cons]
        exact (popType_acts _).takes fun _ ↦ (pop?_acts _).takes fun _ ↦ emit_cut_acts _
      · obtain ⟨_, _, h⟩ | ⟨_, h⟩ := flow_typed h <;> cases h
        rename_i r hrs hr
        obtain rfl := Option.some.inj (hr.symm.trans hs)
        exact ⟨[], hrs⟩
    · obtain ⟨_, _, h⟩ | ⟨_, h⟩ := flow_typed h <;> cases h
      rename_i r hrs hr
      obtain ⟨s, rfl⟩ := exists_labelType r
      exact ⟨s, hr⟩
  | ret => exact .of_diverts ((pop?_acts _).takes fun _ ↦ emit_cut_acts _) .ret
  | call func =>
    refine .inspect (funcType_inspects ctx func) (fun type htype ↦ ?_) fun _ _ h ↦ ?_
    · refine .of_hasType ?_ (.call htype) (by simp) (by simp)
      exact (popArgs_acts _).takes fun _ ↦ (push?_acts _).leaves fun _ ↦ emit_acts _
    · obtain ⟨_, _, h⟩ | ⟨_, h⟩ := flow_typed h <;> cases h
      exact ⟨_, ‹_›⟩
  | callIndirect t =>
    refine .inspect (requireTable_inspects ctx) (fun _ htable ↦ ?_) fun _ _ h ↦ ?_
    · refine .inspect (typeAt_inspects ctx t) (fun type htype ↦ ?_) fun _ _ h ↦ ?_
      · refine .of_hasType ?_ (.callIndirect htable htype) (by simp) (by simp)
        rw [takes_cons]
        exact (popType_acts _).takes fun _ ↦ (popArgs_acts _).takes fun _ ↦
          (push?_acts _).leaves fun _ ↦ emit_acts _
      · obtain ⟨_, _, h⟩ | ⟨_, h⟩ := flow_typed h <;> cases h
        exact ⟨_, ‹_›⟩
    · obtain ⟨_, _, h⟩ | ⟨_, h⟩ := flow_typed h <;> cases h
      exact ⟨(), ‹_›⟩
  | drop => exact drop_acts
  | select => exact select_acts
  | localGet index =>
    refine .inspect (localType_inspects ctx index) (fun t ht ↦ ?_) fun _ _ h ↦ ?_
    · refine .of_hasType ?_ (.localGet ht) (by simp) (by simp)
      rw [takes_nil]
      exact (push_acts t).leaves fun _ ↦ emit_acts _
    · obtain ⟨_, _, h⟩ | ⟨_, h⟩ := flow_typed h <;> cases h
      exact ⟨_, ‹_›⟩
  | localSet index =>
    refine .inspect (localType_inspects ctx index) (fun t ht ↦ ?_) fun _ _ h ↦ ?_
    · exact .of_hasType ((popType_acts t).takes fun _ ↦ emit_acts _) (.localSet ht) (by simp)
        (by simp)
    · obtain ⟨_, _, h⟩ | ⟨_, h⟩ := flow_typed h <;> cases h
      exact ⟨_, ‹_›⟩
  | localTee index =>
    refine .inspect (localType_inspects ctx index) (fun t ht ↦ ?_) fun _ _ h ↦ ?_
    · exact .of_hasType ((popType_acts t).takes fun _ ↦ (push_acts t).leaves fun _ ↦ emit_acts _)
        (.localTee ht) (by simp) (by simp)
    · obtain ⟨_, _, h⟩ | ⟨_, h⟩ := flow_typed h <;> cases h
      exact ⟨_, ‹_›⟩
  | globalGet index =>
    refine .inspect (globalType_inspects ctx index) (fun g hg ↦ ?_) fun _ _ h ↦ ?_
    · refine .of_hasType ?_ (.globalGet hg) (by simp) (by simp)
      rw [takes_nil]
      exact (push_acts g.type).leaves fun _ ↦ emit_acts _
    · obtain ⟨_, _, h⟩ | ⟨_, h⟩ := flow_typed h <;> cases h
      exact ⟨_, ‹_›⟩
  | globalSet index => exact globalSet_acts index
  | load access arg =>
    refine .inspect (checkAccess_inspects ctx access arg) (fun _ hacc ↦ ?_) fun _ _ h ↦ ?_
    · exact .of_hasType ((popType_acts _).takes fun _ ↦ (push_acts _).leaves fun _ ↦ emit_acts _)
        (.load hacc.1 hacc.2) (by simp) (by simp)
    · obtain ⟨_, _, h⟩ | ⟨_, h⟩ := flow_typed h <;> cases h
      exact ⟨(), ‹_›, ‹_›⟩
  | store access arg =>
    refine .inspect (checkAccess_inspects ctx access arg) (fun _ hacc ↦ ?_) fun _ _ h ↦ ?_
    · refine .of_hasType ?_ (.store hacc.1 hacc.2) (by simp) (by simp)
      rw [takes_cons]
      exact (popType_acts _).takes fun _ ↦ (popType_acts _).takes fun _ ↦ emit_acts _
    · obtain ⟨_, _, h⟩ | ⟨_, h⟩ := flow_typed h <;> cases h
      exact ⟨(), ‹_›, ‹_›⟩
  | memorySize =>
    refine .inspect (requireMemory_inspects ctx) (fun _ hmemory ↦ ?_) fun _ _ h ↦ ?_
    · refine .of_hasType ?_ (.memorySize hmemory) (by simp) (by simp)
      rw [takes_nil]
      exact (push_acts _).leaves fun _ ↦ emit_acts _
    · obtain ⟨_, _, h⟩ | ⟨_, h⟩ := flow_typed h <;> cases h
      exact ⟨(), ‹_›⟩
  | memoryGrow =>
    refine .inspect (requireMemory_inspects ctx) (fun _ hmemory ↦ ?_) fun _ _ h ↦ ?_
    · exact .of_hasType ((popType_acts _).takes fun _ ↦ (push_acts _).leaves fun _ ↦ emit_acts _)
        (.memoryGrow hmemory) (by simp) (by simp)
    · obtain ⟨_, _, h⟩ | ⟨_, h⟩ := flow_typed h <;> cases h
      exact ⟨(), ‹_›⟩
  | const v =>
    refine .of_hasType ?_ (.const v) (by simp) (by simp)
    rw [takes_nil]
    exact (push_acts _).leaves fun _ ↦ emit_acts _
  | unary op =>
    exact .of_hasType ((popType_acts _).takes fun _ ↦ (push_acts _).leaves fun _ ↦ emit_acts _)
      (.unary op) (by simp) (by simp)
  | binary op =>
    refine .of_hasType ?_ (.binary op) (by simp) (by simp)
    rw [takes_cons]
    exact (popType_acts _).takes fun _ ↦ (popType_acts _).takes fun _ ↦
      (push_acts _).leaves fun _ ↦ emit_acts _

end Build

end WasmEngine
