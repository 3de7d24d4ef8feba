import WasmEngine.Proofs.BodyGrammar
import WasmEngine.Proofs.RawDrafts

/-!
# The bookkeeping of compilation

The compiler keeps the same facts in several places. A scope lists the types of its operands and
counts them in each lane. Its base repeats how many operands lie below it, its label how many scopes
are around it, and the draft keeps the greatest height of each lane.

`Booked` says that these agree, and `Compiling` is the relation of the states that the compiler gets
to. From a state in which they agree, an instruction has the same outcome on a draft and on a raw
draft (`Parallels`), which has counters of 32 bits and a stack of frames that might run out. An
instruction takes a byte at least and adds an operand at most, so that the counters of a body whose
size fits into 32 bits do not overflow.
-/

namespace WasmEngine

/-! ## Counts -/

namespace Lanes

/-- A lane has no more operands than all lanes together. -/
theorem get_le_total (l : Lanes Nat) (t : ValueType) : l.get t ≤ l.total := by
  cases t <;> simp only [get, total] <;> omega

theorem total_le {a b : Lanes Nat} (h : ∀ t, a.get t ≤ b.get t) : a.total ≤ b.total := by
  have h32 : a.i32 ≤ b.i32 := h .i32
  have h64 : a.i64 ≤ b.i64 := h .i64
  have hf32 : a.f32 ≤ b.f32 := h .f32
  have hf64 : a.f64 ≤ b.f64 := h .f64
  simp only [total]
  omega

/-- One more operand, of whatever type, is one more altogether. -/
theorem total_incr (l : Lanes Nat) (t : ValueType) : (l.incr t).total = l.total + 1 := by
  cases t <;> simp only [incr, modify, total] <;> omega

end Lanes

namespace Scope

variable (s : Scope) (t : ValueType)

/-- An operand that is pushed lies on top of its lane. -/
theorem height_push : (s.push t).height = s.height.incr t := by
  ext u
  simp only [height_get, push, Lanes.get_incr]
  split <;> omega

theorem total_popped_le : (s.popped t).height.total ≤ s.height.total := by
  apply Lanes.total_le
  intro u
  simp only [height_get, popped, Lanes.get_decr]
  split <;> omega

/-- The operands below a scope are among those that are there. -/
theorem total_base_le : s.base.total ≤ s.height.total := by
  apply Lanes.total_le
  intro u
  rw [height_get]
  exact Nat.le_add_right _ _

/-- A scope without operands of its own. -/
theorem height_of_live (h : s.live = Lanes.zero) : s.height = s.base := by
  ext u
  simp [height_get, h]

end Scope

namespace Draft

/-- The open scopes, the outermost first. -/
def frames (d : Draft) : List Scope := d.scopes.reverse

def raw (d : Draft) : RawDraft := ⟨d.frames, d.maxStack⟩

/-- Frames are listed from the function inwards, scopes the other way. -/
theorem frames_eq (d : Draft) : d.frames = d.outer.reverse ++ [d.scope] := List.reverse_cons

/-- The innermost scope counts its operands, there are no more than `n` of them with those below it,
and it is no deeper than `n`. -/
structure Counted (n : Nat) (d : Draft) : Prop where
  live : ∀ t, d.scope.live.get t = d.scope.types.count t
  total : d.scope.height.total ≤ n
  depth : d.outer.length ≤ n

variable {n k : Nat} {d : Draft}

/-- Bounds may be raised. -/
theorem Counted.mono (h : d.Counted n) (hle : n ≤ k) : d.Counted k :=
  ⟨h.live, Nat.le_trans h.total hle, Nat.le_trans h.depth hle⟩

theorem Counted.emit (h : d.Counted n) (stmt : Stmt) :
    Counted n { d with scope := d.scope.emit stmt } :=
  ⟨h.live, h.total, h.depth⟩

/-- Dead code forgets the operands of its scope, and the counter with them. -/
theorem Counted.cut (h : d.Counted n) : Counted n { d with scope := d.scope.cut } where
  live t := by simp [Scope.cut]
  total := by
    rw [Scope.height_of_live _ rfl]
    exact Nat.le_trans d.scope.total_base_le h.total
  depth := h.depth

/-- A push raises the bound by one. -/
theorem Counted.push (h : d.Counted n) (t : ValueType) (maxStack : Lanes Nat) :
    Counted (n + 1) { d with scope := d.scope.push t, maxStack } where
  live u := by
    rw [Scope.push, Lanes.get_incr, List.count_cons, h.live]
    by_cases hu : u = t
    · simp [hu]
    · simp [hu, Ne.symm hu]
  total := by
    rw [Scope.height_push, Lanes.total_incr]
    exact Nat.succ_le_succ h.total
  depth := Nat.le_succ_of_le h.depth

/-- A pop takes the operand off the counter of its type. -/
theorem Counted.popped (h : d.Counted n) {t : ValueType} {types : List ValueType}
    (htypes : d.scope.types = t :: types) : Counted n { d with scope := d.scope.popped t } where
  live u := by
    rw [Scope.popped, Lanes.get_decr, h.live, htypes, List.count_cons, List.tail_cons]
    by_cases hu : u = t
    · simp [hu]
    · simp [hu, Ne.symm hu]
  total := Nat.le_trans (d.scope.total_popped_le t) h.total
  depth := h.depth

end Draft

/-! ## Agreement of two compilations -/

variable {α β : Type}

/-- A compilation on a machine ends like one on a draft: with the same result, in a state that `R`
relates, or because the body is refused with the same error. -/
inductive Mirrors (R : RawDraft → Draft → Prop) :
    EStateM.Result Halt RawDraft α → EStateM.Result DecodeError Draft α → Prop
  | ok (a : α) {r : RawDraft} {d : Draft} (h : R r d) : Mirrors R (.ok a r) (.ok a d)
  | refused (e : DecodeError) {r : RawDraft} {d : Draft} :
      Mirrors R (.error (.refused e) r) (.error e d)

/-- Less may be asked of the states in which two runs end. -/
theorem Mirrors.mono {R R' : RawDraft → Draft → Prop} {p : EStateM.Result Halt RawDraft α}
    {q : EStateM.Result DecodeError Draft α} (h : Mirrors R p q) (hR : ∀ r d, R r d → R' r d) :
    Mirrors R' p q := by
  cases h with
  | ok a h => exact .ok a (hR _ _ h)
  | refused e => exact .refused e

/-- From a draft that satisfies `Q`, the two programs end alike, and in a draft that satisfies
`P`. -/
def Parallels (Q P : Draft → Prop) (x : RawBuild α) (b : Build α) : Prop :=
  ∀ d, Q d → Mirrors (fun r d' ↦ r = d'.raw ∧ P d') (x.run d.raw) (b.run d)

namespace Parallels

variable {P Q R : Draft → Prop} {x : RawBuild α} {b : Build α}

theorem pure (a : α) : Parallels P P (pure a) (pure a) := fun _ hd ↦ .ok a ⟨rfl, hd⟩

/-- Both refuse a body with the same error. -/
theorem refuse (pos : Nat) (fault : Fault) :
    Parallels Q P (RawBuild.refuse pos fault : RawBuild α) (Build.fail pos fault) :=
  fun _ _ ↦ .refused _

/-- Two programs that go in parallel step by step do so as a whole. -/
theorem bind {f : α → RawBuild β} {g : α → Build β} (hx : Parallels Q R x b)
    (hf : ∀ a, Parallels R P (f a) (g a)) : Parallels Q P (x >>= f) (b >>= g) := by
  intro d hd
  have hfirst := hx d hd
  rw [EStateM.run_bind, EStateM.run_bind]
  generalize x.run d.raw = p at hfirst
  generalize b.run d = q at hfirst
  cases hfirst with
  | ok a h =>
    obtain ⟨rfl, hR⟩ := h
    exact hf a _ hR
  | refused e => exact .refused e

theorem ite {p : Prop} [Decidable p] {y : RawBuild α} {b' : Build α} (hx : Parallels Q P x b)
    (hy : Parallels Q P y b') : Parallels Q P (if p then x else y) (if p then b else b') := by
  split
  · exact hx
  · exact hy

theorem weaken (hx : Parallels Q R x b) (h : ∀ d, R d → P d) : Parallels Q P x b :=
  fun d hd ↦ (hx d hd).mono fun _ d' hR ↦ ⟨hR.1, h d' hR.2⟩

theorem strengthen (hx : Parallels Q P x b) (h : ∀ d, R d → Q d) : Parallels R P x b :=
  fun d hd ↦ hx d (h d hd)

/-- What holds where both programs end holds where the one on drafts does. -/
theorem preserves (hx : Parallels Q P x b) {d d' : Draft} {a : α} (hd : Q d)
    (h : b.run d = .ok a d') : P d' := by
  have hends := hx d hd
  rw [h] at hends
  generalize x.run d.raw = p at hends
  cases hends with
  | ok _ hP => exact hP.2

/-- Programs that go in parallel end alike. -/
theorem mirrors (hx : Parallels Q P x b) {d : Draft} (hd : Q d) :
    Mirrors (fun r d' ↦ r = d'.raw) (x.run d.raw) (b.run d) :=
  (hx d hd).mono fun _ _ h ↦ h.1

/-- Both programs end as said. -/
theorem of_run (h : ∀ d, Q d → (∃ a d', x.run d.raw = .ok a d'.raw ∧ b.run d = .ok a d' ∧ P d') ∨
    ∃ e r d', x.run d.raw = .error (.refused e) r ∧ b.run d = .error e d') : Parallels Q P x b := by
  intro d hd
  obtain ⟨a, d', hx, hb, hP⟩ | ⟨e, r, d', hx, hb⟩ := h d hd
  · rw [hx, hb]
    exact .ok a ⟨rfl, hP⟩
  · rw [hx, hb]
    exact .refused e

end Parallels

/-! ## Operations -/

namespace RawBuild

open Draft

variable {n : Nat} {d : Draft} {r : RawDraft}

/-- The last frame is the innermost scope. -/
theorem run_top (d : Draft) : top.run d.raw = .ok d.scope d.raw := by
  have hframe : d.frames[d.frames.length - 1]? = some d.scope := by simp [frames_eq]
  simp [top, frameAt, raw, hframe]

/-- To replace the last frame is to replace the innermost scope. -/
theorem run_replaceTop (d : Draft) (s : Scope) :
    (replaceTop s).run d.raw = .ok () ({ d with scope := s } : Draft).raw := by
  simp [replaceTop, raw, frames_eq]

/-- A counter that is in bounds does not overflow. -/
theorem run_word {k : Nat} (hk : k < counterBound) : (word k).run r = .ok k r := by
  rw [word, if_pos hk]
  rfl

/-- Nor does the height of a scope, if there are not too many operands. -/
theorem run_height {s : Scope} (hs : s.height.total < counterBound) :
    (height s).run r = .ok s.height r := by
  have hwords : s.height.toList.all (· < counterBound) = true := by
    have hlane (t : ValueType) : s.height.get t < counterBound :=
      Nat.lt_of_le_of_lt (s.height.get_le_total t) hs
    simpa [Lanes.toList] using ⟨hlane .i32, hlane .i64, hlane .f32, hlane .f64⟩
  rw [height, words, if_pos hwords]
  rfl

/-- The slot of the next operand is the same in both. -/
theorem run_nextSlot {s : Scope} (hs : s.height.total < counterBound) (t : ValueType) :
    (nextSlot s t).run r = .ok (s.nextSlot t) r := by
  have hlane : s.base.get t + s.live.get t < counterBound := by
    rw [← Scope.height_get]
    exact Nat.lt_of_le_of_lt (s.height.get_le_total t) hs
  simp only [nextSlot, EStateM.run_bind, run_word hlane]
  rfl

theorem run_raise (d : Draft) (l : Lanes Nat) :
    (raise l).run d.raw = .ok () ({ d with maxStack := d.maxStack.raise l } : Draft).raw := rfl

theorem emit_parallels (stmt : Stmt) :
    Parallels (Counted n) (Counted n) (emit stmt) (Build.emit stmt) :=
  .of_run fun d hd ↦ .inl ⟨(), _, by simp only [emit, EStateM.run_bind, run_top, run_replaceTop],
    rfl, hd.emit stmt⟩

theorem cut_parallels : Parallels (Counted n) (Counted n) cut Build.cut :=
  .of_run fun d hd ↦ .inl ⟨(), _, by simp only [cut, EStateM.run_bind, run_top, run_replaceTop],
    rfl, hd.cut⟩

/-- A push counts one operand more, for which there is room in the counters. -/
theorem push_parallels (hn : n + 1 < counterBound) (t : ValueType) :
    Parallels (Counted n) (Counted (n + 1)) (push t) (Build.push t) := by
  refine .of_run fun d hd ↦ .inl ⟨d.scope.nextSlot t, _, ?_, rfl, hd.push t _⟩
  have hpush := hd.push t d.maxStack
  have hlive : d.scope.live.get t + 1 < counterBound := by
    have hlane := d.scope.height.get_le_total t
    have htotal := hd.total
    rw [Scope.height_get] at hlane
    omega
  simp only [push, EStateM.run_bind, run_top, run_replaceTop, run_word hlive,
    run_nextSlot (Nat.lt_of_le_of_lt hd.total (Nat.lt_of_succ_lt hn)),
    run_height (Nat.lt_of_le_of_lt hpush.total hn), run_raise]
  rfl

/-- A program that runs alike on every draft and does not change it. -/
def Stateless (b : Build α) : Prop :=
  (∃ a, ∀ d, b.run d = .ok a d) ∨ ∃ e, ∀ d, b.run d = .error e d

/-- A check that does not look at the draft has one outcome, whatever the frames are. -/
theorem Stateless.run_look {b : Build α} (hb : Stateless b) :
    (∃ a, (∀ d, b.run d = .ok a d) ∧ ∀ r, (look b).run r = .ok a r) ∨
      ∃ e, (∀ d, b.run d = .error e d) ∧ ∀ r, (look b).run r = .error (.refused e) r := by
  unfold look
  obtain ⟨a, ha⟩ | ⟨e, he⟩ := hb
  · rw [ha]
    exact .inl ⟨a, ha, fun _ ↦ rfl⟩
  · rw [he]
    exact .inr ⟨e, he, fun _ ↦ rfl⟩

/-- Such a check can be made on either side. -/
theorem look_parallels {b : Build α} (hb : Stateless b) {P : Draft → Prop} :
    Parallels P P (look b) b := by
  refine .of_run fun d hd ↦ ?_
  obtain ⟨a, ha, hlook⟩ | ⟨e, he, hlook⟩ := hb.run_look
  · exact .inl ⟨a, d, hlook d.raw, ha d, hd⟩
  · exact .inr ⟨e, _, _, hlook d.raw, he d⟩

namespace Stateless

theorem pure (a : α) : Stateless (pure a : Build α) := .inl ⟨a, fun _ ↦ rfl⟩

theorem fail (pos : Nat) (fault : Fault) : Stateless (Build.fail pos fault : Build α) :=
  .inr ⟨_, fun _ ↦ rfl⟩

theorem ite {p : Prop} [Decidable p] {b b' : Build α} (hb : Stateless b) (hb' : Stateless b') :
    Stateless (if p then b else b') := by
  split
  · exact hb
  · exact hb'

/-- Checks one after the other are one check. -/
theorem bind {b : Build α} {f : α → Build β} (hb : Stateless b) (hf : ∀ a, Stateless (f a)) :
    Stateless (b >>= f) := by
  obtain ⟨a, ha⟩ | ⟨e, he⟩ := hb
  · have hrun (d : Draft) : (b >>= f).run d = (f a).run d := by rw [EStateM.run_bind, ha]
    simpa only [Stateless, hrun] using hf a
  · exact .inr ⟨e, fun d ↦ by rw [EStateM.run_bind, he]⟩

theorem funcType (ctx : Context) (pos index : Nat) : Stateless (Build.funcType ctx pos index) := by
  unfold Build.funcType
  split
  · exact pure _
  · exact fail _ _

theorem typeAt (ctx : Context) (pos index : Nat) : Stateless (Build.typeAt ctx pos index) := by
  unfold Build.typeAt
  split
  · exact pure _
  · exact fail _ _

theorem localType (ctx : Context) (pos index : Nat) :
    Stateless (Build.localType ctx pos index) := by
  unfold Build.localType
  split
  · exact pure _
  · exact fail _ _

theorem globalType (ctx : Context) (pos index : Nat) :
    Stateless (Build.globalType ctx pos index) := by
  unfold Build.globalType
  split
  · exact pure _
  · exact fail _ _

theorem requireTable (ctx : Context) (pos : Nat) : Stateless (Build.requireTable ctx pos) :=
  ite (fail _ _) (pure ())

theorem requireMemory (ctx : Context) (pos : Nat) : Stateless (Build.requireMemory ctx pos) :=
  ite (fail _ _) (pure ())

theorem checkAccess (ctx : Context) (pos : Nat) (access : Access) (arg : MemArg) :
    Stateless (Build.checkAccess ctx pos access arg) :=
  bind (requireMemory ctx pos) fun _ ↦ ite (fail _ _) (pure ())

/-- What a scope ends with is checked on the scope alone. -/
theorem checkEnd (pos : Nat) (s : Scope) : Stateless (Build.checkEnd pos s) := by
  refine ite (bind (fail _ _) fun _ ↦ ?_) ?_
  all_goals
    split
    · exact ite (fail _ _) (pure ())
    · exact pure ()

/-- What a scope becomes depends on the scope alone. -/
theorem closed (s : Scope) : Stateless (Build.closed s) := by
  unfold Build.closed
  split
  · exact pure _
  · exact pure _
  · exact pure _
  · exact ite (fail _ _) (pure _)
  · exact pure _

end Stateless

/-- In dead code an operand is handed out that the scope does not hold. -/
theorem run_pop_dead (hn : n + 1 < counterBound) (hd : d.Counted n) (htypes : d.scope.types = [])
    (hdead : d.scope.unreachable = true) (pos : Nat) (expected : Option ValueType) :
    ∃ p d', (pop pos expected).run d.raw = .ok p d'.raw ∧
      (Build.pop pos expected).run d = .ok p d' ∧ d'.Counted n := by
  have htotal := hd.total
  have hlane := d.scope.height.get_le_total (expected.getD .i32)
  refine ⟨(expected.getD .i32, d.scope.nextSlot (expected.getD .i32)),
    { d with maxStack := d.maxStack.raise (d.scope.height.incr (expected.getD .i32)) }, ?_, ?_,
    ⟨hd.live, hd.total, hd.depth⟩⟩
  · simp only [pop, EStateM.run_bind, run_top, htypes, List.isEmpty_nil, if_true, hdead,
      run_nextSlot (show d.scope.height.total < counterBound by omega),
      run_height (show d.scope.height.total < counterBound by omega),
      run_word (show d.scope.height.get (expected.getD .i32) + 1 < counterBound by omega),
      run_raise]
    rfl
  · simp only [Build.pop, EStateM.run_bind, EStateM.run_get, htypes, hdead, if_true]
    rfl

/-- Nothing can be popped where there is nothing, and the error says whether there is something
further out. -/
theorem run_pop_empty (htypes : d.scope.types = []) (hlive : d.scope.unreachable = false)
    (pos : Nat) (expected : Option ValueType) : ∃ e, (pop pos expected).run d.raw =
      .error (.refused e) d.raw ∧ (Build.pop pos expected).run d = .error e d := by
  have hany : d.raw.frames.any (!·.types.isEmpty) = d.outer.any (!·.types.isEmpty) := by
    simp [raw, frames_eq, htypes]
  simp only [pop, Build.pop, EStateM.run_bind, run_top, EStateM.run_get, htypes, hlive, hany,
    List.isEmpty_nil, if_true, Bool.false_eq_true, if_false]
  split
  · exact ⟨_, rfl, rfl⟩
  · exact ⟨_, rfl, rfl⟩

/-- A pop reads the counter of the type that is on top. In dead code there is nothing to read, and
the operand is made up. -/
theorem pop_parallels (hn : n + 1 < counterBound) (pos : Nat) (expected : Option ValueType) :
    Parallels (Counted n) (Counted n) (pop pos expected) (Build.pop pos expected) := by
  refine .of_run fun d hd ↦ ?_
  cases htypes : d.scope.types with
  | nil =>
    cases hdead : d.scope.unreachable with
    | true => exact .inl (run_pop_dead hn hd htypes hdead pos expected)
    | false =>
      obtain ⟨e, hraw, hbuild⟩ := run_pop_empty htypes hdead pos expected
      exact .inr ⟨e, _, _, hraw, hbuild⟩
  | cons t types =>
    -- The counter of the type on top is not zero.
    have hcount : ¬d.scope.live.get t = 0 := by simp [hd.live, htypes]
    have hpopped := hd.popped htypes
    have htotal : (d.scope.popped t).height.total ≤ n := hpopped.total
    have hslot := run_nextSlot (r := ({ d with scope := d.scope.popped t } : Draft).raw)
      (show (d.scope.popped t).height.total < counterBound by omega) t
    have hscope : ({ d.scope with types, live := d.scope.live.decr t } : Scope) =
        d.scope.popped t := by rw [Scope.popped, htypes, List.tail_cons]
    simp only [pop, Build.pop, EStateM.run_bind, run_top, EStateM.run_get, htypes, hcount,
      List.isEmpty_cons, Bool.false_eq_true, if_false, List.headD_cons, run_replaceTop,
      EStateM.run_set, hscope]
    cases expected with
    | none =>
      simp only [Option.getD_none, ne_eq, not_true_eq_false, if_false, EStateM.run_bind, hslot]
      exact .inl ⟨_, _, rfl, rfl, hpopped⟩
    | some e =>
      by_cases he : e = t
      · simp only [Option.getD_some, ne_eq, he, not_true_eq_false, if_false, EStateM.run_bind,
          hslot]
        exact .inl ⟨_, _, rfl, rfl, hpopped⟩
      · simp only [Option.getD_some, ne_eq, he, not_false_eq_true, if_true]
        exact .inr ⟨_, _, _, rfl, rfl⟩

theorem popType_parallels (hn : n + 1 < counterBound) (pos : Nat) (t : ValueType) :
    Parallels (Counted n) (Counted n) (primitives.popType pos t) (Build.popType pos t) :=
  .bind (pop_parallels hn pos (some t)) fun p ↦ .pure p.2

theorem pop?_parallels (hn : n + 1 < counterBound) (pos : Nat) (t : Option ValueType) :
    Parallels (Counted n) (Counted n) (primitives.pop? pos t) (Build.pop? pos t) := by
  cases t with
  | none => exact .pure none
  | some t => exact .bind (popType_parallels hn pos t) fun slot ↦ .pure (some slot)

/-- Arguments are popped from the last to the first, by induction on their types. -/
theorem popArgs_parallels (hn : n + 1 < counterBound) (pos : Nat) (ts : List ValueType) :
    Parallels (Counted n) (Counted n) (primitives.popArgs pos ts) (Build.popArgs pos ts) := by
  induction ts with
  | nil => exact .pure []
  | cons t ts ih =>
    exact .bind ih fun slots ↦ .bind (popType_parallels hn pos t) fun slot ↦ .pure (slot :: slots)

theorem push?_parallels (hn : n + 1 < counterBound) (t : Option ValueType) :
    Parallels (Counted n) (Counted (n + 1)) (primitives.push? t) (Build.push? t) := by
  cases t with
  | none => exact .weaken (.pure none) fun _ hd ↦ hd.mono (Nat.le_succ n)
  | some t => exact .bind (push_parallels hn t) fun slot ↦ .pure (some slot)

/-- A new frame takes the number of frames as its label, and that fits a counter. -/
theorem openScope_parallels (hn : n + 1 < counterBound) (ctx : Context) (pos : Nat)
    (kind : Scope.Kind) (result : Option ValueType) :
    Parallels (Counted n) (Counted (n + 1)) (openScope ctx pos kind result)
      (Build.openScope ctx pos kind result) := by
  refine .of_run fun d hd ↦ ?_
  have htotal := hd.total
  have hdepth := hd.depth
  have hlength : d.raw.frames.length = d.scopes.length := List.length_reverse
  have hlabel : d.scopes.length % counterBound = d.scopes.length :=
    Nat.mod_eq_of_lt (by simp only [scopes, List.length_cons]; omega)
  simp only [openScope, Build.openScope, EStateM.run_bind, EStateM.run_get, run_ite, hlength]
  split
  · exact .inr ⟨_, _, _, rfl, rfl⟩
  · simp only [run_top, hlabel,
      run_height (show d.scope.height.total < counterBound by omega)]
    refine .inl ⟨(), _, ?_, rfl, ⟨fun t ↦ by simp, ?_, Nat.succ_le_succ hd.depth⟩⟩
    · simp [raw, frames_eq, scopes]
    · rw [Scope.height_of_live _ rfl]
      exact Nat.le_succ_of_le hd.total

/-- The second arm takes the place of the first in the last frame. -/
theorem beginElse_parallels (pos : Nat) :
    Parallels (Counted n) (Counted n) (beginElse pos) (Build.beginElse pos) := by
  refine .of_run fun d hd ↦ ?_
  simp only [beginElse, Build.beginElse, EStateM.run_bind, run_top, EStateM.run_get]
  cases d.scope.kind with
  | thenArm cond =>
    obtain ⟨u, hend, hlook⟩ | ⟨e, hend, hlook⟩ := (Stateless.checkEnd pos d.scope).run_look
    · simp only [EStateM.run_bind, hend, hlook, run_replaceTop]
      refine .inl ⟨(), _, rfl, rfl, ⟨fun t ↦ by simp, ?_, hd.depth⟩⟩
      rw [Scope.height_of_live _ rfl]
      exact Nat.le_trans d.scope.total_base_le hd.total
    · simp only [EStateM.run_bind, hend, hlook]
      exact .inr ⟨e, _, _, rfl, rfl⟩
  | _ => exact .inr ⟨_, _, _, rfl, rfl⟩

/-- A depth counts frames from the end, which is how scopes are listed. -/
theorem scopeAt_parallels (pos depth : Nat) {P : Draft → Prop} :
    Parallels P P (scopeAt pos depth) (Build.scopeAt pos depth) := by
  refine .of_run fun d hd ↦ ?_
  have hlength : d.raw.frames.length = d.scopes.length := List.length_reverse
  simp only [scopeAt, Build.scopeAt, EStateM.run_bind, EStateM.run_get, run_ite, hlength]
  by_cases hdepth : d.scopes.length < depth + 1
  · have hnone : d.scopes[depth]? = none := List.getElem?_eq_none (by omega)
    rw [if_pos hdepth, hnone]
    exact .inr ⟨_, _, _, rfl, rfl⟩
  · -- The frame is there, and it is the scope at this depth.
    have hlt : depth < d.scopes.length := by omega
    have hframe : d.raw.frames[d.scopes.length - (depth + 1)]? = some d.scopes[depth] := by
      rw [raw, frames, List.getElem?_reverse (by omega),
        show d.scopes.length - 1 - (d.scopes.length - (depth + 1)) = depth by omega,
        List.getElem?_eq_getElem hlt]
    rw [if_neg hdepth, frameAt, hframe, List.getElem?_eq_getElem hlt]
    exact .inl ⟨_, d, rfl, rfl, hd⟩

/-- All depths of a branch table are found alike, by induction on them. -/
theorem tableScopes_parallels (pos : Nat) (label : Option ValueType) (depths : List Nat)
    {P : Draft → Prop} :
    Parallels P P (primitives.tableScopes pos label depths)
      (Build.tableScopes pos label depths) := by
  induction depths with
  | nil => exact .pure []
  | cons depth depths ih =>
    refine .bind (scopeAt_parallels pos depth) fun s ↦ .ite ?_ ?_
    · exact .bind (.refuse pos _) fun _ ↦ .bind ih fun ss ↦ .pure (s :: ss)
    · exact .bind ih fun ss ↦ .pure (s :: ss)

/-- The result of a scope that was closed becomes an operand of the one around it. -/
theorem leave_parallels (hn : n + 1 < counterBound) (result : Option ValueType) :
    Parallels (Counted n) (Counted (n + 1)) (result.forM fun t ↦ do let _ ← push t)
      (do let _ ← Build.push? result) := by
  cases result with
  | none => exact .weaken (.pure ()) fun _ hd ↦ hd.mono (Nat.le_succ n)
  | some t =>
    have hpush : (do let _ ← Build.push? (some t)) = (do let _ ← Build.push t) := by
      simp [Build.push?]
    rw [hpush]
    exact .bind (push_parallels hn t) fun _ ↦ .pure ()

/-- A scope that is closed is not the function, and there is one around it. -/
theorem closeScope_parallels (hn : n + 1 < counterBound) (ctx : Context) (pos : Nat) :
    Parallels (fun d ↦ d.Sound ctx ∧ d.Counted n ∧ d.outer ≠ []) (Counted (n + 1)) (closeScope pos)
      (Build.closeScope pos) := by
  rintro ⟨s, outer, maxStack⟩ ⟨hsound, hd, hne⟩
  cases outer with
  | nil => exact absurd rfl hne
  | cons parent outer =>
    obtain ⟨hparent, hkind, -, hbase, -⟩ := hsound
    have hcounted : Counted n ⟨parent, outer, maxStack⟩ := by
      refine ⟨(Scope.Nested.sound hparent).live, ?_, Nat.le_of_succ_le hd.depth⟩
      calc parent.height.total = s.base.total := by rw [hbase]
        _ ≤ s.height.total := s.total_base_le
        _ ≤ n := hd.total
    have hdrop : (modify fun r ↦ { r with frames := r.frames.dropLast } : RawBuild Unit).run
        (Draft.raw ⟨s, parent :: outer, maxStack⟩) =
          .ok () (Draft.raw ⟨parent, outer, maxStack⟩) := by simp [raw, frames_eq]
    have hfunction : s.kind.isFunction = false := by
      cases hk : s.kind with
      | function => exact absurd hk hkind
      | _ => rfl
    have htop := run_top ⟨s, parent :: outer, maxStack⟩
    obtain ⟨u, hend, hlook⟩ | ⟨e, hend, hlook⟩ := (Stateless.checkEnd pos s).run_look
    · obtain ⟨stmt, hclosed, hlook'⟩ | ⟨e, hclosed, hlook'⟩ := (Stateless.closed s).run_look
      · have hrest := Parallels.bind (emit_parallels stmt) fun _ ↦ leave_parallels hn s.result
        simp only [closeScope, Build.closeScope, Build.endScope, EStateM.run_bind, EStateM.run_get,
          htop, hend, hlook, hdrop, hfunction, Bool.false_eq_true, if_false, hclosed, hlook',
          EStateM.run_modify]
        simpa only [EStateM.run_bind] using hrest _ hcounted
      · simp only [closeScope, Build.closeScope, Build.endScope, EStateM.run_bind, EStateM.run_get,
          htop, hend, hlook, hdrop, hfunction, Bool.false_eq_true, if_false, hclosed, hlook']
        exact .refused e
    · simp only [closeScope, Build.closeScope, Build.endScope, EStateM.run_bind, EStateM.run_get,
        htop, hend, hlook]
      exact .refused e

/-- An instruction leaves one operand more at most, and opens one scope at most. -/
theorem step_parallels (hn : n + 1 < counterBound) (ctx : Context) (pos : Nat) (i : Instr) :
    Parallels (fun d ↦ d.Sound ctx ∧ d.Counted n ∧ ¬(i = .close ∧ d.outer = []))
      (Counted (n + 1)) (primitives.step ctx pos i) (Build.step ctx pos i) := by
  by_cases hclose : i = .close
  · subst hclose
    exact (closeScope_parallels hn ctx pos).strengthen fun d ⟨hsound, hd, hinside⟩ ↦
      ⟨hsound, hd, fun houter ↦ hinside ⟨rfl, houter⟩⟩
  have hpop (t : ValueType) := popType_parallels hn pos t
  have hpop? (t : Option ValueType) := pop?_parallels hn pos t
  have hpush (t : ValueType) := push_parallels hn t
  have hpush? (t : Option ValueType) := push?_parallels hn t
  have hemit (k : Nat) (stmt : Stmt) := emit_parallels (n := k) stmt
  have hkeep {x : RawBuild Unit} {b : Build Unit} (h : Parallels (Counted n) (Counted n) x b) :
      Parallels (Counted n) (Counted (n + 1)) x b :=
    h.weaken fun _ hd ↦ hd.mono (Nat.le_succ n)
  refine Parallels.strengthen ?_ fun d hd ↦ hd.2.1
  cases i with
  | unreachable => exact hkeep (.bind (hemit _ _) fun _ ↦ cut_parallels)
  | nop => exact hkeep (.pure ())
  | block result => exact openScope_parallels hn ctx pos .block result
  | loop result => exact openScope_parallels hn ctx pos .loop result
  | conditional result =>
    exact .bind (hpop .i32) fun cond ↦ openScope_parallels hn ctx pos (.thenArm cond) result
  | otherwise => exact hkeep (beginElse_parallels pos)
  | close => exact absurd rfl hclose
  | br depth =>
    exact hkeep (.bind (scopeAt_parallels pos depth) fun s ↦ .bind (hpop? s.labelType) fun _ ↦
      .bind (hemit _ _) fun _ ↦ cut_parallels)
  | brIf depth =>
    exact .bind (scopeAt_parallels pos depth) fun s ↦ .bind (hpop .i32) fun _ ↦
      .bind (hpop? s.labelType) fun _ ↦ .bind (hpush? s.labelType) fun _ ↦ hemit _ _
  | brTable depths default =>
    exact hkeep (.bind (scopeAt_parallels pos default) fun s ↦
      .bind (tableScopes_parallels pos s.labelType depths) fun _ ↦ .bind (hpop .i32) fun _ ↦
        .bind (hpop? s.labelType) fun _ ↦ .bind (hemit _ _) fun _ ↦ cut_parallels)
  | ret =>
    exact hkeep (.bind (hpop? ctx.type.result) fun _ ↦ .bind (hemit _ _) fun _ ↦ cut_parallels)
  | call func =>
    exact .bind (look_parallels (.funcType ctx pos func)) fun callee ↦
      .bind (popArgs_parallels hn pos callee.params) fun _ ↦ .bind (hpush? callee.result) fun _ ↦
        hemit _ _
  | callIndirect type =>
    exact .bind (look_parallels (.requireTable ctx pos)) fun _ ↦
      .bind (look_parallels (.typeAt ctx pos type)) fun callee ↦ .bind (hpop .i32) fun _ ↦
        .bind (popArgs_parallels hn pos callee.params) fun _ ↦
          .bind (hpush? callee.result) fun _ ↦ hemit _ _
  | drop => exact hkeep (.bind (pop_parallels hn pos none) fun _ ↦ .pure ())
  | select =>
    exact .bind (hpop .i32) fun _ ↦ .bind (pop_parallels hn pos none) fun p ↦
      .bind (hpop p.1) fun _ ↦ .bind (hpush p.1) fun _ ↦ hemit _ _
  | localGet index =>
    exact .bind (look_parallels (.localType ctx pos index)) fun t ↦ .bind (hpush t) fun _ ↦
      hemit _ _
  | localSet index =>
    exact hkeep (.bind (look_parallels (.localType ctx pos index)) fun t ↦ .bind (hpop t) fun _ ↦
      hemit _ _)
  | localTee index =>
    exact .bind (look_parallels (.localType ctx pos index)) fun t ↦ .bind (hpop t) fun _ ↦
      .bind (hpush t) fun _ ↦ hemit _ _
  | globalGet index =>
    exact .bind (look_parallels (.globalType ctx pos index)) fun g ↦ .bind (hpush g.type) fun _ ↦
      hemit _ _
  | globalSet index =>
    refine hkeep (.bind (look_parallels (.globalType ctx pos index)) fun g ↦ .ite ?_ ?_)
    · exact .bind (.refuse pos _) fun _ ↦ .bind (hpop g.type) fun _ ↦ hemit _ _
    · exact .bind (hpop g.type) fun _ ↦ hemit _ _
  | load access arg =>
    exact .bind (look_parallels (.checkAccess ctx pos access arg)) fun _ ↦ .bind (hpop .i32) fun _ ↦
      .bind (hpush .i32) fun _ ↦ hemit _ _
  | store access arg =>
    exact hkeep (.bind (look_parallels (.checkAccess ctx pos access arg)) fun _ ↦
      .bind (hpop .i32) fun _ ↦ .bind (hpop .i32) fun _ ↦ hemit _ _)
  | memorySize =>
    exact .bind (look_parallels (.requireMemory ctx pos)) fun _ ↦ .bind (hpush .i32) fun _ ↦
      hemit _ _
  | memoryGrow =>
    exact .bind (look_parallels (.requireMemory ctx pos)) fun _ ↦ .bind (hpop .i32) fun _ ↦
      .bind (hpush .i32) fun _ ↦ hemit _ _
  | const value => exact .bind (hpush value.type) fun _ ↦ hemit _ _
  | unary op => exact .bind (hpop op.operand) fun _ ↦ .bind (hpush op.result) fun _ ↦ hemit _ _
  | binary op =>
    exact .bind (hpop op.operand) fun _ ↦ .bind (hpop op.operand) fun _ ↦
      .bind (hpush op.result) fun _ ↦ hemit _ _

/-- The function ends alike. Its frame is gone then, and what is left is the room it needs. -/
theorem finish_mirrors (d : Draft) (pos : Nat) :
    Mirrors (fun r d' ↦ r.maxStack = d'.maxStack) ((finish pos).run d.raw)
      ((Build.finish pos).run d) := by
  simp only [finish, Build.finish, EStateM.run_bind, EStateM.run_get, run_top, EStateM.run_modify]
  obtain ⟨u, hend, hlook⟩ | ⟨e, hend, hlook⟩ := (Stateless.checkEnd pos d.scope).run_look
  · simp only [hend, hlook, run_ite]
    split
    · exact .ok _ rfl
    · exact .ok _ rfl
  · simp only [hend, hlook]
    exact .refused e

end RawBuild

/-! ## Frames -/

/-- The books of a stack of frames, the outermost first, are in order: the function is the outermost
frame and no other, labels number the frames, counters count, each frame starts where the one around
it ends, and there is room for all operands. -/
structure Booked (frames : List Scope) (room : Lanes Nat) : Prop where
  function {i : Nat} {s : Scope} : frames[i]? = some s → (s.kind = .function ↔ i = 0)
  label {i : Nat} {s : Scope} : frames[i]? = some s → s.label = i
  live {s : Scope} : s ∈ frames → ∀ t, s.live.get t = s.types.count t
  base {i : Nat} {s s' : Scope} : frames[i]? = some s → frames[i + 1]? = some s' →
    s'.base = s.height
  room {s : Scope} : s ∈ frames → ∀ t, s.height.get t ≤ room.get t

/-- One more frame in the innermost one. -/
theorem Booked.concat {frames : List Scope} {room : Lanes Nat} {p s : Scope}
    (h : Booked (frames ++ [p]) room) (hkind : s.kind ≠ .function)
    (hlabel : s.label = frames.length + 1) (hlive : ∀ t, s.live.get t = s.types.count t)
    (hbase : s.base = p.height) (hroom : ∀ t, s.height.get t ≤ room.get t) :
    Booked (frames ++ [p] ++ [s]) room := by
  have hlength : (frames ++ [p]).length = frames.length + 1 := by simp
  have hlast {i : Nat} {s' : Scope} (hs' : (frames ++ [p] ++ [s])[i]? = some s') :
      (frames ++ [p])[i]? = some s' ∨ i = frames.length + 1 ∧ s' = s := by
    rw [← hlength]
    grind
  constructor
  · intro i s' hs'
    obtain hs' | ⟨rfl, rfl⟩ := hlast hs'
    · exact h.function hs'
    · simp [hkind]
  · intro i s' hs'
    obtain hs' | ⟨rfl, rfl⟩ := hlast hs'
    · exact h.label hs'
    · exact hlabel
  · intro s' hs'
    obtain hs' | hs' := List.mem_append.mp hs'
    · exact h.live hs'
    · rwa [List.mem_singleton.mp hs']
  · intro i s₁ s₂ hs₁ hs₂
    obtain hs₂ | ⟨hi, rfl⟩ := hlast hs₂
    · have hi := (List.getElem?_eq_some_iff.mp hs₂).1
      rw [List.getElem?_append_left (by omega)] at hs₁
      exact h.base hs₁ hs₂
    · obtain rfl : i = frames.length := Nat.succ.inj hi
      have hp : s₁ = p := by simpa using hs₁.symm
      rw [hbase, hp]
  · intro s' hs'
    obtain hs' | hs' := List.mem_append.mp hs'
    · exact h.room hs'
    · rwa [List.mem_singleton.mp hs']

namespace Scope.Nested

variable {L : Layout} {s s' : Scope} {outer : List Scope}

/-- The frames of a sound scope in its surroundings are in order, by induction on the scopes around
it. -/
theorem booked (h : s.Nested L outer) : Booked (outer.reverse ++ [s]) L.slots := by
  induction outer generalizing s with
  | nil =>
    obtain ⟨hkind, hlabel, -, -, hs⟩ := h
    have hfirst {i : Nat} {s' : Scope} (hs' : [s][i]? = some s') : i = 0 ∧ s' = s := by grind
    constructor
    · intro i s' hs'
      obtain ⟨rfl, rfl⟩ := hfirst hs'
      simp [hkind]
    · intro i s' hs'
      obtain ⟨rfl, rfl⟩ := hfirst hs'
      exact hlabel
    · intro s' hs'
      rw [List.mem_singleton.mp hs']
      exact hs.live
    · intro i s₁ s₂ _ hs₂
      exact absurd (hfirst hs₂).1 (Nat.succ_ne_zero i)
    · intro s' hs'
      rw [List.mem_singleton.mp hs']
      exact hs.room
  | cons p outer ih =>
    obtain ⟨hp, hkind, hlabel, hbase, hs⟩ := h
    rw [List.reverse_cons]
    exact (ih hp).concat hkind (by rw [hlabel, List.length_reverse]) hs.live hbase hs.room

/-- No scope around has more operands. -/
theorem total_height_le (h : s.Nested L outer) (hs' : s' ∈ s :: outer) :
    s'.height.total ≤ s.height.total := by
  induction outer generalizing s with
  | nil =>
    obtain rfl := List.mem_singleton.mp hs'
    exact Nat.le_refl _
  | cons p outer ih =>
    obtain rfl | hs' := List.mem_cons.mp hs'
    · exact Nat.le_refl _
    · calc
        s'.height.total ≤ p.height.total := ih h.1 hs'
        _ = s.base.total := by rw [h.2.2.2.1]
        _ ≤ s.height.total := s.total_base_le

end Scope.Nested

/-! ## Reached states -/

/-- Compilation of the instructions from `c₀` on gets to `c` with the draft `d`. -/
inductive Compiling (ctx : Context) (c₀ : Cursor) : Cursor → Draft → Prop
  | start : Compiling ctx c₀ c₀ (Draft.start ctx.type c₀.offset)
  | step {c c' : Cursor} {d d' : Draft} {i : Instr} (h : Compiling ctx c₀ c d)
      (hread : Reader.instr.run c = .ok i c') (hinside : ¬(i = .close ∧ d.outer = []))
      (hstep : (Build.step ctx c.offset i).run d = .ok () d') : Compiling ctx c₀ c' d'

/-- An instruction takes a byte at least. -/
theorem Reader.instr_advances {c c' : Cursor} {i : Instr} (h : instr.run c = .ok i c') :
    c.offset + 1 ≤ c'.offset ∧ c'.remaining + 1 ≤ c.remaining := by
  obtain ⟨bs, hspelled, hrest, hoffset⟩ := (instr_reads c i c').mp h
  have hpos := List.length_pos_of_ne_nil (instr_bytes_ne_nil hspelled)
  have hlength := congrArg List.length hrest
  rw [List.length_append] at hlength
  simp only [Cursor.remaining]
  omega

namespace Compiling

variable {ctx : Context} {c₀ c : Cursor} {d : Draft}

/-- Compilation starts with a sound draft, and every instruction keeps it sound. -/
theorem sound (h : Compiling ctx c₀ c d) : d.Sound ctx := by
  induction h with
  | start => exact Draft.start_sound ctx c₀.offset
  | step _ _ _ hstep ih => exact (Build.step_sound ih hstep).1

/-- Each instruction takes bytes, so that the offset bounds how many there have been. -/
theorem offset_le (h : Compiling ctx c₀ c d) : c₀.offset ≤ c.offset := by
  induction h with
  | start => exact Nat.le_refl _
  | step _ hread _ _ ih =>
    have hadvance := (Reader.instr_advances hread).1
    omega

/-- The states of the loop that reads a function. -/
theorem run_instructions (h : Compiling ctx c₀ c d) : ∃ n, c.remaining ≤ n ∧
    (Reader.instructions ctx c₀.remaining (Draft.start ctx.type c₀.offset)).run c₀ =
      (Reader.instructions ctx n d).run c := by
  induction h with
  | start => exact ⟨c₀.remaining, Nat.le_refl _, rfl⟩
  | @step c c' d d' i _ hread hinside hstep ih =>
    obtain ⟨n, hn, hrun⟩ := ih
    have hadvance := (Reader.instr_advances hread).2
    obtain ⟨k, rfl⟩ : ∃ k, n = k + 1 := ⟨n - 1, by omega⟩
    refine ⟨k, by omega, hrun.trans ?_⟩
    have hbuilding : (Reader.building d (Build.step ctx c.offset i)).run c' = .ok ((), d') c' :=
      Reader.building_eq_ok.mpr ⟨hstep, rfl⟩
    have hoffset : Reader.offset.run c = .ok c.offset c := rfl
    rw [← List.isEmpty_iff] at hinside
    simp only [Reader.instructions, EStateM.run_bind, hoffset, hread, if_neg hinside, hbuilding]

/-- Each instruction is paid for with a byte, so that operands and scopes are no more than the bytes
read. -/
theorem counted {size : Nat} (hsize : size < counterBound) (h : Compiling ctx c₀ c d)
    (hc : c.offset ≤ c₀.offset + size) : d.Counted (c.offset - c₀.offset) := by
  induction h with
  | start => exact ⟨fun t ↦ by cases t <;> rfl, Nat.zero_le _, Nat.zero_le _⟩
  | @step c c' d d' i h hread hinside hstep ih =>
    have hadvance := (Reader.instr_advances hread).1
    have hstart := h.offset_le
    have hd := ih (by omega)
    have hd' : d'.Counted (c.offset - c₀.offset + 1) :=
      (RawBuild.step_parallels (by omega) ctx c.offset i).preserves ⟨h.sound, hd, hinside⟩ hstep
    exact hd'.mono (by omega)

end Compiling

/-- The books of the compiler are in order in every state that it reaches in a body whose size fits
into 32 bits, and the operands are no more than the bytes read. On a machine with counters of 32
bits, the next instruction of the body has the same outcome: no counter goes below zero or
overflows, no frame is missing, and the frame of the function is not closed like a block. -/
theorem compiler_books_in_order {ctx : Context} {size : Nat} {c₀ c : Cursor} {d : Draft}
    (hsize : size < counterBound) (h : Compiling ctx c₀ c d) (hc : c.offset ≤ c₀.offset + size) :
    (∃ n, c.remaining ≤ n ∧
      (Reader.instructions ctx c₀.remaining (Draft.start ctx.type c₀.offset)).run c₀ =
        (Reader.instructions ctx n d).run c) ∧
    d.frames ≠ [] ∧ Booked d.frames d.maxStack ∧
    (∀ s ∈ d.frames, s.height.total ≤ c.offset - c₀.offset) ∧
    ∀ i c', Reader.instr.run c = .ok i c' → c'.offset ≤ c₀.offset + size →
      if i = .close ∧ d.outer = [] then
        Mirrors (fun r d' ↦ r.maxStack = d'.maxStack) ((RawBuild.finish c.offset).run d.raw)
          ((Build.finish c.offset).run d)
      else
        Mirrors (fun r d' ↦ r = d'.raw) ((RawBuild.primitives.step ctx c.offset i).run d.raw)
          ((Build.step ctx c.offset i).run d) := by
  have hcounted := h.counted hsize hc
  refine ⟨h.run_instructions, by simp [Draft.frames_eq], ?_, ?_, ?_⟩
  · rw [Draft.frames_eq]
    exact h.sound.booked
  · intro s hs
    exact Nat.le_trans (h.sound.total_height_le (List.mem_reverse.mp hs)) hcounted.total
  · intro i c' hread hc'
    have hadvance := (Reader.instr_advances hread).1
    have hstart := h.offset_le
    split
    · exact RawBuild.finish_mirrors d c.offset
    · rename_i hinside
      exact (RawBuild.step_parallels (by omega) ctx c.offset i).mirrors ⟨h.sound, hcounted, hinside⟩

/-- A block with an operand below it and one in it, before it is closed. -/
theorem books_of_block_over_operand :
    ∃ d, Compiling ⟨{}, 8, ⟨[], []⟩, []⟩ ⟨0, [0x41, 5, 0x02, 0x7f, 0x41, 7, 0x0b]⟩ ⟨6, [0x0b]⟩ d ∧
      d.frames.map (·.height.i32) = [1, 2] ∧ Booked d.frames d.maxStack ∧
      Mirrors (fun r d' ↦ r = d'.raw)
        ((RawBuild.primitives.step ⟨{}, 8, ⟨[], []⟩, []⟩ 6 .close).run d.raw)
        ((Build.step ⟨{}, 8, ⟨[], []⟩, []⟩ 6 .close).run d) := by
  have hstart : Compiling ⟨{}, 8, ⟨[], []⟩, []⟩ ⟨0, [0x41, 5, 0x02, 0x7f, 0x41, 7, 0x0b]⟩ _ _ :=
    .start
  have hoperand := hstart.step rfl (by decide) rfl
  have hblock := hoperand.step rfl (by decide) rfl
  have hinner := hblock.step rfl (by decide) rfl
  obtain ⟨-, -, hbooked, -, hnext⟩ :=
    compiler_books_in_order (show 7 < counterBound by decide) hinner (by decide)
  exact ⟨_, hinner, rfl, hbooked, hnext .close ⟨7, []⟩ rfl (by decide)⟩

end WasmEngine
