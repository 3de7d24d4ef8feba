import WasmEngine.Code.Draft
import WasmEngine.Proofs.CodeForm
import WasmEngine.Proofs.Effects
import WasmEngine.Proofs.Sequences

/-!
# The state of compilation

A draft holds the same facts more than once: the types of the operands and their number in each
lane, the height of a scope and the base of the scope inside it, the nesting depth and the label.
`Draft.Sound` says that they agree, that no lane was ever higher than the room set aside for it,
and that the statements so far are well formed. Every instruction that compiles keeps it.

The argument goes through the few primitives that touch a draft. Each of them keeps the frame of
the innermost scope, so that the labels in sight stay the same while an instruction is compiled.
-/

namespace WasmEngine

/-- Whether the instruction opens a construct, ends one, or goes on to its second arm. -/
def Instr.isStructural : Instr → Bool
  | block _ | loop _ | conditional _ | otherwise | close => true
  | _ => false

/-- How many constructs are open after the instruction, if so many were before. -/
def Instr.nesting (depth : Nat) : Instr → Nat
  | block _ | loop _ | conditional _ => depth + 1
  | close => depth - 1
  | _ => depth

namespace Scope

def Kind.isLoop : Kind → Bool
  | .loop => true
  | _ => false

def asLabel (s : Scope) : Label := ⟨s.kind.isLoop, s.result, s.base⟩

/-- The labels in sight in the scope `s` that lies in the scopes `outer`. The outermost scope is
the function, which has none. -/
def labels : Scope → List Scope → List Label
  | _, [] => []
  | s, p :: outer => s.asLabel :: labels p outer

@[simp] theorem length_labels (s : Scope) (outer : List Scope) :
    (labels s outer).length = outer.length := by
  induction outer generalizing s with
  | nil => rfl
  | cons p outer ih => simp [labels, ih]

/-- What a conditional keeps of itself while one of its arms is compiled. -/
def Kind.Fits (L : Layout) (ls : List Label) : Kind → Prop
  | .thenArm cond => L.HasSlot cond .i32
  | .elseArm cond thenBody => L.HasSlot cond .i32 ∧ ∀ stmt ∈ thenBody, stmt.Fits L ls
  | _ => True

/-- A scope whose counts agree with its types and whose statements are well formed. -/
structure Sound (L : Layout) (ls : List Label) (s : Scope) : Prop where
  live : ∀ t, s.live.get t = s.types.count t
  room : ∀ t, s.height.get t ≤ L.slots.get t
  body : ∀ stmt ∈ s.body.toList, stmt.Fits L ls
  kind : s.kind.Fits L ls
  dead : s.unreachable = true → ∃ stmt ∈ s.body.toList, stmt.Diverts

/-- A sound scope in the scopes around it. -/
def Nested (L : Layout) : Scope → List Scope → Prop
  | s, [] =>
    s.kind = .function ∧ s.label = 0 ∧ s.base = Lanes.zero ∧ s.result = L.result ∧ s.Sound L []
  | s, p :: outer =>
    Nested L p outer ∧ s.kind ≠ .function ∧ s.label = outer.length + 1 ∧ s.base = p.height ∧
      s.Sound L (s.labels (p :: outer))

/-- The scope once a construct inside it has become a statement and left its result. -/
def after (s : Scope) (stmt : Stmt) : Option ValueType → Scope
  | some t => (s.emit stmt).push t
  | none => s.emit stmt

/-- The scope without its latest operand, which has type `t`. -/
def popped (s : Scope) (t : ValueType) : Scope :=
  { s with types := s.types.tail, live := s.live.decr t }

/-- The second scope is the first with other operands and statements. -/
structure SameFrame (s s' : Scope) : Prop where
  kind : s'.kind = s.kind
  result : s'.result = s.result
  label : s'.label = s.label
  base : s'.base = s.base

theorem SameFrame.trans {s s' s'' : Scope} (h : SameFrame s s') (h' : SameFrame s' s'') :
    SameFrame s s'' :=
  ⟨h'.kind.trans h.kind, h'.result.trans h.result, h'.label.trans h.label, h'.base.trans h.base⟩

theorem SameFrame.asLabel_eq {s s' : Scope} (h : SameFrame s s') : s'.asLabel = s.asLabel := by
  simp only [asLabel, h.kind, h.result, h.base]

/-- Branches see the frame of a scope only, not its operands or statements. -/
theorem SameFrame.labels_eq {s s' : Scope} (h : SameFrame s s') (outer : List Scope) :
    s'.labels outer = s.labels outer := by
  cases outer with
  | nil => rfl
  | cons p outer => simp only [labels, h.asLabel_eq]

variable {L L' : Layout} {s s' : Scope} {outer : List Scope} {ls : List Label}

/-- The innermost scope is sound by itself. -/
theorem Nested.sound (h : Nested L s outer) : s.Sound L (s.labels outer) := by
  cases outer with
  | nil => exact h.2.2.2.2
  | cons p outer => exact h.2.2.2.2

/-- The innermost scope may be replaced by one with the same frame. -/
theorem Nested.replace (h : Nested L s outer) (hframe : SameFrame s s')
    (hs' : s'.Sound L (s.labels outer)) : Nested L s' outer := by
  cases outer with
  | nil =>
    obtain ⟨hkind, hlabel, hbase, hresult, _⟩ := h
    exact ⟨hframe.kind.trans hkind, hframe.label.trans hlabel, hframe.base.trans hbase,
      hframe.result.trans hresult, hs'⟩
  | cons p outer =>
    obtain ⟨hp, hkind, hlabel, hbase, _⟩ := h
    rw [← hframe.labels_eq] at hs'
    exact ⟨hp, hframe.kind ▸ hkind, hframe.label.trans hlabel, hframe.base.trans hbase, hs'⟩

theorem Kind.Fits.mono (hle : L.Le L') {kind : Kind} (h : kind.Fits L ls) : kind.Fits L' ls := by
  cases kind with
  | thenArm cond => exact Layout.HasSlot.mono hle h
  | elseArm cond thenBody =>
    exact ⟨Layout.HasSlot.mono hle h.1, fun stmt hstmt ↦ (h.2 stmt hstmt).mono hle⟩
  | _ => trivial

/-- A scope that is sound stays so when more room is needed for operands. -/
theorem Sound.mono (hle : L.Le L') (h : s.Sound L ls) : s.Sound L' ls where
  live := h.live
  room t := Nat.le_trans (h.room t) (hle.slots t)
  body stmt hstmt := (h.body stmt hstmt).mono hle
  kind := h.kind.mono hle
  dead := h.dead

/-- So do the scopes around it, by induction on them. -/
theorem Nested.mono (hle : L.Le L') (h : Nested L s outer) : Nested L' s outer := by
  induction outer generalizing s with
  | nil =>
    obtain ⟨hkind, hlabel, hbase, hresult, hs⟩ := h
    exact ⟨hkind, hlabel, hbase, hresult.trans hle.result.symm, hs.mono hle⟩
  | cons p outer ih =>
    obtain ⟨hp, hkind, hlabel, hbase, hs⟩ := h
    exact ⟨ih hp, hkind, hlabel, hbase, hs.mono hle⟩

/-- The height of a lane: the operands below the scope, and those of the scope. -/
theorem height_get (s : Scope) (t : ValueType) :
    s.height.get t = s.base.get t + s.live.get t := by
  simp only [height, Lanes.get_plus]

/-- Scopes further out have no more operands below them. -/
theorem Nested.base_le (h : Nested L s outer) {depth : Nat} (hs' : (s :: outer)[depth]? = some s')
    (t : ValueType) : s'.base.get t ≤ s.base.get t := by
  induction outer generalizing s depth with
  | nil =>
    cases depth with
    | zero => cases hs'; exact Nat.le_refl _
    | succ depth => cases hs'
  | cons p outer ih =>
    cases depth with
    | zero => cases hs'; exact Nat.le_refl _
    | succ depth =>
      have hout : (p :: outer)[depth]? = some s' := by simpa using hs'
      have hp := ih h.1 hout
      have hbase : s.base.get t = p.base.get t + p.live.get t := by
        rw [h.2.2.2.1, height_get]
      omega

/-- The scopes around a point of a body are the constructs that its labels name, and outermost the
function. -/
theorem Nested.at_depth (h : Nested L s outer) {depth : Nat}
    (hs' : (s :: outer)[depth]? = some s') :
    (s'.kind ≠ .function ∧ (s.labels outer)[depth]? = some s'.asLabel ∧
      s'.label = outer.length - depth) ∨ (s'.kind = .function ∧ s'.result = L.result) := by
  induction outer generalizing s depth with
  | nil =>
    cases depth with
    | zero => cases hs'; exact .inr ⟨h.1, h.2.2.2.1⟩
    | succ depth => cases hs'
  | cons p outer ih =>
    cases depth with
    | zero => cases hs'; exact .inl ⟨h.2.1, rfl, h.2.2.1⟩
    | succ depth =>
      have hout : (p :: outer)[depth]? = some s' := by simpa using hs'
      have hp := ih h.1 hout
      simpa [labels] using hp

end Scope

/-- What the statements of the function may refer to, given the room for operands. -/
def Context.layout (ctx : Context) (slots : Lanes Nat) : Layout where
  module := ctx.module
  locals := ctx.locals
  result := ctx.type.result
  slots := slots

namespace Draft

def Sound (ctx : Context) (d : Draft) : Prop := d.scope.Nested (ctx.layout d.maxStack) d.outer

def labels (d : Draft) : List Label := d.scope.labels d.outer

def HasSlot (ctx : Context) (d : Draft) (slot : Slot) (t : ValueType) : Prop :=
  (ctx.layout d.maxStack).HasSlot slot t

/-- A sound draft that comes from `d` without opening or closing a scope. -/
structure Advances (ctx : Context) (d d' : Draft) : Prop where
  sound : d'.Sound ctx
  outer : d'.outer = d.outer
  frame : d.scope.SameFrame d'.scope
  room : ∀ t, d.maxStack.get t ≤ d'.maxStack.get t
  body : d.scope.body.toList <+: d'.scope.body.toList
  dead : d.scope.unreachable = true → d'.scope.unreachable = true

variable {ctx : Context} {d d' d'' : Draft} {slot : Slot} {t : ValueType}

namespace Advances

theorem refl (h : d.Sound ctx) : Advances ctx d d :=
  ⟨h, rfl, ⟨rfl, rfl, rfl, rfl⟩, fun _ ↦ Nat.le_refl _, List.prefix_rfl, fun hdead ↦ hdead⟩

/-- Steps that open and close no scope, one after the other. -/
theorem trans (h : Advances ctx d d') (h' : Advances ctx d' d'') : Advances ctx d d'' where
  sound := h'.sound
  outer := h'.outer.trans h.outer
  frame := h.frame.trans h'.frame
  room t := Nat.le_trans (h.room t) (h'.room t)
  body := h.body.trans h'.body
  dead hdead := h'.dead (h.dead hdead)

/-- The layout only grows. -/
theorem le (h : Advances ctx d d') : (ctx.layout d.maxStack).Le (ctx.layout d'.maxStack) :=
  ⟨rfl, rfl, rfl, h.room⟩

theorem labels_eq (h : Advances ctx d d') : d'.labels = d.labels := by
  rw [labels, labels, h.outer, h.frame.labels_eq]

/-- A slot that was there is there still. -/
theorem hasSlot (h : Advances ctx d d') (hs : d.HasSlot ctx slot t) : d'.HasSlot ctx slot t :=
  hs.mono h.le

end Advances

/-- A draft in which only the innermost scope has changed. -/
theorem Sound.advance (h : d.Sound ctx) {scope : Scope} {maxStack : Lanes Nat}
    (hframe : d.scope.SameFrame scope) (hroom : ∀ t, d.maxStack.get t ≤ maxStack.get t)
    (hlive : ∀ t, scope.live.get t = scope.types.count t)
    (hheight : ∀ t, scope.height.get t ≤ maxStack.get t)
    (hbody : d.scope.body.toList <+: scope.body.toList)
    (hfits : ∀ stmt ∈ scope.body.toList,
      stmt ∈ d.scope.body.toList ∨ stmt.Fits (ctx.layout maxStack) d.labels)
    (hstays : d.scope.unreachable = true → scope.unreachable = true)
    (hdead : scope.unreachable = true → ∃ stmt ∈ scope.body.toList, stmt.Diverts) :
    Advances ctx d { d with scope, maxStack } where
  sound := by
    have hle : (ctx.layout d.maxStack).Le (ctx.layout maxStack) := ⟨rfl, rfl, rfl, hroom⟩
    have hs := (Scope.Nested.sound h).mono hle
    refine (Scope.Nested.mono hle h).replace hframe ⟨hlive, hheight, ?_, ?_, hdead⟩
    · intro stmt hstmt
      exact (hfits stmt hstmt).elim (hs.body stmt) id
    · rw [hframe.kind]
      exact hs.kind
  outer := rfl
  frame := hframe
  room := hroom
  body := hbody
  dead := hstays

end Draft

namespace Build

open Draft

variable {ctx : Context} {d d' : Draft} {pos : Nat} {slot : Slot} {t : ValueType}

/-! ## Primitives -/

theorem run_fail_eq_ok {α : Type} {fault : Fault} {a : α} :
    (fail pos fault : Build α).run d = .ok a d' ↔ False := run_throw_eq_ok

theorem emit_eq_ok {stmt : Stmt} {u : Unit} :
    (emit stmt).run d = .ok u d' ↔ { d with scope := d.scope.emit stmt } = d' := run_modify_eq_ok

theorem cut_eq_ok {u : Unit} : cut.run d = .ok u d' ↔ { d with scope := d.scope.cut } = d' :=
  run_modify_eq_ok

/-- A push gives the next slot, and makes room for it. -/
theorem push_eq_ok : (push t).run d = .ok slot d' ↔ d.scope.nextSlot t = slot ∧
    { d with scope := d.scope.push t
             maxStack := d.maxStack.raise (d.scope.push t).height } = d' := by
  rw [push, run_modifyGet_eq_ok, Prod.mk.injEq]

/-- An operand is popped off the scope or, in dead code, out of nothing. -/
theorem pop_eq_ok {expected : Option ValueType}
    (h : (pop pos expected).run d = .ok (t, slot) d') :
    (∃ types, d.scope.types = t :: types ∧ (∀ e, expected = some e → e = t) ∧
      slot = (d.scope.popped t).nextSlot t ∧ d' = { d with scope := d.scope.popped t }) ∨
    (d.scope.types = [] ∧ d.scope.unreachable = true ∧ t = expected.getD .i32 ∧
      slot = d.scope.nextSlot t ∧
      d' = { d with maxStack := d.maxStack.raise (d.scope.height.incr t) }) := by
  simp only [pop, run_bind_eq_ok, run_get_eq_ok] at h
  obtain ⟨_, _, ⟨rfl, rfl⟩, h⟩ := h
  split at h
  · rename_i _ t' types htypes
    left
    simp only [run_bind_eq_ok, run_set_eq_ok] at h
    obtain ⟨-, _, rfl, h⟩ := h
    have hpopped : d.scope.popped t' =
        { d.scope with types, live := d.scope.live.decr t' } := by
      simp only [Scope.popped, htypes, List.tail_cons]
    split at h
    · rename_i e
      simp only [run_ite, ne_eq, ite_not] at h
      split at h
      · rename_i he
        rw [run_pure_eq_ok, Prod.mk.injEq] at h
        obtain ⟨⟨rfl, rfl⟩, rfl⟩ := h
        refine ⟨types, htypes, fun e' he' ↦ ?_, by rw [hpopped], by rw [hpopped]⟩
        exact (Option.some.inj he').symm.trans he
      · simp only [run_bind_eq_ok, run_fail_eq_ok, false_and, exists_false] at h
    · rw [run_pure_eq_ok, Prod.mk.injEq] at h
      obtain ⟨⟨rfl, rfl⟩, rfl⟩ := h
      refine ⟨types, htypes, fun e' he' ↦ ?_, by rw [hpopped], by rw [hpopped]⟩
      simp_all
  · rename_i _ htypes
    right
    simp only [run_ite] at h
    split at h
    · rename_i hdead
      simp only [run_bind_eq_ok, run_set_eq_ok, run_pure_eq_ok, Prod.mk.injEq] at h
      obtain ⟨-, _, rfl, ⟨rfl, rfl⟩, rfl⟩ := h
      exact ⟨htypes, hdead, rfl, rfl, rfl⟩
    · split at h <;> exact (run_fail_eq_ok.mp h).elim

/-- The slot of a pushed operand is one of the layout. -/
theorem push_advances (hd : d.Sound ctx) (h : (push t).run d = .ok slot d') :
    Advances ctx d d' ∧ d'.HasSlot ctx slot t := by
  obtain ⟨rfl, rfl⟩ := push_eq_ok.mp h
  have hs := Scope.Nested.sound hd
  constructor
  · refine hd.advance ⟨rfl, rfl, rfl, rfl⟩ (fun u ↦ ?_) (fun u ↦ ?_) (fun u ↦ ?_)
      List.prefix_rfl (fun stmt hstmt ↦ .inl hstmt) (fun h ↦ h) hs.dead
    · rw [Lanes.get_raise]
      exact Nat.le_max_left _ _
    · rw [Scope.push, Lanes.get_incr, List.count_cons, hs.live]
      by_cases hu : u = t
      · simp [hu]
      · simp [hu, Ne.symm hu]
    · rw [Lanes.get_raise]
      exact Nat.le_max_right _ _
  · refine ⟨rfl, ?_⟩
    simp only [Context.layout, Lanes.get_raise, Scope.height_get, Scope.push, Lanes.get_incr,
      if_true]
    omega

/-- The slot of a popped operand lies in the innermost scope. -/
theorem pop_advances {expected : Option ValueType} (hd : d.Sound ctx)
    (h : (pop pos expected).run d = .ok (t, slot) d') :
    Advances ctx d d' ∧ (∀ e, expected = some e → e = t) ∧ d'.HasSlot ctx slot t ∧
      ∃ height, slot = .stack t height ∧ d.scope.base.get t ≤ height := by
  have hs := Scope.Nested.sound hd
  have hroom := hs.room t
  obtain ⟨types, htypes, hexpected, rfl, rfl⟩ | ⟨htypes, hdead, ht, rfl, rfl⟩ := pop_eq_ok h
  · have hlive : d.scope.live.get t = types.count t + 1 := by
      rw [hs.live, htypes, List.count_cons_self]
    have hslot : (d.scope.popped t).nextSlot t =
        .stack t (d.scope.base.get t + types.count t) := by
      simp only [Scope.nextSlot, Scope.popped, Lanes.get_decr, if_true, hlive,
        Nat.add_sub_cancel]
    refine ⟨?_, hexpected, ?_, _, hslot, Nat.le_add_right _ _⟩
    · refine hd.advance ⟨rfl, rfl, rfl, rfl⟩ (fun u ↦ Nat.le_refl _) (fun u ↦ ?_) (fun u ↦ ?_)
        List.prefix_rfl (fun stmt hstmt ↦ .inl hstmt) (fun h ↦ h) hs.dead
      · rw [Scope.popped, Lanes.get_decr, hs.live, htypes, List.count_cons, List.tail_cons]
        by_cases hu : u = t
        · simp [hu]
        · simp [hu, Ne.symm hu]
      · refine Nat.le_trans ?_ (hs.room u)
        simp only [Scope.height_get, Scope.popped, Lanes.get_decr]
        split <;> omega
    · rw [hslot]
      refine ⟨rfl, ?_⟩
      rw [Scope.height_get, hlive] at hroom
      exact Nat.lt_of_lt_of_le (by omega) hroom
  · refine ⟨?_, ?_, ⟨rfl, ?_⟩, _, rfl, Nat.le_add_right _ _⟩
    · refine hd.advance ⟨rfl, rfl, rfl, rfl⟩ (fun u ↦ ?_) hs.live (fun u ↦ ?_)
        List.prefix_rfl (fun stmt hstmt ↦ .inl hstmt) (fun h ↦ h) hs.dead
      · rw [Lanes.get_raise]
        exact Nat.le_max_left _ _
      · rw [Lanes.get_raise]
        exact Nat.le_trans (hs.room u) (Nat.le_max_left _ _)
    · intro e he
      rw [ht, he, Option.getD_some]
    · simp only [Context.layout, Lanes.get_raise, Lanes.get_incr, if_true, Scope.height_get]
      omega

/-- A statement that fits is appended, or dropped in dead code. -/
theorem emit_advances {stmt : Stmt} {u : Unit} (hd : d.Sound ctx)
    (hstmt : stmt.Fits (ctx.layout d.maxStack) d.labels) (h : (emit stmt).run d = .ok u d') :
    Advances ctx d d' := by
  obtain rfl := emit_eq_ok.mp h
  have hs := Scope.Nested.sound hd
  refine hd.advance ⟨rfl, rfl, rfl, rfl⟩ (fun _ ↦ Nat.le_refl _) hs.live hs.room ?_
    (fun stmt' hstmt' ↦ ?_) (fun h ↦ h) (fun hdead ↦ ?_)
  · simp [Scope.emit]
  · simp only [Scope.emit, Array.toList_push, List.mem_append, List.mem_singleton] at hstmt'
    obtain hold | rfl := hstmt'
    · exact .inl hold
    · exact .inr hstmt
  · obtain ⟨stmt', hmem, hdiverts⟩ := hs.dead hdead
    exact ⟨stmt', by simp [Scope.emit, hmem], hdiverts⟩

/-- What follows a statement that control does not get past is dead. -/
theorem emit_cut_advances {stmt : Stmt} {u : Unit} (hd : d.Sound ctx)
    (hstmt : stmt.Fits (ctx.layout d.maxStack) d.labels) (hdiverts : stmt.Diverts)
    (h : (do emit stmt; cut).run d = .ok u d') : Advances ctx d d' := by
  obtain ⟨_, d₁, hemit, hcut⟩ := run_bind_eq_ok.mp h
  have hadv := emit_advances hd hstmt hemit
  obtain rfl := emit_eq_ok.mp hemit
  obtain rfl := cut_eq_ok.mp hcut
  have hs := Scope.Nested.sound hadv.sound
  refine hadv.trans (hadv.sound.advance ⟨rfl, rfl, rfl, rfl⟩ (fun _ ↦ Nat.le_refl _) ?_ ?_
    List.prefix_rfl (fun stmt' hstmt' ↦ .inl hstmt') (fun _ ↦ rfl)
    (fun _ ↦ ⟨stmt, by simp [Scope.emit, Scope.cut], hdiverts⟩))
  · intro u
    simp [Scope.cut]
  · intro u
    refine Nat.le_trans ?_ (hs.room u)
    simp only [Scope.height_get, Scope.cut, Lanes.get_zero]
    omega

/-! ## Optional and repeated operands -/

/-- An operand of the expected type comes off, from a slot of the scope itself and not below it. -/
theorem popType_advances (hd : d.Sound ctx) (h : (popType pos t).run d = .ok slot d') :
    Advances ctx d d' ∧ d'.HasSlot ctx slot t ∧
      ∃ height, slot = .stack t height ∧ d.scope.base.get t ≤ height := by
  simp only [popType, run_bind_eq_ok, run_pure_eq_ok] at h
  obtain ⟨⟨t', _⟩, _, hpop, rfl, rfl⟩ := h
  obtain ⟨hadv, hexpected, hslot, hheight⟩ := pop_advances hd hpop
  obtain rfl := hexpected t rfl
  exact ⟨hadv, hslot, hheight⟩

/-- So does an operand that a type may or may not ask for. -/
theorem pop?_advances {t : Option ValueType} {slot : Option Slot} (hd : d.Sound ctx)
    (h : (pop? pos t).run d = .ok slot d') :
    Advances ctx d d' ∧ Option.Rel (d'.HasSlot ctx) slot t ∧
      ∀ u, t = some u → ∃ height, slot = some (.stack u height) ∧
        d.scope.base.get u ≤ height := by
  cases t with
  | none =>
    obtain ⟨rfl, rfl⟩ := run_pure_eq_ok.mp h
    exact ⟨.refl hd, .none, fun u hu ↦ by cases hu⟩
  | some t =>
    simp only [pop?, run_bind_eq_ok, run_pure_eq_ok] at h
    obtain ⟨slot, _, hpop, rfl, rfl⟩ := h
    obtain ⟨hadv, hslot, height, rfl, hle⟩ := popType_advances hd hpop
    refine ⟨hadv, .some hslot, fun u hu ↦ ?_⟩
    obtain rfl := Option.some.inj hu
    exact ⟨height, rfl, hle⟩

theorem push?_advances {t : Option ValueType} {slot : Option Slot} (hd : d.Sound ctx)
    (h : (push? t).run d = .ok slot d') :
    Advances ctx d d' ∧ Option.Rel (d'.HasSlot ctx) slot t := by
  cases t with
  | none =>
    obtain ⟨rfl, rfl⟩ := run_pure_eq_ok.mp h
    exact ⟨.refl hd, .none⟩
  | some t =>
    simp only [push?, run_bind_eq_ok, run_pure_eq_ok] at h
    obtain ⟨slot, _, hpush, rfl, rfl⟩ := h
    obtain ⟨hadv, hslot⟩ := push_advances hd hpush
    exact ⟨hadv, .some hslot⟩

/-- Arguments come off from the last to the first, each of its own type. -/
theorem popArgs_advances {ts : List ValueType} {slots : List Slot} (hd : d.Sound ctx)
    (h : (popArgs pos ts).run d = .ok slots d') :
    Advances ctx d d' ∧ List.Forall₂ (d'.HasSlot ctx) slots ts := by
  induction ts generalizing d' slots with
  | nil =>
    obtain ⟨rfl, rfl⟩ := run_pure_eq_ok.mp h
    exact ⟨.refl hd, .nil⟩
  | cons t ts ih =>
    simp only [popArgs, run_bind_eq_ok, run_pure_eq_ok] at h
    obtain ⟨rest, d₁, hrest, slot, _, hpop, rfl, rfl⟩ := h
    obtain ⟨hadv, hslots⟩ := ih hrest
    obtain ⟨hadv', hslot, -⟩ := popType_advances hadv.sound hpop
    exact ⟨hadv.trans hadv', .cons hslot (hslots.imp fun _ _ ↦ hadv'.hasSlot)⟩

/-- A pop emits nothing. -/
theorem popType_body (h : (popType pos t).run d = .ok slot d') :
    d'.scope.body.toList = d.scope.body.toList := by
  simp only [popType, run_bind_eq_ok, run_pure_eq_ok] at h
  obtain ⟨⟨t', _⟩, _, hpop, -, rfl⟩ := h
  obtain ⟨_, -, -, -, rfl⟩ | ⟨-, -, -, -, rfl⟩ := pop_eq_ok hpop <;> rfl

/-! ## Branches -/

/-- A branch depth that is accepted leads to a scope. -/
theorem scopeAt_eq_ok {depth : Nat} {s : Scope} (h : (scopeAt pos depth).run d = .ok s d') :
    d.scopes[depth]? = some s ∧ d = d' := by
  simp only [scopeAt, run_bind_eq_ok, run_get_eq_ok] at h
  obtain ⟨_, _, ⟨rfl, rfl⟩, h⟩ := h
  split at h
  · rename_i hs
    obtain ⟨rfl, rfl⟩ := run_pure_eq_ok.mp h
    exact ⟨hs, rfl⟩
  · exact (run_fail_eq_ok.mp h).elim

/-- All scopes of a branch table take the same operand. -/
theorem tableScopes_eq_ok {label : Option ValueType} {depths : List Nat} {scopes : List Scope}
    (h : (tableScopes pos label depths).run d = .ok scopes d') :
    List.Forall₂ (fun depth s ↦ d.scopes[depth]? = some s ∧ s.labelType = label) depths scopes ∧
      d = d' := by
  induction depths generalizing scopes with
  | nil =>
    obtain ⟨rfl, rfl⟩ := run_pure_eq_ok.mp h
    exact ⟨.nil, rfl⟩
  | cons depth depths ih =>
    simp only [tableScopes, run_bind_eq_ok] at h
    obtain ⟨s, _, hscope, h⟩ := h
    obtain ⟨hs, rfl⟩ := scopeAt_eq_ok hscope
    rw [run_ite] at h
    split at h
    · simp only [run_bind_eq_ok, run_fail_eq_ok, false_and, exists_false] at h
    · rename_i hlabel
      simp only [run_bind_eq_ok, run_pure_eq_ok] at h
      obtain ⟨rest, _, hrest, rfl, rfl⟩ := h
      obtain ⟨hscopes, rfl⟩ := ih hrest
      exact ⟨.cons ⟨hs, not_not.mp hlabel⟩ hscopes, rfl⟩

/-- A branch to a scope around a point of the body, with the operand that the scope takes in a slot
of the innermost scope. -/
theorem target_fits {depth : Nat} {s : Scope} (hd : d.Sound ctx) (hs : d.scopes[depth]? = some s)
    (hadv : Advances ctx d d') {carried : Option Slot}
    (hcarried : Option.Rel (d'.HasSlot ctx) carried s.labelType)
    (hheight : ∀ t, s.labelType = some t → ∃ height, carried = some (.stack t height) ∧
      d.scope.base.get t ≤ height) :
    (s.target carried).Fits (ctx.layout d'.maxStack) d'.labels := by
  rw [hadv.labels_eq]
  have hbase := Scope.Nested.base_le hd hs
  obtain ⟨hkind, hlabel, hnumber⟩ | ⟨hkind, hresult⟩ := Scope.Nested.at_depth hd hs
  · have hnumber' : s.label = d.labels.length - depth := by
      rw [hnumber, labels, Scope.length_labels]
    by_cases hloop : s.kind = .loop
    · have htarget : s.target carried = .restart s.label := by
        simp only [Scope.target, hloop]
      rw [htarget, hnumber']
      exact .restart hlabel (by rw [Scope.asLabel, hloop]; rfl)
    · have htarget : s.target carried =
          .leave s.label (do return (← carried, s.outputSlot (← s.result))) := by
        unfold Scope.target
        split <;> first | contradiction | rfl
      have htype : s.labelType = s.result := by
        unfold Scope.labelType
        split <;> first | contradiction | rfl
      rw [htype] at hcarried hheight
      rw [htarget, hnumber']
      refine .leave hlabel ?_ ?_
      · unfold Scope.asLabel Scope.Kind.isLoop
        split <;> first | contradiction | rfl
      · cases hresult : s.result with
        | none =>
          rw [hresult] at hcarried
          cases hcarried
          exact hresult
        | some t =>
          obtain ⟨height, rfl, hle⟩ := hheight t hresult
          rw [hresult] at hcarried
          cases hcarried with
          | some hslot =>
            -- The value lands no higher than it was, so the frame has room for it there.
            have hlt := Nat.lt_of_le_of_lt (Nat.le_trans (hbase t) hle) hslot.2
            exact ⟨t, hresult, hslot, rfl, rfl, hlt⟩
  -- A branch to the outermost scope returns from the function.
  · have htarget : s.target carried = .ret carried := by
      simp only [Scope.target, hkind]
    have htype : s.labelType = ctx.type.result := by
      simp only [Scope.labelType, hkind]
      exact hresult
    rw [htarget]
    rw [htype] at hcarried
    exact .ret hcarried

/-! ## Scopes -/

/-- A scope is opened where the operands of its parent end. -/
theorem openScope_eq_ok {kind : Scope.Kind} {result : Option ValueType} {u : Unit}
    (h : (openScope ctx pos kind result).run d = .ok u d') :
    d' = { d with
      scope := { kind, result, label := d.scopes.length, base := d.scope.height, offset := pos }
      outer := d.scopes } := by
  simp only [openScope, run_bind_eq_ok, run_get_eq_ok] at h
  obtain ⟨_, _, ⟨rfl, rfl⟩, h⟩ := h
  rw [run_ite] at h
  split at h
  · simp only [run_bind_eq_ok, run_fail_eq_ok, false_and, exists_false] at h
  · exact (run_set_eq_ok.mp h).symm

/-- A scope that has just been opened is empty, and sound in those around it. -/
theorem openScope_sound {kind : Scope.Kind} {result : Option ValueType} {u : Unit}
    (hd : d.Sound ctx) (h : (openScope ctx pos kind result).run d = .ok u d')
    (hfunction : kind ≠ .function) (hkind : ∀ ls, kind.Fits (ctx.layout d.maxStack) ls) :
    d'.Sound ctx ∧ d'.outer.length = d.outer.length + 1 := by
  obtain rfl := openScope_eq_ok h
  have hs := Scope.Nested.sound hd
  refine ⟨⟨hd, hfunction, rfl, rfl, fun t ↦ ?_, fun t ↦ ?_, ?_, hkind _, ?_⟩, rfl⟩
  · simp
  · simpa [Scope.height_get] using hs.room t
  · simp
  · simp

/-- At the end of a scope there is its result and nothing else, or nothing at all in dead code. -/
theorem checkEnd_eq_ok {s : Scope} {u : Unit} (h : (checkEnd pos s).run d = .ok u d') :
    d = d' ∧ ((s.result = none ∧ s.types = []) ∨ (∃ t, s.result = some t ∧ s.types = [t]) ∨
      (s.unreachable = true ∧ s.types = [])) := by
  cases hresult : s.result with
  | none =>
    simp only [checkEnd, hresult, Option.isSome_none, Bool.false_eq_true, if_false, run_ite] at h
    split at h
    · simp only [run_bind_eq_ok, run_fail_eq_ok, false_and, exists_false] at h
    · rename_i harity
      obtain ⟨-, rfl⟩ := run_pure_eq_ok.mp h
      exact ⟨rfl, .inl ⟨rfl, List.length_eq_zero_iff.mp (by omega)⟩⟩
  | some want =>
    simp only [checkEnd, hresult, Option.isSome_some, if_true, run_ite] at h
    split at h
    · simp only [run_bind_eq_ok, run_fail_eq_ok, false_and, exists_false] at h
    · rename_i harity
      cases htypes : s.types with
      | nil =>
        rw [htypes] at h harity
        obtain ⟨-, rfl⟩ := run_pure_eq_ok.mp h
        exact ⟨rfl, .inr (.inr ⟨by simpa using harity, rfl⟩)⟩
      | cons got rest =>
        rw [htypes] at h harity
        dsimp only at h
        rw [run_ite] at h
        split at h
        · exact (run_fail_eq_ok.mp h).elim
        · rename_i hsame
          obtain ⟨-, rfl⟩ := run_pure_eq_ok.mp h
          have hrest : rest = [] :=
            List.length_eq_zero_iff.mp (by simp only [List.length_cons] at harity; omega)
          rw [hrest, ← not_not.mp hsame]
          exact ⟨rfl, .inr (.inl ⟨want, rfl, rfl⟩)⟩

/-- Live code leaves the result of its scope and nothing else. -/
theorem types_of_checkEnd {s : Scope} {u : Unit} (h : (checkEnd pos s).run d = .ok u d')
    (hlive : s.unreachable = false) : s.types = s.result.toList := by
  obtain ⟨-, ⟨hresult, htypes⟩ | ⟨t, hresult, htypes⟩ | ⟨hdead, -⟩⟩ := checkEnd_eq_ok h
  · rw [hresult, htypes]
    rfl
  · rw [hresult, htypes]
    rfl
  · rw [hlive] at hdead
    cases hdead

/-- The first arm is kept in the kind of the scope, and the second starts without operands. -/
theorem beginElse_eq_ok {u : Unit} (h : (beginElse pos).run d = .ok u d') :
    ∃ cond, d.scope.kind = .thenArm cond ∧
      (d.scope.unreachable = false → d.scope.types = d.scope.result.toList) ∧
      d' = { d with
        scope := { d.scope with
          kind := .elseArm cond d.scope.body.toList
          types := []
          live := Lanes.zero
          unreachable := false
          body := #[] } } := by
  simp only [beginElse, run_bind_eq_ok, run_get_eq_ok] at h
  obtain ⟨_, _, ⟨rfl, rfl⟩, h⟩ := h
  split at h
  · rename_i cond hkind
    simp only [run_bind_eq_ok, run_set_eq_ok] at h
    obtain ⟨_, _, hend, rfl⟩ := h
    have htypes := types_of_checkEnd hend
    obtain ⟨rfl, -⟩ := checkEnd_eq_ok hend
    exact ⟨cond, hkind, htypes, rfl⟩
  · exact (run_fail_eq_ok.mp h).elim

/-- The statements of the first arm fit where those of the second will stand. -/
theorem beginElse_sound {u : Unit} (hd : d.Sound ctx) (h : (beginElse pos).run d = .ok u d') :
    d'.Sound ctx ∧ d'.outer.length = d.outer.length := by
  obtain ⟨cond, hkind, -, rfl⟩ := beginElse_eq_ok h
  obtain ⟨s, outer, maxStack⟩ := d
  change s.kind = .thenArm cond at hkind
  cases outer with
  | nil => exact absurd (hd.1.symm.trans hkind) (by simp)
  | cons p outer =>
    obtain ⟨hp, -, hlabel, hbase, hs⟩ := hd
    have hcond := hs.kind
    have hroom := hs.room
    simp only [hkind, Scope.Kind.Fits] at hcond
    simp only [Scope.labels, Scope.asLabel, hkind, Scope.Kind.isLoop] at hs
    refine ⟨⟨hp, by simp, hlabel, hbase, fun t ↦ ?_, fun t ↦ ?_, ?_, ⟨hcond, hs.body⟩, ?_⟩, rfl⟩
    · simp
    · refine Nat.le_trans ?_ (hroom t)
      simp [Scope.height_get]
    · simp
    · simp

/-- The statement of a scope is well formed in the scope around it. -/
theorem closed_fits {L : Layout} {s p : Scope} {outer : List Scope} {stmt : Stmt}
    (hs : s.Nested L (p :: outer)) (h : (closed s).run d = .ok stmt d') :
    d = d' ∧ stmt.Fits L (p.labels outer) := by
  obtain ⟨-, hfunction, hnumber, -, hs⟩ := hs
  have hlabel : s.label = (p.labels outer).length + 1 := by
    rw [hnumber, Scope.length_labels]
  have hbody := hs.body
  have hkind := hs.kind
  unfold closed at h
  simp only [Scope.labels, Scope.asLabel] at hbody hkind
  cases hk : s.kind with
  | function => contradiction
  | block =>
    simp only [hk, run_pure_eq_ok] at h
    obtain ⟨rfl, rfl⟩ := h
    rw [hk] at hbody
    exact ⟨rfl, hlabel ▸ .block s.result s.base hbody⟩
  | loop =>
    simp only [hk, run_pure_eq_ok] at h
    obtain ⟨rfl, rfl⟩ := h
    rw [hk] at hbody
    exact ⟨rfl, hlabel ▸ .loop s.result s.base hbody⟩
  | thenArm cond =>
    simp only [hk, run_ite] at h
    split at h
    · exact (run_fail_eq_ok.mp h).elim
    · obtain ⟨rfl, rfl⟩ := run_pure_eq_ok.mp h
      rw [hk] at hbody hkind
      exact ⟨rfl, hlabel ▸ .conditional s.result s.base hkind hbody (by simp)⟩
  | elseArm cond thenBody =>
    simp only [hk, run_pure_eq_ok] at h
    obtain ⟨rfl, rfl⟩ := h
    rw [hk] at hbody hkind
    exact ⟨rfl, hlabel ▸ .conditional s.result s.base hkind.1 hkind.2 hbody⟩

/-- A scope that ends becomes a statement that fits in its parent, and its result an operand there.
-/
theorem endScope_sound {s parent : Scope} {outer : List Scope} {u : Unit} (hd : d.Sound ctx)
    (hscope : d.scope = s) (houter : d.outer = parent :: outer)
    (h : (endScope pos s parent outer).run d = .ok u d') :
    d'.Sound ctx ∧ d'.outer.length = outer.length := by
  simp only [endScope, run_bind_eq_ok, run_modify_eq_ok, run_pure_eq_ok] at h
  obtain ⟨_, _, hend, stmt, _, hclosed, _, _, rfl, _, d₁, hemit, _, _, hpush, -, rfl⟩ := h
  obtain ⟨rfl, -⟩ := checkEnd_eq_ok hend
  unfold Draft.Sound at hd
  rw [hscope, houter] at hd
  obtain ⟨rfl, hstmt⟩ := closed_fits hd hclosed
  have hparent : ({ d with scope := parent, outer } : Draft).Sound ctx := hd.1
  have hadv := emit_advances hparent hstmt hemit
  have hadv' := hadv.trans (push?_advances hadv.sound hpush).1
  exact ⟨hadv'.sound, congrArg List.length hadv'.outer⟩

/-- What the scope around it looks like afterwards. -/
theorem endScope_eq_ok {s parent : Scope} {outer : List Scope} {u : Unit}
    (h : (endScope pos s parent outer).run d = .ok u d') :
    ∃ stmt d₁, (s.unreachable = false → s.types = s.result.toList) ∧
      (closed s).run d = .ok stmt d₁ ∧ d'.scope = parent.after stmt s.result ∧
      d'.outer = outer := by
  simp only [endScope, run_bind_eq_ok, run_modify_eq_ok, run_pure_eq_ok] at h
  obtain ⟨_, _, hend, stmt, d₁, hclosed, _, _, rfl, _, d₂, hemit, _, _, hpush, -, rfl⟩ := h
  have htypes := types_of_checkEnd hend
  obtain ⟨rfl, -⟩ := checkEnd_eq_ok hend
  obtain rfl := emit_eq_ok.mp hemit
  refine ⟨stmt, d₁, htypes, hclosed, ?_⟩
  cases hresult : s.result with
  | none =>
    rw [hresult] at hpush
    obtain ⟨-, rfl⟩ := run_pure_eq_ok.mp hpush
    exact ⟨rfl, rfl⟩
  | some t =>
    rw [hresult] at hpush
    simp only [push?, run_bind_eq_ok, run_pure_eq_ok] at hpush
    obtain ⟨slot, _, hpush, -, rfl⟩ := hpush
    obtain ⟨-, rfl⟩ := push_eq_ok.mp hpush
    exact ⟨rfl, rfl⟩

/-! ## Instructions -/

/-- A function index that is accepted exists. -/
theorem funcType_eq_ok {index : Nat} {type : FuncType}
    (h : (funcType ctx pos index).run d = .ok type d') :
    ctx.module.funcType? index = some type ∧ d = d' := by
  unfold funcType at h
  split at h
  · rename_i htype
    obtain ⟨rfl, rfl⟩ := run_pure_eq_ok.mp h
    exact ⟨htype, rfl⟩
  · exact (run_fail_eq_ok.mp h).elim

theorem typeAt_eq_ok {index : Nat} {type : FuncType}
    (h : (typeAt ctx pos index).run d = .ok type d') :
    ctx.module.types[index]? = some type ∧ d = d' := by
  unfold typeAt at h
  split at h
  · rename_i htype
    obtain ⟨rfl, rfl⟩ := run_pure_eq_ok.mp h
    exact ⟨htype, rfl⟩
  · exact (run_fail_eq_ok.mp h).elim

theorem localType_eq_ok {index : Nat} (h : (localType ctx pos index).run d = .ok t d') :
    ctx.locals[index]? = some t ∧ d = d' := by
  unfold localType at h
  split at h
  · rename_i htype
    obtain ⟨rfl, rfl⟩ := run_pure_eq_ok.mp h
    exact ⟨htype, rfl⟩
  · exact (run_fail_eq_ok.mp h).elim

theorem globalType_eq_ok {index : Nat} {g : GlobalType}
    (h : (globalType ctx pos index).run d = .ok g d') :
    ctx.module.globalType? index = some g ∧ d = d' := by
  unfold globalType at h
  split at h
  · rename_i htype
    obtain ⟨rfl, rfl⟩ := run_pure_eq_ok.mp h
    exact ⟨htype, rfl⟩
  · exact (run_fail_eq_ok.mp h).elim

theorem requireTable_eq_ok {u : Unit} (h : (requireTable ctx pos).run d = .ok u d') :
    ctx.module.spaceSize .table ≠ 0 ∧ d = d' := by
  rw [requireTable, run_ite] at h
  split at h
  · exact (run_fail_eq_ok.mp h).elim
  · rename_i htable
    exact ⟨htable, (run_pure_eq_ok.mp h).2⟩

theorem requireMemory_eq_ok {u : Unit} (h : (requireMemory ctx pos).run d = .ok u d') :
    ctx.module.spaceSize .memory ≠ 0 ∧ d = d' := by
  rw [requireMemory, run_ite] at h
  split at h
  · exact (run_fail_eq_ok.mp h).elim
  · rename_i hmemory
    exact ⟨hmemory, (run_pure_eq_ok.mp h).2⟩

/-- An access that is accepted has a memory to go to. -/
theorem checkAccess_eq_ok {access : Access} {arg : MemArg} {u : Unit}
    (h : (checkAccess ctx pos access arg).run d = .ok u d') :
    ctx.module.spaceSize .memory ≠ 0 ∧ d = d' := by
  simp only [checkAccess, run_bind_eq_ok] at h
  obtain ⟨_, _, hrequire, h⟩ := h
  obtain ⟨hmemory, rfl⟩ := requireMemory_eq_ok hrequire
  rw [run_ite] at h
  split at h
  · exact (run_fail_eq_ok.mp h).elim
  · exact ⟨hmemory, (run_pure_eq_ok.mp h).2⟩

/-- An instruction that opens and closes no scope advances a sound draft, one case for each: its
operands come off slots of the layout, and its statement fits. -/
theorem step_advances {i : Instr} {u : Unit} (hi : i.isStructural = false) (hd : d.Sound ctx)
    (h : (step ctx pos i).run d = .ok u d') : Advances ctx d d' := by
  cases i with
  | block result | loop result | conditional result | otherwise | close => cases hi
  | unreachable => exact emit_cut_advances hd .unreachable trivial h
  | nop =>
    obtain ⟨-, rfl⟩ := run_pure_eq_ok.mp h
    exact .refl hd
  | br depth =>
    obtain ⟨s, _, hscope, h⟩ := run_bind_eq_ok.mp h
    obtain ⟨hs, rfl⟩ := scopeAt_eq_ok hscope
    obtain ⟨carried, d₁, hpop, h⟩ := run_bind_eq_ok.mp h
    obtain ⟨hadv, hcarried, hheight⟩ := pop?_advances hd hpop
    have htarget := target_fits hd hs hadv hcarried hheight
    exact hadv.trans (emit_cut_advances hadv.sound (.branch htarget) trivial h)
  | brIf depth =>
    obtain ⟨s, _, hscope, h⟩ := run_bind_eq_ok.mp h
    obtain ⟨hs, rfl⟩ := scopeAt_eq_ok hscope
    obtain ⟨cond, d₁, hpop, h⟩ := run_bind_eq_ok.mp h
    obtain ⟨hadv₁, hcond, -⟩ := popType_advances hd hpop
    obtain ⟨carried, d₂, hpop, h⟩ := run_bind_eq_ok.mp h
    obtain ⟨hadv₂, hcarried, hheight⟩ := pop?_advances hadv₁.sound hpop
    rw [hadv₁.frame.base] at hheight
    have htarget := target_fits hd hs (hadv₁.trans hadv₂) hcarried hheight
    obtain ⟨_, d₃, hpush, h⟩ := run_bind_eq_ok.mp h
    obtain ⟨hadv₃, -⟩ := push?_advances hadv₂.sound hpush
    rw [← hadv₃.labels_eq] at htarget
    exact ((hadv₁.trans hadv₂).trans hadv₃).trans (emit_advances hadv₃.sound
      (.branchIf (hadv₃.hasSlot (hadv₂.hasSlot hcond)) (htarget.mono hadv₃.le)) h)
  | brTable depths default =>
    obtain ⟨s, _, hscope, h⟩ := run_bind_eq_ok.mp h
    obtain ⟨hs, rfl⟩ := scopeAt_eq_ok hscope
    obtain ⟨scopes, _, htable, h⟩ := run_bind_eq_ok.mp h
    obtain ⟨hscopes, rfl⟩ := tableScopes_eq_ok htable
    obtain ⟨index, d₁, hpop, h⟩ := run_bind_eq_ok.mp h
    obtain ⟨hadv₁, hindex, -⟩ := popType_advances hd hpop
    obtain ⟨carried, d₂, hpop, h⟩ := run_bind_eq_ok.mp h
    obtain ⟨hadv₂, hcarried, hheight⟩ := pop?_advances hadv₁.sound hpop
    rw [hadv₁.frame.base] at hheight
    have htarget := target_fits hd hs (hadv₁.trans hadv₂) hcarried hheight
    refine (hadv₁.trans hadv₂).trans (emit_cut_advances hadv₂.sound
      (.branchTable (hadv₂.hasSlot hindex) (fun target hmem ↦ ?_) htarget) trivial h)
    obtain ⟨s', hscope, rfl⟩ := List.mem_map.mp hmem
    obtain ⟨depth, -, hs', hlabel⟩ := forall₂_exists_left hscopes hscope
    rw [← hlabel] at hcarried hheight
    exact target_fits hd hs' (hadv₁.trans hadv₂) hcarried hheight
  | ret =>
    obtain ⟨value, d₁, hpop, h⟩ := run_bind_eq_ok.mp h
    obtain ⟨hadv, hvalue, -⟩ := pop?_advances hd hpop
    exact hadv.trans (emit_cut_advances hadv.sound (.ret hvalue) trivial h)
  | call func =>
    obtain ⟨callee, _, hlook, h⟩ := run_bind_eq_ok.mp h
    obtain ⟨hfunc, rfl⟩ := funcType_eq_ok hlook
    obtain ⟨args, d₁, hpop, h⟩ := run_bind_eq_ok.mp h
    obtain ⟨hadv₁, hargs⟩ := popArgs_advances hd hpop
    obtain ⟨result, d₂, hpush, h⟩ := run_bind_eq_ok.mp h
    obtain ⟨hadv₂, hresult⟩ := push?_advances hadv₁.sound hpush
    exact (hadv₁.trans hadv₂).trans (emit_advances hadv₂.sound
      (.call hfunc (hargs.imp fun _ _ ↦ hadv₂.hasSlot) hresult) h)
  | callIndirect type =>
    obtain ⟨_, _, hrequire, h⟩ := run_bind_eq_ok.mp h
    obtain ⟨htable, rfl⟩ := requireTable_eq_ok hrequire
    obtain ⟨callee, _, hlook, h⟩ := run_bind_eq_ok.mp h
    obtain ⟨htype, rfl⟩ := typeAt_eq_ok hlook
    obtain ⟨index, d₁, hpop, h⟩ := run_bind_eq_ok.mp h
    obtain ⟨hadv₁, hindex, -⟩ := popType_advances hd hpop
    obtain ⟨args, d₂, hpop, h⟩ := run_bind_eq_ok.mp h
    obtain ⟨hadv₂, hargs⟩ := popArgs_advances hadv₁.sound hpop
    obtain ⟨result, d₃, hpush, h⟩ := run_bind_eq_ok.mp h
    obtain ⟨hadv₃, hresult⟩ := push?_advances hadv₂.sound hpush
    exact ((hadv₁.trans hadv₂).trans hadv₃).trans (emit_advances hadv₃.sound
      (.callIndirect htable htype (hadv₃.hasSlot (hadv₂.hasSlot hindex))
        (hargs.imp fun _ _ ↦ hadv₃.hasSlot) hresult) h)
  | drop =>
    obtain ⟨⟨t, slot⟩, d₁, hpop, h⟩ := run_bind_eq_ok.mp h
    obtain ⟨-, rfl⟩ := run_pure_eq_ok.mp h
    have hpop : (pop pos none).run d = .ok (t, slot) d₁ := hpop
    exact (pop_advances hd hpop).1
  | select =>
    obtain ⟨cond, d₁, hpop, h⟩ := run_bind_eq_ok.mp h
    obtain ⟨hadv₁, hcond, -⟩ := popType_advances hd hpop
    obtain ⟨⟨t, ifFalse⟩, d₂, hpop, h⟩ := run_bind_eq_ok.mp h
    have hpop : (pop pos none).run d₁ = .ok (t, ifFalse) d₂ := hpop
    obtain ⟨hadv₂, -, hifFalse, -⟩ := pop_advances hadv₁.sound hpop
    obtain ⟨dst, d₃, hpop, h⟩ := run_bind_eq_ok.mp h
    obtain ⟨hadv₃, hdst, -⟩ := popType_advances hadv₂.sound hpop
    obtain ⟨_, d₄, hpush, h⟩ := run_bind_eq_ok.mp h
    obtain ⟨hadv₄, -⟩ := push_advances hadv₃.sound hpush
    have hadv := hadv₃.trans hadv₄
    exact ((hadv₁.trans hadv₂).trans hadv).trans (emit_advances hadv₄.sound
      (.select (hadv₄.hasSlot hdst) (hadv.hasSlot hifFalse)
        (hadv.hasSlot (hadv₂.hasSlot hcond))) h)
  | localGet index =>
    obtain ⟨t, _, hlook, h⟩ := run_bind_eq_ok.mp h
    obtain ⟨htype, rfl⟩ := localType_eq_ok hlook
    obtain ⟨dst, d₁, hpush, h⟩ := run_bind_eq_ok.mp h
    obtain ⟨hadv, hdst⟩ := push_advances hd hpush
    have hlocal : d₁.HasSlot ctx (.local index) t := htype
    exact hadv.trans (emit_advances hadv.sound (.copy hdst hlocal) h)
  | localSet index =>
    obtain ⟨t, _, hlook, h⟩ := run_bind_eq_ok.mp h
    obtain ⟨htype, rfl⟩ := localType_eq_ok hlook
    obtain ⟨src, d₁, hpop, h⟩ := run_bind_eq_ok.mp h
    obtain ⟨hadv, hsrc, -⟩ := popType_advances hd hpop
    have hlocal : d₁.HasSlot ctx (.local index) t := htype
    exact hadv.trans (emit_advances hadv.sound (.copy hlocal hsrc) h)
  | localTee index =>
    obtain ⟨t, _, hlook, h⟩ := run_bind_eq_ok.mp h
    obtain ⟨htype, rfl⟩ := localType_eq_ok hlook
    obtain ⟨src, d₁, hpop, h⟩ := run_bind_eq_ok.mp h
    obtain ⟨hadv₁, hsrc, -⟩ := popType_advances hd hpop
    obtain ⟨_, d₂, hpush, h⟩ := run_bind_eq_ok.mp h
    obtain ⟨hadv₂, -⟩ := push_advances hadv₁.sound hpush
    have hlocal : d₂.HasSlot ctx (.local index) t := htype
    exact (hadv₁.trans hadv₂).trans
      (emit_advances hadv₂.sound (.copy hlocal (hadv₂.hasSlot hsrc)) h)
  | globalGet index =>
    obtain ⟨g, _, hlook, h⟩ := run_bind_eq_ok.mp h
    obtain ⟨htype, rfl⟩ := globalType_eq_ok hlook
    obtain ⟨dst, d₁, hpush, h⟩ := run_bind_eq_ok.mp h
    obtain ⟨hadv, hdst⟩ := push_advances hd hpush
    exact hadv.trans (emit_advances hadv.sound (.globalGet htype hdst) h)
  | globalSet index =>
    obtain ⟨g, _, hlook, h⟩ := run_bind_eq_ok.mp h
    obtain ⟨htype, rfl⟩ := globalType_eq_ok hlook
    dsimp only at h
    rw [run_ite] at h
    split at h
    · simp only [run_bind_eq_ok, run_fail_eq_ok, false_and, exists_false] at h
    · rename_i hmutable
      obtain ⟨src, d₁, hpop, h⟩ := run_bind_eq_ok.mp h
      obtain ⟨hadv, hsrc, -⟩ := popType_advances hd hpop
      exact hadv.trans
        (emit_advances hadv.sound (.globalSet htype (by simpa using hmutable) hsrc) h)
  | load access arg =>
    obtain ⟨_, _, hcheck, h⟩ := run_bind_eq_ok.mp h
    obtain ⟨hmemory, rfl⟩ := checkAccess_eq_ok hcheck
    obtain ⟨addr, d₁, hpop, h⟩ := run_bind_eq_ok.mp h
    obtain ⟨hadv₁, haddr, -⟩ := popType_advances hd hpop
    obtain ⟨dst, d₂, hpush, h⟩ := run_bind_eq_ok.mp h
    obtain ⟨hadv₂, hdst⟩ := push_advances hadv₁.sound hpush
    exact (hadv₁.trans hadv₂).trans
      (emit_advances hadv₂.sound (.load hmemory hdst (hadv₂.hasSlot haddr)) h)
  | store access arg =>
    obtain ⟨_, _, hcheck, h⟩ := run_bind_eq_ok.mp h
    obtain ⟨hmemory, rfl⟩ := checkAccess_eq_ok hcheck
    obtain ⟨value, d₁, hpop, h⟩ := run_bind_eq_ok.mp h
    obtain ⟨hadv₁, hvalue, -⟩ := popType_advances hd hpop
    obtain ⟨addr, d₂, hpop, h⟩ := run_bind_eq_ok.mp h
    obtain ⟨hadv₂, haddr, -⟩ := popType_advances hadv₁.sound hpop
    exact (hadv₁.trans hadv₂).trans
      (emit_advances hadv₂.sound (.store hmemory haddr (hadv₂.hasSlot hvalue)) h)
  | memorySize =>
    obtain ⟨_, _, hrequire, h⟩ := run_bind_eq_ok.mp h
    obtain ⟨hmemory, rfl⟩ := requireMemory_eq_ok hrequire
    obtain ⟨dst, d₁, hpush, h⟩ := run_bind_eq_ok.mp h
    obtain ⟨hadv, hdst⟩ := push_advances hd hpush
    exact hadv.trans (emit_advances hadv.sound (.memorySize hmemory hdst) h)
  | memoryGrow =>
    obtain ⟨_, _, hrequire, h⟩ := run_bind_eq_ok.mp h
    obtain ⟨hmemory, rfl⟩ := requireMemory_eq_ok hrequire
    obtain ⟨delta, d₁, hpop, h⟩ := run_bind_eq_ok.mp h
    obtain ⟨hadv₁, hdelta, -⟩ := popType_advances hd hpop
    obtain ⟨dst, d₂, hpush, h⟩ := run_bind_eq_ok.mp h
    obtain ⟨hadv₂, hdst⟩ := push_advances hadv₁.sound hpush
    exact (hadv₁.trans hadv₂).trans (emit_advances hadv₂.sound
      (.memoryGrow hmemory hdst (hadv₂.hasSlot hdelta)) h)
  | const value =>
    obtain ⟨dst, d₁, hpush, h⟩ := run_bind_eq_ok.mp h
    obtain ⟨hadv, hdst⟩ := push_advances hd hpush
    exact hadv.trans (emit_advances hadv.sound (.const hdst) h)
  | unary op =>
    obtain ⟨operand, d₁, hpop, h⟩ := run_bind_eq_ok.mp h
    obtain ⟨hadv₁, hoperand, -⟩ := popType_advances hd hpop
    obtain ⟨dst, d₂, hpush, h⟩ := run_bind_eq_ok.mp h
    obtain ⟨hadv₂, hdst⟩ := push_advances hadv₁.sound hpush
    exact (hadv₁.trans hadv₂).trans
      (emit_advances hadv₂.sound (.unary hdst (hadv₂.hasSlot hoperand)) h)
  | binary op =>
    obtain ⟨rhs, d₁, hpop, h⟩ := run_bind_eq_ok.mp h
    obtain ⟨hadv₁, hrhs, -⟩ := popType_advances hd hpop
    obtain ⟨lhs, d₂, hpop, h⟩ := run_bind_eq_ok.mp h
    obtain ⟨hadv₂, hlhs, -⟩ := popType_advances hadv₁.sound hpop
    obtain ⟨dst, d₃, hpush, h⟩ := run_bind_eq_ok.mp h
    obtain ⟨hadv₃, hdst⟩ := push_advances hadv₂.sound hpush
    exact ((hadv₁.trans hadv₂).trans hadv₃).trans (emit_advances hadv₃.sound
      (.binary hdst (hadv₃.hasSlot hlhs) (hadv₃.hasSlot (hadv₂.hasSlot hrhs))) h)

/-- The innermost scope is closed into the one around it, and the function is left as it is. -/
theorem closeScope_eq_ok {u : Unit} (h : (closeScope pos).run d = .ok u d') :
    (d.outer = [] ∧ d' = d) ∨ ∃ parent outer, d.outer = parent :: outer ∧
      (endScope pos d.scope parent outer).run d = .ok u d' := by
  simp only [closeScope, run_bind_eq_ok, run_get_eq_ok] at h
  obtain ⟨_, _, ⟨rfl, rfl⟩, h⟩ := h
  split at h
  · rename_i houter
    exact .inl ⟨houter, (run_pure_eq_ok.mp h).2.symm⟩
  · rename_i parent outer houter
    exact .inr ⟨parent, outer, houter, h⟩

/-- Every instruction that compiles keeps the draft sound, and nests as it says. -/
theorem step_sound {i : Instr} {u : Unit} (hd : d.Sound ctx)
    (h : (step ctx pos i).run d = .ok u d') :
    d'.Sound ctx ∧ d'.outer.length = i.nesting d.outer.length := by
  cases i with
  | block result => exact openScope_sound hd h (by simp) fun _ ↦ trivial
  | loop result => exact openScope_sound hd h (by simp) fun _ ↦ trivial
  | conditional result =>
    obtain ⟨cond, d₁, hcond, h⟩ := run_bind_eq_ok.mp h
    obtain ⟨hadv, hslot, -⟩ := popType_advances hd hcond
    obtain ⟨hsound, hlength⟩ := openScope_sound hadv.sound h (by simp) fun _ ↦ hslot
    exact ⟨hsound, by rw [hlength, hadv.outer, Instr.nesting]⟩
  | otherwise => exact beginElse_sound hd h
  | close =>
    obtain ⟨houter, rfl⟩ | ⟨parent, outer, houter, h⟩ := closeScope_eq_ok h
    · exact ⟨hd, by rw [houter]; rfl⟩
    · obtain ⟨hsound, hlength⟩ := endScope_sound hd rfl houter h
      exact ⟨hsound, by rw [hlength, houter]; rfl⟩
  | _ =>
    have hadv := step_advances rfl hd h
    exact ⟨hadv.sound, congrArg List.length hadv.outer⟩

/-- The statements of a finished function are well formed, and control gets to their end only in a
function without a result. -/
theorem finish_fits {body : List Stmt} (hd : d.Sound ctx) (houter : d.outer = [])
    (h : (finish pos).run d = .ok body d') :
    d = d' ∧ (∀ stmt ∈ body, stmt.Fits (ctx.layout d.maxStack) []) ∧
      (ctx.type.result = none ∨ ∃ stmt ∈ body, stmt.Diverts) := by
  unfold Draft.Sound at hd
  rw [houter] at hd
  obtain ⟨-, -, hbase, hresult, hs⟩ := hd
  simp only [finish, run_bind_eq_ok, run_get_eq_ok] at h
  obtain ⟨_, _, ⟨rfl, rfl⟩, _, _, hend, h⟩ := h
  obtain ⟨rfl, hleft⟩ := checkEnd_eq_ok hend
  rw [run_ite] at h
  split at h
  · rename_i hdead
    obtain ⟨rfl, rfl⟩ := run_pure_eq_ok.mp h
    exact ⟨rfl, hs.body, .inr (hs.dead hdead)⟩
  · rename_i hlive
    obtain ⟨rfl, rfl⟩ := run_pure_eq_ok.mp h
    simp only [Scope.emit, Array.toList_push, List.mem_append, List.mem_singleton]
    refine ⟨trivial, ?_, .inr ⟨_, .inr rfl, trivial⟩⟩
    rintro stmt (hstmt | rfl)
    · exact hs.body stmt hstmt
    · apply Stmt.Fits.ret
      rw [← hresult]
      obtain ⟨hnone, -⟩ | ⟨t, hsome, htypes⟩ | ⟨hdead, -⟩ := hleft
      · rw [hnone]
        exact .none
      · rw [hsome]
        refine .some ⟨rfl, Nat.lt_of_lt_of_le ?_ (hs.room t)⟩
        rw [Scope.height_get, hs.live, htypes]
        simp
      · exact absurd hdead hlive

end Build

end WasmEngine
