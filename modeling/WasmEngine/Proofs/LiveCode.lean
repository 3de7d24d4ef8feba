import WasmEngine.Proofs.Bodies
import WasmEngine.Proofs.Emission

/-!
# Compiling code that control can reach

The scopes of a draft that are open stand for the constructs around the next instruction, and their
operands, taken together, for all operands there. At a point that control can reach, each step of
the decoder pops and pushes what the instruction does, and adds the statements that `Emits` asks
for.
-/

namespace WasmEngine

/-! ## Operands of open scopes -/

namespace Scope

/-- Types of all operands, the latest first: those of the scope `s` and those of the scopes around
it. -/
def operands (s : Scope) (outer : List Scope) : List ValueType := s.types ++ outer.flatMap types

def constructs : Scope → List Scope → List Construct
  | _, [] => []
  | s, p :: outer => ⟨s.kind.isLoop, s.result, p.operands outer⟩ :: constructs p outer

variable {L : Layout} {s s' : Scope} {outer : List Scope}

@[simp] theorem length_constructs (s : Scope) (outer : List Scope) :
    (constructs s outer).length = outer.length := by
  induction outer generalizing s with
  | nil => rfl
  | cons p outer ih => simp [constructs, ih]

theorem SameFrame.constructs_eq (h : SameFrame s s') (outer : List Scope) :
    s'.constructs outer = s.constructs outer := by
  cases outer with
  | nil => rfl
  | cons p outer => simp only [constructs, h.kind, h.result]

/-- The lanes count the operands below a scope. -/
theorem Nested.base_get (h : Nested L s outer) (t : ValueType) :
    s.base.get t = (outer.flatMap types).count t := by
  induction outer generalizing s with
  | nil => simp [h.2.2.1]
  | cons p outer ih =>
    obtain ⟨hp, -, -, hbase, -⟩ := h
    rw [hbase, height_get, ih hp, hp.sound.live, List.flatMap_cons, List.count_append]
    exact Nat.add_comm _ _

theorem Nested.nextSlot_eq (h : Nested L s outer) (t : ValueType) :
    s.nextSlot t = operandSlot t (s.operands outer) := by
  rw [nextSlot, operandSlot, h.base_get, h.sound.live, operands, List.count_append, Nat.add_comm]

/-- The scope that a branch of some depth names is a construct, whose operands lie below those of
the innermost scope, or the function. -/
theorem Nested.construct_at (h : Nested L s outer) {depth : Nat}
    (hs' : (s :: outer)[depth]? = some s') :
    (s'.kind ≠ .function ∧ s'.label = outer.length - depth ∧
      ∃ base, (s.constructs outer)[depth]? = some ⟨s'.kind.isLoop, s'.result, base⟩ ∧
        base <:+ outer.flatMap types ∧ ∀ t, s'.outputSlot t = operandSlot t base) ∨
    (s'.kind = .function ∧ s'.result = L.result ∧ depth = outer.length) := by
  induction outer generalizing s depth with
  | nil =>
    cases depth with
    | zero => cases hs'; exact .inr ⟨h.1, h.2.2.2.1, rfl⟩
    | succ depth => cases hs'
  | cons p outer ih =>
    cases depth with
    | zero =>
      cases hs'
      refine .inl ⟨h.2.1, h.2.2.1, _, rfl, List.suffix_rfl, fun t ↦ ?_⟩
      rw [outputSlot, operandSlot, h.base_get]
      rfl
    | succ depth =>
      have hout : (p :: outer)[depth]? = some s' := by simpa using hs'
      obtain ⟨hkind, hlabel, base, hc, hbase, hslot⟩ | ⟨hkind, hresult, hdepth⟩ := ih h.1 hout
      · refine .inl ⟨hkind, by simpa using hlabel, base, by simpa [constructs] using hc, ?_, hslot⟩
        exact hbase.trans (List.suffix_append _ _)
      · exact .inr ⟨hkind, hresult, by simpa using hdepth⟩

end Scope

/-! ## Live code -/

namespace Draft

def operands (d : Draft) : List ValueType := d.scope.operands d.outer

def constructs (d : Draft) : List Construct := d.scope.constructs d.outer

/-- Constructs are numbered from the outside. -/
theorem length_scopes (d : Draft) : d.scopes.length = d.constructs.length + 1 := by
  rw [constructs, Scope.length_constructs]
  rfl

/-- Live code that adds statements and leaves operands of the types `ts`. -/
structure Changes (d : Draft) (stmts : List Stmt) (ts : List ValueType) (d' : Draft) : Prop where
  body : d'.scope.body.toList = d.scope.body.toList ++ stmts
  operands : d'.operands = ts
  live : d'.scope.unreachable = false

variable {ctx : Context} {d d' d'' : Draft} {stmts stmts' : List Stmt} {ts ts' : List ValueType}

theorem Changes.trans (h : Changes d stmts ts d') (h' : Changes d' stmts' ts' d'') :
    Changes d (stmts ++ stmts') ts' d'' where
  body := by rw [h'.body, h.body, List.append_assoc]
  operands := h'.operands
  live := h'.live

theorem Advances.constructs_eq (h : Advances ctx d d') : d'.constructs = d.constructs := by
  rw [constructs, constructs, h.outer, h.frame.constructs_eq]

end Draft

namespace Build

open Draft

variable {ctx : Context} {d d' : Draft} {pos : Nat} {slot : Slot} {t : ValueType}
  {ts : List ValueType} {stmt : Stmt}

/-- The last statement of an instruction. -/
theorem emit_live {d₀ : Draft} {u : Unit} (h₀ : Changes d₀ [] ts d)
    (h : (emit stmt).run d = .ok u d') : Changes d₀ [stmt] ts d' := by
  obtain rfl := emit_eq_ok.mp h
  refine h₀.trans ⟨by simp [Scope.emit], h₀.operands, h₀.live⟩

section Live

variable (hd : d.Sound ctx) (hlive : d.scope.unreachable = false)

include hd hlive

theorem pop_live {expected : Option ValueType} (h : (pop pos expected).run d = .ok (t, slot) d') :
    ∃ ts, d.operands = t :: ts ∧ slot = operandSlot t ts ∧ d'.Sound ctx ∧ Changes d [] ts d' := by
  have hadv := (pop_advances hd h).1
  obtain ⟨types, htypes, -, rfl, rfl⟩ | ⟨-, hdead, -⟩ := pop_eq_ok h
  · refine ⟨types ++ d.outer.flatMap Scope.types, ?_, ?_, hadv.sound, ?_, ?_, hlive⟩
    · rw [operands, Scope.operands, htypes, List.cons_append]
    · have hslot := Scope.Nested.nextSlot_eq hadv.sound t
      rw [hslot, Scope.operands, Scope.popped, htypes]
      rfl
    · rw [List.append_nil]
      rfl
    · rw [operands, Scope.operands, Scope.popped, htypes]
      rfl
  · rw [hlive] at hdead
    cases hdead

theorem popType_live (h : (popType pos t).run d = .ok slot d') :
    ∃ ts, d.operands = t :: ts ∧ slot = operandSlot t ts ∧ d'.Sound ctx ∧ Changes d [] ts d' := by
  simp only [popType, run_bind_eq_ok, run_pure_eq_ok] at h
  obtain ⟨⟨t', _⟩, _, hpop, rfl, rfl⟩ := h
  obtain ⟨-, hexpected, -⟩ := pop_advances hd hpop
  obtain rfl := hexpected t rfl
  exact pop_live hd hlive hpop

theorem push_live (h : (push t).run d = .ok slot d') :
    slot = operandSlot t d.operands ∧ d'.Sound ctx ∧ Changes d [] (t :: d.operands) d' := by
  have hadv := (push_advances hd h).1
  obtain ⟨rfl, rfl⟩ := push_eq_ok.mp h
  refine ⟨Scope.Nested.nextSlot_eq hd t, hadv.sound, ?_, rfl, hlive⟩
  rw [List.append_nil]
  rfl

theorem push?_live {t : Option ValueType} {slot : Option Slot}
    (h : (push? t).run d = .ok slot d') :
    slot = t.map (operandSlot · d.operands) ∧ Changes d [] (t.toList ++ d.operands) d' := by
  cases t with
  | none =>
    obtain ⟨rfl, rfl⟩ := run_pure_eq_ok.mp h
    exact ⟨rfl, (List.append_nil _).symm, rfl, hlive⟩
  | some t =>
    simp only [push?, run_bind_eq_ok, run_pure_eq_ok] at h
    obtain ⟨slot, _, hpush, rfl, rfl⟩ := h
    obtain ⟨rfl, -, hchanges⟩ := push_live hd hlive hpush
    exact ⟨rfl, hchanges⟩

theorem popArgs_live {params : List ValueType} {slots : List Slot}
    (h : (popArgs pos params).run d = .ok slots d') :
    ∃ ts, d.operands = params.reverse ++ ts ∧ slots = argSlots params ts ∧ d'.Sound ctx ∧
      Changes d [] ts d' := by
  induction params generalizing d' slots with
  | nil =>
    obtain ⟨rfl, rfl⟩ := run_pure_eq_ok.mp h
    exact ⟨d.operands, rfl, rfl, hd, (List.append_nil _).symm, rfl, hlive⟩
  | cons t params ih =>
    simp only [popArgs, run_bind_eq_ok, run_pure_eq_ok] at h
    obtain ⟨rest, d₁, hrest, slot, _, hpop, rfl, rfl⟩ := h
    obtain ⟨ts₁, hts₁, rfl, hd₁, hchanges₁⟩ := ih hrest
    obtain ⟨ts, hts, rfl, hd', hchanges⟩ := popType_live hd₁ hchanges₁.live hpop
    rw [hchanges₁.operands] at hts
    subst hts
    exact ⟨ts, by simpa using hts₁, rfl, hd', hchanges₁.trans hchanges⟩

/-- The operand that a branch carries or a function returns. -/
theorem pop?_live {t : Option ValueType} {slot : Option Slot}
    (h : (pop? pos t).run d = .ok slot d') :
    Returns t d.operands slot ∧ ∃ ts, d.operands = t.toList ++ ts ∧ d'.Sound ctx ∧
      Changes d [] ts d' := by
  cases t with
  | none =>
    obtain ⟨rfl, rfl⟩ := run_pure_eq_ok.mp h
    exact ⟨.nothing _, d.operands, rfl, hd, (List.append_nil _).symm, rfl, hlive⟩
  | some t =>
    simp only [pop?, run_bind_eq_ok, run_pure_eq_ok] at h
    obtain ⟨slot, _, hpop, rfl, rfl⟩ := h
    obtain ⟨ts, hts, rfl, hd', hchanges⟩ := popType_live hd hlive hpop
    rw [hts]
    exact ⟨.value t ts, ts, rfl, hd', hchanges⟩

end Live

/-- An instruction adds statements, and what is emitted from there on follows them. -/
def Precedes (ctx : Context) (d : Draft) (i : Instr) (d' : Draft) : Prop :=
  ∃ stmts, d'.scope.body.toList = d.scope.body.toList ++ stmts ∧
    ∀ {is rest after}, (d'.scope.unreachable = false →
      Emits ctx.module ctx.type.result d'.constructs d'.operands is rest after) →
      Emits ctx.module ctx.type.result d.constructs d.operands (i :: is) (stmts ++ rest) after

theorem Precedes.of_plain {i : Instr} {stmts : List Stmt} (hadv : Advances ctx d d')
    (hplain : Plain d.operands i stmts ts) (h : Changes d stmts ts d') :
    Precedes ctx d i d' := by
  refine ⟨stmts, h.body, fun hrest ↦ .plain hplain ?_⟩
  have hemits := hrest h.live
  rwa [hadv.constructs_eq, h.operands] at hemits

/-- An instruction that does not fall through. -/
theorem Precedes.of_cut {d₁ : Draft} {i : Instr} {u : Unit} (h₁ : Changes d [] ts d₁)
    (h : (do emit stmt; cut).run d₁ = .ok u d')
    (hemits : ∀ {is rest after}, Emits ctx.module ctx.type.result d.constructs d.operands (i :: is)
      (stmt :: rest) after) : Precedes ctx d i d' := by
  obtain ⟨_, d₂, hemit, hcut⟩ := run_bind_eq_ok.mp h
  have h₂ := emit_live h₁ hemit
  obtain rfl := cut_eq_ok.mp hcut
  exact ⟨[stmt], h₂.body, fun _ ↦ hemits⟩

/-- Where a branch leads, given the operand that it carries. -/
theorem branches_of_target {d₁ d₂ : Draft} {depth : Nat} {s : Scope} {carried : Option Slot}
    (hd : d.Sound ctx) (hs : d.scopes[depth]? = some s) (hadv : Advances ctx d d₁)
    (hlive : d₁.scope.unreachable = false) (hpop : (pop? pos s.labelType).run d₁ = .ok carried d₂) :
    Branches ctx.type.result d.constructs d₁.operands depth (s.target carried) := by
  obtain ⟨hreturns, ts, hts, hd₂, hchanges⟩ := pop?_live hadv.sound hlive hpop
  have hadv₂ := (pop?_advances hadv.sound hpop).1
  -- What lies below the innermost scope is left by the pop.
  have hbelow : d.outer.flatMap Scope.types <:+ ts := by
    rw [← hchanges.operands, operands, Scope.operands, hadv₂.outer, hadv.outer]
    exact List.suffix_append _ _
  rw [hts] at hreturns ⊢
  obtain ⟨hkind, hlabel, base, hc, hbase, hslot⟩ | ⟨hkind, hresult, rfl⟩ :=
    Scope.Nested.construct_at hd hs
  · have hnumber : s.label = d.constructs.length - depth := by
      rw [hlabel, constructs, Scope.length_constructs]
    have hsuffix := hbase.trans hbelow
    by_cases hloop : s.kind = .loop
    · have htarget : s.target carried = .restart s.label := by simp only [Scope.target, hloop]
      rw [htarget, hnumber]
      refine .restart hc ?_ (hsuffix.trans (List.suffix_append _ _))
      rw [hloop]
      rfl
    · have htarget : s.target carried =
          .leave s.label (do return (← carried, s.outputSlot (← s.result))) := by
        unfold Scope.target
        split <;> first | contradiction | rfl
      have htype : s.labelType = s.result := by
        unfold Scope.labelType
        split <;> first | contradiction | rfl
      have hforward : s.kind.isLoop = false := by
        unfold Scope.Kind.isLoop
        split <;> first | contradiction | rfl
      rw [htarget, hnumber]
      rw [htype] at hreturns ⊢
      cases hresult : s.result with
      | none =>
        rw [hresult] at hreturns hc
        cases hreturns
        exact .leave hc hforward rfl hsuffix
      | some t =>
        rw [hresult] at hreturns hc
        cases hreturns
        change Branches _ _ (t :: ts) depth
          (.leave _ (some (operandSlot t ts, s.outputSlot t)))
        rw [hslot]
        exact .carry hc hforward rfl hsuffix
  · have htarget : s.target carried = .ret carried := by simp only [Scope.target, hkind]
    have htype : s.labelType = ctx.type.result := by
      simp only [Scope.labelType, hkind]
      exact hresult
    have hdepth : d.outer.length = d.constructs.length := by
      rw [constructs, Scope.length_constructs]
    rw [htype] at hreturns
    rw [htarget, htype, hdepth]
    exact .ret hreturns

theorem step_precedes {i : Instr} (hi : i.isStructural = false) (hd : d.Sound ctx)
    (hlive : d.scope.unreachable = false) (h : (step ctx pos i).run d = .ok () d') :
    Precedes ctx d i d' := by
  have hadv := step_advances hi hd h
  cases i with
  | block result | loop result | conditional result | otherwise | close => cases hi
  | unreachable =>
    exact .of_cut ⟨(List.append_nil _).symm, rfl, hlive⟩ h .unreachable
  | nop =>
    obtain ⟨-, rfl⟩ := run_pure_eq_ok.mp h
    exact .of_plain hadv (.nop _) ⟨(List.append_nil _).symm, rfl, hlive⟩
  | drop =>
    obtain ⟨⟨t, slot⟩, d₁, hpop, h⟩ := run_bind_eq_ok.mp h
    obtain ⟨-, rfl⟩ := run_pure_eq_ok.mp h
    have hpop : (pop pos none).run d = .ok (t, slot) d₁ := hpop
    obtain ⟨ts, hts, -, -, hpopped⟩ := pop_live hd hlive hpop
    exact .of_plain hadv (hts ▸ .drop t ts) hpopped
  | unary op =>
    obtain ⟨operand, d₁, hpop, h⟩ := run_bind_eq_ok.mp h
    obtain ⟨ts, hts, rfl, hd₁, hpopped⟩ := popType_live hd hlive hpop
    obtain ⟨dst, d₂, hpush, h⟩ := run_bind_eq_ok.mp h
    obtain ⟨rfl, -, hpushed⟩ := push_live hd₁ hpopped.live hpush
    rw [hpopped.operands] at hpushed h
    exact .of_plain hadv (hts ▸ .unary op ts) (emit_live (hpopped.trans hpushed) h)
  | br depth =>
    obtain ⟨s, _, hscope, h⟩ := run_bind_eq_ok.mp h
    obtain ⟨hs, rfl⟩ := scopeAt_eq_ok hscope
    obtain ⟨carried, d₁, hpop, h⟩ := run_bind_eq_ok.mp h
    have htarget := branches_of_target hd hs (.refl hd) hlive hpop
    obtain ⟨-, ts, -, -, hpopped⟩ := pop?_live hd hlive hpop
    exact .of_cut hpopped h (.br htarget)
  | ret =>
    obtain ⟨value, d₁, hpop, h⟩ := run_bind_eq_ok.mp h
    obtain ⟨hreturns, ts, -, -, hpopped⟩ := pop?_live hd hlive hpop
    exact .of_cut hpopped h (.ret hreturns)
  | select =>
    obtain ⟨cond, d₁, hpop, h⟩ := run_bind_eq_ok.mp h
    obtain ⟨ts₁, hts₁, rfl, hd₁, hpopped₁⟩ := popType_live hd hlive hpop
    obtain ⟨⟨t, ifFalse⟩, d₂, hpop, h⟩ := run_bind_eq_ok.mp h
    have hpop : (pop pos none).run d₁ = .ok (t, ifFalse) d₂ := hpop
    obtain ⟨ts₂, hts₂, rfl, hd₂, hpopped₂⟩ := pop_live hd₁ hpopped₁.live hpop
    obtain ⟨dst, d₃, hpop, h⟩ := run_bind_eq_ok.mp h
    obtain ⟨ts, hts, rfl, hd₃, hpopped₃⟩ := popType_live hd₂ hpopped₂.live hpop
    obtain ⟨_, d₄, hpush, h⟩ := run_bind_eq_ok.mp h
    obtain ⟨-, -, hpushed⟩ := push_live hd₃ hpopped₃.live hpush
    rw [hpopped₁.operands] at hts₂
    rw [hpopped₂.operands] at hts
    rw [hpopped₃.operands] at hpushed
    subst hts hts₂
    exact .of_plain hadv (hts₁ ▸ .select t ts)
      (emit_live (((hpopped₁.trans hpopped₂).trans hpopped₃).trans hpushed) h)
  | localGet index =>
    obtain ⟨t, _, hlook, h⟩ := run_bind_eq_ok.mp h
    obtain ⟨-, rfl⟩ := localType_eq_ok hlook
    obtain ⟨dst, d₁, hpush, h⟩ := run_bind_eq_ok.mp h
    obtain ⟨rfl, -, hpushed⟩ := push_live hd hlive hpush
    exact .of_plain hadv (.localGet index t _) (emit_live hpushed h)
  | localSet index =>
    obtain ⟨t, _, hlook, h⟩ := run_bind_eq_ok.mp h
    obtain ⟨-, rfl⟩ := localType_eq_ok hlook
    obtain ⟨src, d₁, hpop, h⟩ := run_bind_eq_ok.mp h
    obtain ⟨ts, hts, rfl, -, hpopped⟩ := popType_live hd hlive hpop
    exact .of_plain hadv (hts ▸ .localSet index t ts) (emit_live hpopped h)
  | localTee index =>
    obtain ⟨t, _, hlook, h⟩ := run_bind_eq_ok.mp h
    obtain ⟨-, rfl⟩ := localType_eq_ok hlook
    obtain ⟨src, d₁, hpop, h⟩ := run_bind_eq_ok.mp h
    obtain ⟨ts, hts, rfl, hd₁, hpopped⟩ := popType_live hd hlive hpop
    obtain ⟨_, d₂, hpush, h⟩ := run_bind_eq_ok.mp h
    obtain ⟨-, -, hpushed⟩ := push_live hd₁ hpopped.live hpush
    rw [hpopped.operands] at hpushed
    exact .of_plain hadv (hts ▸ .localTee index t ts) (emit_live (hpopped.trans hpushed) h)
  | globalGet index =>
    obtain ⟨g, _, hlook, h⟩ := run_bind_eq_ok.mp h
    obtain ⟨-, rfl⟩ := globalType_eq_ok hlook
    obtain ⟨dst, d₁, hpush, h⟩ := run_bind_eq_ok.mp h
    obtain ⟨rfl, -, hpushed⟩ := push_live hd hlive hpush
    exact .of_plain hadv (.globalGet index g.type _) (emit_live hpushed h)
  | globalSet index =>
    obtain ⟨g, _, hlook, h⟩ := run_bind_eq_ok.mp h
    obtain ⟨-, rfl⟩ := globalType_eq_ok hlook
    dsimp only at h
    rw [run_ite] at h
    split at h
    · simp only [run_bind_eq_ok, run_fail_eq_ok, false_and, exists_false] at h
    · obtain ⟨src, d₁, hpop, h⟩ := run_bind_eq_ok.mp h
      obtain ⟨ts, hts, rfl, -, hpopped⟩ := popType_live hd hlive hpop
      exact .of_plain hadv (hts ▸ .globalSet index g.type ts) (emit_live hpopped h)
  | load access arg =>
    obtain ⟨_, _, hcheck, h⟩ := run_bind_eq_ok.mp h
    obtain ⟨-, rfl⟩ := checkAccess_eq_ok hcheck
    obtain ⟨addr, d₁, hpop, h⟩ := run_bind_eq_ok.mp h
    obtain ⟨ts, hts, rfl, hd₁, hpopped⟩ := popType_live hd hlive hpop
    obtain ⟨dst, d₂, hpush, h⟩ := run_bind_eq_ok.mp h
    obtain ⟨rfl, -, hpushed⟩ := push_live hd₁ hpopped.live hpush
    rw [hpopped.operands] at hpushed h
    exact .of_plain hadv (hts ▸ .load access arg ts) (emit_live (hpopped.trans hpushed) h)
  | store access arg =>
    obtain ⟨_, _, hcheck, h⟩ := run_bind_eq_ok.mp h
    obtain ⟨-, rfl⟩ := checkAccess_eq_ok hcheck
    obtain ⟨value, d₁, hpop, h⟩ := run_bind_eq_ok.mp h
    obtain ⟨ts₁, hts₁, rfl, hd₁, hpopped₁⟩ := popType_live hd hlive hpop
    obtain ⟨addr, d₂, hpop, h⟩ := run_bind_eq_ok.mp h
    obtain ⟨ts, hts, rfl, -, hpopped₂⟩ := popType_live hd₁ hpopped₁.live hpop
    rw [hpopped₁.operands] at hts
    subst hts
    exact .of_plain hadv (hts₁ ▸ .store access arg ts) (emit_live (hpopped₁.trans hpopped₂) h)
  | memorySize =>
    obtain ⟨_, _, hrequire, h⟩ := run_bind_eq_ok.mp h
    obtain ⟨-, rfl⟩ := requireMemory_eq_ok hrequire
    obtain ⟨dst, d₁, hpush, h⟩ := run_bind_eq_ok.mp h
    obtain ⟨rfl, -, hpushed⟩ := push_live hd hlive hpush
    exact .of_plain hadv (.memorySize _) (emit_live hpushed h)
  | memoryGrow =>
    obtain ⟨_, _, hrequire, h⟩ := run_bind_eq_ok.mp h
    obtain ⟨-, rfl⟩ := requireMemory_eq_ok hrequire
    obtain ⟨delta, d₁, hpop, h⟩ := run_bind_eq_ok.mp h
    obtain ⟨ts, hts, rfl, hd₁, hpopped⟩ := popType_live hd hlive hpop
    obtain ⟨dst, d₂, hpush, h⟩ := run_bind_eq_ok.mp h
    obtain ⟨rfl, -, hpushed⟩ := push_live hd₁ hpopped.live hpush
    rw [hpopped.operands] at hpushed h
    exact .of_plain hadv (hts ▸ .memoryGrow ts) (emit_live (hpopped.trans hpushed) h)
  | const value =>
    obtain ⟨dst, d₁, hpush, h⟩ := run_bind_eq_ok.mp h
    obtain ⟨rfl, -, hpushed⟩ := push_live hd hlive hpush
    exact .of_plain hadv (.const value _) (emit_live hpushed h)
  | binary op =>
    obtain ⟨rhs, d₁, hpop, h⟩ := run_bind_eq_ok.mp h
    obtain ⟨ts₁, hts₁, rfl, hd₁, hpopped₁⟩ := popType_live hd hlive hpop
    obtain ⟨lhs, d₂, hpop, h⟩ := run_bind_eq_ok.mp h
    obtain ⟨ts, hts, rfl, hd₂, hpopped₂⟩ := popType_live hd₁ hpopped₁.live hpop
    obtain ⟨dst, d₃, hpush, h⟩ := run_bind_eq_ok.mp h
    obtain ⟨rfl, -, hpushed⟩ := push_live hd₂ hpopped₂.live hpush
    rw [hpopped₁.operands] at hts
    rw [hpopped₂.operands] at hpushed h
    subst hts
    exact .of_plain hadv (hts₁ ▸ .binary op ts)
      (emit_live ((hpopped₁.trans hpopped₂).trans hpushed) h)
  | brIf depth =>
    obtain ⟨s, _, hscope, h⟩ := run_bind_eq_ok.mp h
    obtain ⟨hs, rfl⟩ := scopeAt_eq_ok hscope
    obtain ⟨cond, d₁, hcond, h⟩ := run_bind_eq_ok.mp h
    obtain ⟨ts₁, hts₁, rfl, hd₁, hpopped₁⟩ := popType_live hd hlive hcond
    obtain ⟨carried, d₂, hcarried, h⟩ := run_bind_eq_ok.mp h
    have htarget := branches_of_target hd hs (popType_advances hd hcond).1 hpopped₁.live hcarried
    obtain ⟨-, ts, hts, hd₂, hpopped₂⟩ := pop?_live hd₁ hpopped₁.live hcarried
    obtain ⟨_, d₃, hpush, h⟩ := run_bind_eq_ok.mp h
    obtain ⟨-, hpushed⟩ := push?_live hd₂ hpopped₂.live hpush
    rw [hpopped₂.operands, ← hts, hpopped₁.operands] at hpushed
    rw [hpopped₁.operands] at htarget
    have hchanges := emit_live ((hpopped₁.trans hpopped₂).trans hpushed) h
    refine ⟨_, hchanges.body, fun hrest ↦ ?_⟩
    have hemits := hrest hchanges.live
    rw [hadv.constructs_eq, hchanges.operands] at hemits
    rw [hts₁]
    exact .brIf htarget hemits
  | brTable depths default =>
    obtain ⟨s, _, hscope, h⟩ := run_bind_eq_ok.mp h
    obtain ⟨hs, rfl⟩ := scopeAt_eq_ok hscope
    obtain ⟨scopes, _, htable, h⟩ := run_bind_eq_ok.mp h
    obtain ⟨hscopes, rfl⟩ := tableScopes_eq_ok htable
    obtain ⟨index, d₁, hindex, h⟩ := run_bind_eq_ok.mp h
    have hadv₁ := (popType_advances hd hindex).1
    obtain ⟨ts₁, hts₁, rfl, hd₁, hpopped₁⟩ := popType_live hd hlive hindex
    obtain ⟨carried, d₂, hcarried, h⟩ := run_bind_eq_ok.mp h
    have htarget := branches_of_target hd hs hadv₁ hpopped₁.live hcarried
    have htargets : List.Forall₂ (Branches ctx.type.result d.constructs d₁.operands) depths
        (scopes.map (·.target carried)) := by
      rw [List.forall₂_map_right_iff]
      refine hscopes.imp fun depth s' hs' ↦ ?_
      rw [← hs'.2] at hcarried
      exact branches_of_target hd hs'.1 hadv₁ hpopped₁.live hcarried
    obtain ⟨-, ts, -, -, hpopped₂⟩ := pop?_live hd₁ hpopped₁.live hcarried
    rw [hpopped₁.operands] at htarget htargets
    refine .of_cut (hpopped₁.trans hpopped₂) h ?_
    intro is rest after
    rw [hts₁]
    exact .brTable htargets htarget
  | call func =>
    obtain ⟨callee, _, hlook, h⟩ := run_bind_eq_ok.mp h
    obtain ⟨hcallee, rfl⟩ := funcType_eq_ok hlook
    obtain ⟨args, d₁, hpop, h⟩ := run_bind_eq_ok.mp h
    obtain ⟨ts, hts, rfl, hd₁, hpopped⟩ := popArgs_live hd hlive hpop
    obtain ⟨result, d₂, hpush, h⟩ := run_bind_eq_ok.mp h
    obtain ⟨rfl, hpushed⟩ := push?_live hd₁ hpopped.live hpush
    rw [hpopped.operands] at hpushed h
    have hchanges := emit_live (hpopped.trans hpushed) h
    refine ⟨_, hchanges.body, fun hrest ↦ ?_⟩
    have hemits := hrest hchanges.live
    rw [hadv.constructs_eq, hchanges.operands] at hemits
    rw [hts]
    exact .call hcallee hemits
  | callIndirect type =>
    obtain ⟨_, _, hrequire, h⟩ := run_bind_eq_ok.mp h
    obtain ⟨-, rfl⟩ := requireTable_eq_ok hrequire
    obtain ⟨callee, _, hlook, h⟩ := run_bind_eq_ok.mp h
    obtain ⟨hcallee, rfl⟩ := typeAt_eq_ok hlook
    obtain ⟨index, d₁, hpop, h⟩ := run_bind_eq_ok.mp h
    obtain ⟨ts₁, hts₁, rfl, hd₁, hpopped₁⟩ := popType_live hd hlive hpop
    obtain ⟨args, d₂, hpop, h⟩ := run_bind_eq_ok.mp h
    obtain ⟨ts, hts, rfl, hd₂, hpopped₂⟩ := popArgs_live hd₁ hpopped₁.live hpop
    obtain ⟨result, d₃, hpush, h⟩ := run_bind_eq_ok.mp h
    obtain ⟨rfl, hpushed⟩ := push?_live hd₂ hpopped₂.live hpush
    rw [hpopped₁.operands] at hts
    rw [hpopped₂.operands] at hpushed h
    subst hts
    have hchanges := emit_live ((hpopped₁.trans hpopped₂).trans hpushed) h
    refine ⟨_, hchanges.body, fun hrest ↦ ?_⟩
    have hemits := hrest hchanges.live
    rw [hadv.constructs_eq, hchanges.operands] at hemits
    rw [hts₁]
    exact .callIndirect hcallee hemits

end Build


end WasmEngine
