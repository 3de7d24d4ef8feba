import Mathlib.Tactic.Common
import WasmEngine.Code.Draft

/-!
# Types of instruction sequences

The typing rules of instructions are declarative. `HasType` gives a sequence the types of the
operands that it takes and leaves, and code that cannot be reached any type that suits. `Flows`
follows a derivation from operand to operand instead: each knows whether it was pushed or came out
of nothing, after an instruction that does not fall through. What a `select` may choose from is a
parameter, for that is the one place where the origin of an operand can matter. With nothing ruled
out the two systems agree.

Operands are listed with the topmost first, and labels with the innermost first. A label stands for
the operand that a branch to it carries.
-/

namespace WasmEngine

/-! ## The rules -/

/-- What an instruction takes and leaves if control falls through it. -/
inductive Instr.HasType (ctx : Context) (ls : List (Option ValueType)) :
    Instr → List ValueType → List ValueType → Prop
  | nop : HasType ctx ls .nop [] []
  | brIf {depth : Nat} {r : Option ValueType} (hlabel : ls[depth]? = some r) :
      HasType ctx ls (.brIf depth) (.i32 :: r.toList) r.toList
  | call {func : Nat} {type : FuncType} (htype : ctx.module.funcType? func = some type) :
      HasType ctx ls (.call func) type.params.reverse type.result.toList
  | callIndirect {t : Nat} {type : FuncType} (htable : ctx.module.spaceSize .table ≠ 0)
      (htype : ctx.module.types[t]? = some type) :
      HasType ctx ls (.callIndirect t) (.i32 :: type.params.reverse) type.result.toList
  | drop (t : ValueType) : HasType ctx ls .drop [t] []
  | select (t : ValueType) : HasType ctx ls .select [.i32, t, t] [t]
  | localGet {index : Nat} {t : ValueType} (htype : ctx.locals[index]? = some t) :
      HasType ctx ls (.localGet index) [] [t]
  | localSet {index : Nat} {t : ValueType} (htype : ctx.locals[index]? = some t) :
      HasType ctx ls (.localSet index) [t] []
  | localTee {index : Nat} {t : ValueType} (htype : ctx.locals[index]? = some t) :
      HasType ctx ls (.localTee index) [t] [t]
  | globalGet {index : Nat} {g : GlobalType} (htype : ctx.module.globalType? index = some g) :
      HasType ctx ls (.globalGet index) [] [g.type]
  | globalSet {index : Nat} {g : GlobalType} (htype : ctx.module.globalType? index = some g)
      (hmutable : g.isMutable = true) : HasType ctx ls (.globalSet index) [g.type] []
  | load {access : Access} {arg : MemArg} (hmemory : ctx.module.spaceSize .memory ≠ 0)
      (halign : 1 <<< arg.align ≤ access.width) : HasType ctx ls (.load access arg) [.i32] [.i32]
  | store {access : Access} {arg : MemArg} (hmemory : ctx.module.spaceSize .memory ≠ 0)
      (halign : 1 <<< arg.align ≤ access.width) :
      HasType ctx ls (.store access arg) [.i32, .i32] []
  | memorySize (hmemory : ctx.module.spaceSize .memory ≠ 0) : HasType ctx ls .memorySize [] [.i32]
  | memoryGrow (hmemory : ctx.module.spaceSize .memory ≠ 0) :
      HasType ctx ls .memoryGrow [.i32] [.i32]
  | const (v : Value) : HasType ctx ls (.const v) [] [v.type]
  | unary (op : UnaryOp) : HasType ctx ls (.unary op) [op.operand] [op.result]
  | binary (op : BinaryOp) : HasType ctx ls (.binary op) [op.operand, op.operand] [op.result]

/-- What an instruction takes that control does not fall through. -/
inductive Instr.Diverts (ctx : Context) (ls : List (Option ValueType)) :
    Instr → List ValueType → Prop
  | unreachable : Diverts ctx ls .unreachable []
  | br {depth : Nat} {r : Option ValueType} (hlabel : ls[depth]? = some r) :
      Diverts ctx ls (.br depth) r.toList
  | brTable {depths : List Nat} {default : Nat} {r : Option ValueType}
      (hdefault : ls[default]? = some r) (hlabels : ∀ depth ∈ depths, ls[depth]? = some r) :
      Diverts ctx ls (.brTable depths default) (.i32 :: r.toList)
  | ret : Diverts ctx ls .ret ctx.type.result.toList

theorem Instr.HasType.not_diverts {ctx : Context} {ls : List (Option ValueType)} {i : Instr}
    {ts ts' us : List ValueType} (h : i.HasType ctx ls ts ts') : ¬i.Diverts ctx ls us := by
  intro h'
  cases h <;> cases h'

/-- All instructions but `drop` and `select` have one type at most. -/
theorem Instr.HasType.unique {ctx : Context} {ls : List (Option ValueType)} {i : Instr}
    {ts ts' us us' : List ValueType} (h : i.HasType ctx ls ts ts') (h' : i.HasType ctx ls us us')
    (hdrop : i ≠ .drop) (hselect : i ≠ .select) : us = ts ∧ us' = ts' := by
  cases h <;> cases h' <;> simp_all

theorem Instr.Diverts.unique {ctx : Context} {ls : List (Option ValueType)} {i : Instr}
    {ts us : List ValueType} (h : i.Diverts ctx ls ts) (h' : i.Diverts ctx ls us) : us = ts := by
  cases h <;> cases h' <;> simp_all

/-- The typing rules for sequences. An instruction that diverts may stand above any operands, and
leaves whatever the code after it asks for. -/
inductive HasType (ctx : Context) :
    List (Option ValueType) → List Instr → List ValueType → List ValueType → Prop
  | empty {ls : List (Option ValueType)} : HasType ctx ls [] [] []
  | append {ls : List (Option ValueType)} {is is' : List Instr} {ts ts' ts'' : List ValueType}
      (h : HasType ctx ls is ts ts') (h' : HasType ctx ls is' ts' ts'') :
      HasType ctx ls (is ++ is') ts ts''
  | frame {ls : List (Option ValueType)} {is : List Instr} {ts ts' : List ValueType}
      (h : HasType ctx ls is ts ts') (us : List ValueType) :
      HasType ctx ls is (ts ++ us) (ts' ++ us)
  | plain {ls : List (Option ValueType)} {i : Instr} {ts ts' : List ValueType}
      (h : i.HasType ctx ls ts ts') : HasType ctx ls [i] ts ts'
  | diverts {ls : List (Option ValueType)} {i : Instr} {ts : List ValueType}
      (h : i.Diverts ctx ls ts) (us ts' : List ValueType) : HasType ctx ls [i] (ts ++ us) ts'
  | block {ls : List (Option ValueType)} {r : Option ValueType} {body : List Instr}
      (h : HasType ctx (r :: ls) body [] r.toList) :
      HasType ctx ls (.block r :: (body ++ [.close])) [] r.toList
  | loop {ls : List (Option ValueType)} {r : Option ValueType} {body : List Instr}
      (h : HasType ctx (none :: ls) body [] r.toList) :
      HasType ctx ls (.loop r :: (body ++ [.close])) [] r.toList
  | conditional {ls : List (Option ValueType)} {r : Option ValueType} {arm arm' : List Instr}
      (h : HasType ctx (r :: ls) arm [] r.toList) (h' : HasType ctx (r :: ls) arm' [] r.toList) :
      HasType ctx ls (.conditional r :: (arm ++ .otherwise :: (arm' ++ [.close]))) [.i32] r.toList
  | oneArmed {ls : List (Option ValueType)} {arm : List Instr}
      (h : HasType ctx (none :: ls) arm [] []) :
      HasType ctx ls (.conditional none :: (arm ++ [.close])) [.i32] []

/-! ## Operands and where they come from -/

/-- An operand is pushed by an instruction, or conjured up in code that cannot be reached. -/
structure Operand where
  type : ValueType
  conjured : Bool

namespace Operand

def pushed (t : ValueType) : Operand := ⟨t, false⟩

def conjure (o : Operand) : Operand := { o with conjured := true }

theorem map_type_pushed (ts : List ValueType) :
    (ts.map pushed).map Operand.type = ts := by
  induction ts with
  | nil => rfl
  | cons t ts ih => rw [List.map_cons, List.map_cons, ih, pushed]

theorem map_type_conjure (os : List Operand) :
    (os.map conjure).map Operand.type = os.map Operand.type := by
  rw [List.map_map]
  rfl

theorem conjured_of_mem (os : List Operand) : ∀ o ∈ os.map conjure, o.conjured = true := by
  intro o ho
  obtain ⟨o, -, rfl⟩ := List.mem_map.mp ho
  rfl

end Operand

/-- The operand that decides the type of a `select` is one of those that it may choose. -/
def Instr.Chooses (Choice : Operand → Prop) : Instr → List Operand → Prop
  | .select, [_, o, _] => Choice o
  | _, _ => True

/-- What becomes of the operands at an instruction that is not part of a construct. -/
inductive Instr.Flow (ctx : Context) (Choice : Operand → Prop) (ls : List (Option ValueType))
    (i : Instr) : List Operand → List Operand → Prop
  | plain {ts ts' : List ValueType} {taken : List Operand} (h : i.HasType ctx ls ts ts')
      (htypes : taken.map Operand.type = ts) (hchoice : i.Chooses Choice taken)
      (os : List Operand) : Flow ctx Choice ls i (taken ++ os) (ts'.map Operand.pushed ++ os)
  | diverts {ts : List ValueType} {taken os' : List Operand} (h : i.Diverts ctx ls ts)
      (htypes : taken.map Operand.type = ts) (hconjured : ∀ o ∈ os', o.conjured = true)
      (os : List Operand) : Flow ctx Choice ls i (taken ++ os) os'

/-- The instruction opens a block or a loop with the given label and result. -/
inductive Instr.Opens : Instr → Option ValueType → Option ValueType → Prop
  | block (r : Option ValueType) : Opens (.block r) r r
  | loop (r : Option ValueType) : Opens (.loop r) none r

/-- What becomes of the operands along a sequence of instructions. -/
inductive Flows (ctx : Context) (Choice : Operand → Prop) :
    List (Option ValueType) → List Instr → List Operand → List Operand → Prop
  | nil {ls : List (Option ValueType)} {os : List Operand} : Flows ctx Choice ls [] os os
  | cons {ls : List (Option ValueType)} {i : Instr} {is : List Instr}
      {os os' os'' : List Operand} (h : i.Flow ctx Choice ls os os')
      (hrest : Flows ctx Choice ls is os' os'') : Flows ctx Choice ls (i :: is) os os''
  | construct {ls : List (Option ValueType)} {i : Instr} {l r : Option ValueType}
      {body is : List Instr} {bs os os' : List Operand} (hopens : i.Opens l r)
      (hbody : Flows ctx Choice (l :: ls) body [] bs) (hresult : bs.map Operand.type = r.toList)
      (hrest : Flows ctx Choice ls is (r.toList.map Operand.pushed ++ os) os') :
      Flows ctx Choice ls (i :: (body ++ .close :: is)) os os'
  | conditional {ls : List (Option ValueType)} {r : Option ValueType}
      {arm arm' is : List Instr} {bs bs' os os' : List Operand} {cond : Operand}
      (hcond : cond.type = .i32) (harm : Flows ctx Choice (r :: ls) arm [] bs)
      (hresult : bs.map Operand.type = r.toList)
      (harm' : Flows ctx Choice (r :: ls) arm' [] bs')
      (hresult' : bs'.map Operand.type = r.toList)
      (hrest : Flows ctx Choice ls is (r.toList.map Operand.pushed ++ os) os') :
      Flows ctx Choice ls (.conditional r :: (arm ++ .otherwise :: (arm' ++ .close :: is)))
        (cond :: os) os'
  | oneArmed {ls : List (Option ValueType)} {arm is : List Instr} {os os' : List Operand}
      {cond : Operand} (hcond : cond.type = .i32) (harm : Flows ctx Choice (none :: ls) arm [] [])
      (hrest : Flows ctx Choice ls is os os') :
      Flows ctx Choice ls (.conditional none :: (arm ++ .close :: is)) (cond :: os) os'

variable {ctx : Context} {Choice : Operand → Prop} {ls : List (Option ValueType)}
  {i : Instr} {is is' : List Instr} {os os' os'' : List Operand}

/-! ## Operands that flow have types -/

theorem Instr.Flow.hasType (h : i.Flow ctx Choice ls os os') :
    WasmEngine.HasType ctx ls [i] (os.map Operand.type) (os'.map Operand.type) := by
  cases h with
  | plain h htypes _ os =>
    rw [List.map_append, List.map_append, htypes, Operand.map_type_pushed]
    exact .frame (.plain h) _
  | diverts h htypes _ os =>
    rw [List.map_append, htypes]
    exact .diverts h _ _

theorem HasType.nil (ls : List (Option ValueType)) (ts : List ValueType) :
    HasType ctx ls [] ts ts := .frame .empty ts

theorem Flows.hasType (h : Flows ctx Choice ls is os os') :
    HasType ctx ls is (os.map Operand.type) (os'.map Operand.type) := by
  induction h with
  | nil => exact .nil _ _
  | cons h _ ih => exact .append h.hasType ih
  | @construct ls i l r body is bs os os' hopens _ hresult _ ihbody ihrest =>
    rw [hresult] at ihbody
    rw [List.map_append, Operand.map_type_pushed] at ihrest
    have hconstruct : HasType ctx ls (i :: (body ++ [.close])) [] r.toList := by
      cases hopens with
      | block => exact .block ihbody
      | loop => exact .loop ihbody
    have := (hconstruct.frame (os.map Operand.type)).append ihrest
    rwa [List.cons_append, List.append_assoc] at this
  | @conditional ls r arm arm' is bs bs' os os' cond hcond _ hresult _ hresult' _ iharm iharm'
      ihrest =>
    rw [hresult] at iharm
    rw [hresult'] at iharm'
    rw [List.map_append, Operand.map_type_pushed] at ihrest
    have := ((HasType.conditional iharm iharm').frame (os.map Operand.type)).append ihrest
    rw [List.cons_append, List.append_assoc, List.cons_append, List.append_assoc] at this
    rwa [List.map_cons, hcond]
  | @oneArmed ls arm is os os' cond hcond _ _ iharm ihrest =>
    have := ((HasType.oneArmed iharm).frame (os.map Operand.type)).append ihrest
    rw [List.cons_append, List.append_assoc] at this
    rwa [List.map_cons, hcond]

/-! ## Operands of a type flow -/

theorem Flows.append (h : Flows ctx Choice ls is os os') (h' : Flows ctx Choice ls is' os' os'') :
    Flows ctx Choice ls (is ++ is') os os'' := by
  induction h with
  | nil => exact h'
  | cons h _ ih => exact .cons h (ih h')
  | construct hopens hbody hresult _ _ ih =>
    rw [List.cons_append, List.append_assoc]
    exact .construct hopens hbody hresult (ih h')
  | conditional hcond harm hresult harm' hresult' _ _ _ ih =>
    rw [List.cons_append, List.append_assoc, List.cons_append, List.append_assoc]
    exact .conditional hcond harm hresult harm' hresult' (ih h')
  | oneArmed hcond harm _ _ ih =>
    rw [List.cons_append, List.append_assoc]
    exact .oneArmed hcond harm (ih h')

/-- More operands may lie below. They keep their types, but after an instruction that diverts they
count as conjured up. -/
theorem Flows.frame (h : Flows ctx Choice ls is os os') (us : List Operand) :
    ∃ us', us'.map Operand.type = us.map Operand.type ∧
      Flows ctx Choice ls is (os ++ us) (os' ++ us') := by
  induction h generalizing us with
  | nil => exact ⟨us, rfl, .nil⟩
  | cons h _ ih =>
    cases h with
    | plain h htypes hchoice os =>
      obtain ⟨us', hus, hrest⟩ := ih us
      refine ⟨us', hus, ?_⟩
      rw [List.append_assoc] at hrest ⊢
      exact .cons (.plain h htypes hchoice _) hrest
    | diverts h htypes hconjured os =>
      obtain ⟨us', hus, hrest⟩ := ih (us.map Operand.conjure)
      refine ⟨us', hus.trans (Operand.map_type_conjure us), ?_⟩
      rw [List.append_assoc]
      refine .cons (.diverts h htypes ?_ _) hrest
      exact List.forall_mem_append.mpr ⟨hconjured, Operand.conjured_of_mem us⟩
  | construct hopens hbody hresult _ _ ih =>
    obtain ⟨us', hus, hrest⟩ := ih us
    rw [List.append_assoc] at hrest
    exact ⟨us', hus, .construct hopens hbody hresult hrest⟩
  | conditional hcond harm hresult harm' hresult' _ _ _ ih =>
    obtain ⟨us', hus, hrest⟩ := ih us
    rw [List.append_assoc] at hrest
    exact ⟨us', hus, .conditional hcond harm hresult harm' hresult' hrest⟩
  | oneArmed hcond harm _ _ ih =>
    obtain ⟨us', hus, hrest⟩ := ih us
    exact ⟨us', hus, .oneArmed hcond harm hrest⟩

theorem Instr.chooses_all (i : Instr) (os : List Operand) : i.Chooses (fun _ ↦ True) os := by
  unfold Instr.Chooses
  split <;> trivial

theorem HasType.flows {ts ts' : List ValueType} (h : HasType ctx ls is ts ts')
    (hos : os.map Operand.type = ts) : ∃ os', os'.map Operand.type = ts' ∧
      Flows ctx (fun _ ↦ True) ls is os os' := by
  induction h generalizing os with
  | empty =>
    obtain rfl := List.map_eq_nil_iff.mp hos
    exact ⟨[], rfl, .nil⟩
  | append _ _ ih ih' =>
    obtain ⟨os₁, hos₁, h⟩ := ih hos
    obtain ⟨os₂, hos₂, h'⟩ := ih' hos₁
    exact ⟨os₂, hos₂, h.append h'⟩
  | frame _ us ih =>
    obtain ⟨top, below, rfl, htop, hbelow⟩ := List.map_eq_append_iff.mp hos
    obtain ⟨os', hos', h⟩ := ih htop
    obtain ⟨below', hbelow', h⟩ := h.frame below
    exact ⟨os' ++ below', by rw [List.map_append, hos', hbelow', hbelow], h⟩
  | @plain ls i ts ts' h =>
    have hflow := Instr.Flow.plain h hos (i.chooses_all os) []
    rw [List.append_nil, List.append_nil] at hflow
    exact ⟨_, Operand.map_type_pushed ts', .cons hflow .nil⟩
  | diverts h us ts' =>
    obtain ⟨top, below, rfl, htop, -⟩ := List.map_eq_append_iff.mp hos
    refine ⟨(ts'.map Operand.pushed).map Operand.conjure, ?_, ?_⟩
    · rw [Operand.map_type_conjure, Operand.map_type_pushed]
    · exact .cons (.diverts h htop (Operand.conjured_of_mem _) below) .nil
  | @block ls r body _ ih =>
    obtain rfl := List.map_eq_nil_iff.mp hos
    obtain ⟨bs, hbs, hbody⟩ := ih List.map_nil
    refine ⟨r.toList.map Operand.pushed, Operand.map_type_pushed _, ?_⟩
    exact .construct (.block r) hbody hbs (by rw [List.append_nil]; exact .nil)
  | @loop ls r body _ ih =>
    obtain rfl := List.map_eq_nil_iff.mp hos
    obtain ⟨bs, hbs, hbody⟩ := ih List.map_nil
    refine ⟨r.toList.map Operand.pushed, Operand.map_type_pushed _, ?_⟩
    exact .construct (.loop r) hbody hbs (by rw [List.append_nil]; exact .nil)
  | @conditional ls r arm arm' _ _ ih ih' =>
    obtain ⟨cond, rfl, hcond⟩ := List.map_eq_singleton_iff.mp hos
    obtain ⟨bs, hbs, harm⟩ := ih List.map_nil
    obtain ⟨bs', hbs', harm'⟩ := ih' List.map_nil
    refine ⟨r.toList.map Operand.pushed, Operand.map_type_pushed _, ?_⟩
    exact .conditional hcond harm hbs harm' hbs' (by rw [List.append_nil]; exact .nil)
  | oneArmed _ ih =>
    obtain ⟨cond, rfl, hcond⟩ := List.map_eq_singleton_iff.mp hos
    obtain ⟨bs, hbs, harm⟩ := ih List.map_nil
    obtain rfl := List.map_eq_nil_iff.mp hbs
    exact ⟨[], rfl, .oneArmed hcond harm .nil⟩

/-- Code with no operands to start from is typed just if operands flow through it, whatever they
are. -/
theorem hasType_iff_flows {ts : List ValueType} : HasType ctx ls is [] ts ↔
    ∃ os, os.map Operand.type = ts ∧ Flows ctx (fun _ ↦ True) ls is [] os := by
  constructor
  · intro h
    exact h.flows rfl
  · rintro ⟨os, rfl, h⟩
    exact h.hasType

end WasmEngine
