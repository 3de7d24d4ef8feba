import WasmEngine.Proofs.Evolution
import WasmEngine.Proofs.Instantiation

/-!
# 64-bit integers do not cross to the host

The numbers of the host cannot stand for a 64-bit integer, so where one would have to cross, an
operation fails. Where it is found out differs. A call with numbers looks at the parameters and at
the result before it begins. Linking looks at the type that a host function is about to get. A call
from code, or with values, has the arguments turned into numbers before the host function is
entered, so that one with such a parameter never is. But the result is turned into a value only when
there is one: a host function with such a result is entered, does what it does, and only then the
call fails.
-/

namespace WasmEngine

/-! ## Host functions in progress -/

/-- The type of the host function that runs, if there is one and it has a type. -/
def Control.hosts {A : Type} : Control A → List FuncType
  | .host type _ => type.toList
  | _ => []

def Frame.hosts {W : Type} : Frame W → List FuncType
  | .host type _ _ => type.toList
  | .code _ => []

/-- The types of the host functions that run or wait. -/
def Machine.hosts {A W : Type} (m : Machine A W) : List FuncType :=
  m.control.hosts ++ m.stack.flatMap Frame.hosts

def World.hosts : World → List FuncType
  | idle _ => []
  | running _ m => m.hosts

/-- No function of the types takes a 64-bit integer. -/
def Narrow (types : List FuncType) : Prop := ∀ type ∈ types, .i64 ∉ type.params

theorem narrow_nil : Narrow [] := List.forall_mem_nil _

theorem narrow_append {types types' : List FuncType} :
    Narrow (types ++ types') ↔ Narrow types ∧ Narrow types' := List.forall_mem_append

/-! ## Entering a host function -/

/-- How a call of a host function of the given type begins in the store `s`. Whether the function is
entered depends on the parameters of its type, and not on the result. -/
inductive HostFunc.Begins (f : HostFunc) (type : FuncType) (s : Store) (caller : Option Nat)
    (args : List Value) : Except Trap Entry → Store → Prop
  | full (hfull : s.config.maxCallDepth ≤ s.depth) :
      Begins f type s caller args (.error (.callStackExhausted s.depth)) s
  | barred (hroom : s.depth < s.config.maxCallDepth) (hi64 : .i64 ∈ type.params) :
      Begins f type s caller args (.error .i64AtBoundary) { s with depth := s.depth + 1 }
  | entered {numbers : List Number} (hroom : s.depth < s.config.maxCallDepth)
      (hi64 : .i64 ∉ type.params) (hnumbers : args.mapM Number.ofValue = .ok numbers) :
      Begins f type s caller args
        (.ok (.host (some type) (f.body (caller.map s.ref) numbers)))
        { s with depth := s.depth + 1, journal := s.journal.push ⟨f.tag, numbers⟩ }

theorem HostFunc.Begins.narrow {f : HostFunc} {type : FuncType} {s t : Store} {caller : Option Nat}
    {args : List Value} {e : Except Trap Entry} (h : f.Begins type s caller args e t) :
    Narrow (Engine.compiled.begin t e).hosts := by
  cases h with
  | full _ => exact narrow_nil
  | barred _ _ => exact narrow_nil
  | entered _ hi64 _ => exact List.forall_mem_singleton.mpr hi64

theorem Number.mapM_ofValue_cases (args : List Value) :
    (args.mapM Number.ofValue = .error .i64AtBoundary ∧ .i64 ∈ args.map Value.type) ∨
    ∃ numbers, args.mapM Number.ofValue = .ok numbers ∧ .i64 ∉ args.map Value.type := by
  cases hnumbers : args.mapM Number.ofValue with
  | error t =>
    obtain ⟨v, hv, ht⟩ := except_mapM_eq_error hnumbers
    cases v <;> cases ht
    exact .inl ⟨rfl, List.mem_map.mpr ⟨_, hv, rfl⟩⟩
  | ok numbers =>
    refine .inr ⟨numbers, rfl, fun hi64 ↦ ?_⟩
    obtain ⟨v, hv, htype⟩ := List.mem_map.mp hi64
    obtain ⟨x, -, hx⟩ := forall₂_exists_right (except_mapM_eq_ok.mp hnumbers) hv
    cases v <;> cases htype
    cases hx

namespace Exec

variable {s : Store}

theorem begin_host {addr : Nat} {type : FuncType} {f : HostFunc}
    (hfunc : s.funcs[addr]? = some (.host (some type) f)) (caller : Option Nat) {args : List Value}
    (hargs : args.map Value.type = type.params) :
    f.Begins type s caller args (begin (enter caller addr args) s).1
      (begin (enter caller addr args) s).2 := by
  have hfound := run_funcAt hfunc
  obtain hroom | hfull := Nat.lt_or_ge s.depth s.config.maxCallDepth
  · simp only [begin, enter, EStateM.run_bind, hfound, run_pushDepth_of_room hroom]
    obtain ⟨hnumbers, hi64⟩ | ⟨numbers, hnumbers, hi64⟩ := Number.mapM_ofValue_cases args
    · rw [hnumbers]
      exact .barred hroom (hargs ▸ hi64)
    · rw [hnumbers]
      exact .entered hroom (hargs ▸ hi64) hnumbers
  · simp only [begin, enter, EStateM.run_bind, hfound, run_pushDepth_of_full hfull]
    exact .full hfull

/-- A function that is called with arguments of its type and turns out to be one of the host takes
no 64-bit integer. -/
theorem narrow_begin {addr : Nat} {type : FuncType} (hfunc : s.HasFunc addr type)
    (caller : Option Nat) {args : List Value} (hargs : args.map Value.type = type.params) :
    Narrow (Engine.compiled.begin (begin (enter caller addr args) s).2
      (begin (enter caller addr args) s).1).hosts := by
  obtain ⟨c, hc, htype⟩ := hfunc
  cases c with
  | code inst code =>
    obtain hroom | hfull := Nat.lt_or_ge s.depth s.config.maxCallDepth
    · simp only [begin, enter, EStateM.run_bind, run_funcAt hc, run_pushDepth_of_room hroom]
      exact narrow_nil
    · simp only [begin, enter, EStateM.run_bind, run_funcAt hc, run_pushDepth_of_full hfull]
      exact narrow_nil
  | host type' f =>
    cases htype
    exact (begin_host hc caller hargs).narrow

end Exec

/-! ## Runs -/

/-- If the operation comes to a call of a host function, that takes no 64-bit integer. -/
inductive OperationNarrow {α : Type} : Operation α × Store → Prop
  | settled {a : α} {t : Store} : OperationNarrow (.settled a, t)
  | running {e : Except Trap Entry} {finish : Except Trap Answer → α} {t : Store}
      (he : Narrow (Engine.compiled.begin t e).hosts) : OperationNarrow (.running e finish, t)

namespace Operation

variable {s : Store}

theorem Begins.narrow {α : Type} {f : Ref .func} {o : Operation α × Store} (h : Begins s f o) :
    OperationNarrow o := by
  cases h with
  | settled a => exact .settled
  | @host _ g _ _ args _ =>
    refine .running ?_
    obtain hroom | hfull := Nat.lt_or_ge s.depth s.config.maxCallDepth
    · simp only [Exec.begin, EStateM.run_bind, Exec.run_pushDepth_of_room hroom]
      exact narrow_nil
    · simp only [Exec.begin, EStateM.run_bind, Exec.run_pushDepth_of_full hfull]
      exact narrow_nil
  | func _ hfunc htype hargs _ => exact .running (Exec.narrow_begin ⟨_, hfunc, htype⟩ none hargs)

theorem instantiate_narrow (hs : s.WellFormed) {m : Module} (hm : m.Decoded) (imports : Imports) :
    OperationNarrow (instantiate s m imports) := by
  obtain ⟨e, _, -, -, heq, -⟩ | ⟨r, t, i, h, heq | ⟨index, addr, -, -, hfunc, heq⟩⟩ :=
    instantiate_cases hs hm imports
  · rw [heq]
    exact .settled
  · rw [heq]
    exact .settled
  · rw [heq]
    exact .running (Exec.narrow_begin hfunc none rfl)

end Operation

namespace Engine

variable {s : Store} {stack : List (Frame Suspended)}

theorem stepCode_narrow {a : Activation} {i : Instance} {code : Code} (hs : s.WellFormed)
    (ha : a.Sound s i code) (hstack : Narrow (stack.flatMap Frame.hosts)) :
    Narrow (compiled.stepCode s a stack).hosts := by
  have hensures := ha.step_ensures hs
  unfold stepCode
  split
  · exact hstack
  · rename_i caller addr args w t hrun
    obtain ⟨-, -, callee, hfunc, hargs, -⟩ := hensures.of_ok hrun
    exact narrow_append.mpr ⟨Exec.narrow_begin hfunc (some caller) hargs, hstack⟩
  · exact hstack
  · exact hstack

theorem suspend_narrow {α : Type} {type : Option FuncType} {base : Nat} {next : α → HostProgram}
    {o : Operation α × Store} (ho : OperationNarrow o)
    (hstack : Narrow (type.toList ++ stack.flatMap Frame.hosts)) :
    Narrow (compiled.suspend type base next stack o).hosts := by
  cases ho with
  | settled => exact hstack
  | running he => exact narrow_append.mpr ⟨he, hstack⟩

theorem stepHost_narrow {type : Option FuncType} {p : HostProgram} (hs : s.WellFormed)
    (hp : p.Lawful) (hstack : Narrow (type.toList ++ stack.flatMap Frame.hosts)) :
    Narrow (compiled.stepHost s type stack p).hosts := by
  cases hp with
  | done r => cases r <;> exact (narrow_append.mp hstack).2
  | query _ => exact hstack
  | call _ => exact suspend_narrow (Operation.call_begins _).narrow hstack
  | callValues _ => exact suspend_narrow (Operation.callValues_begins _).narrow hstack
  | instantiate hm _ => exact suspend_narrow (Operation.instantiate_narrow hs hm _) hstack
  | newFunc _ _ => exact hstack

theorem next_narrow {base : Option FuncType} {m m' : Machine Activation Suspended}
    (hm : m.Sound base) (hnext : compiled.next m = .next m') (h : Narrow m.hosts) :
    Narrow m'.hosts := by
  obtain ⟨s, control, stack⟩ := m
  obtain ⟨hs, type, hcontrol, hstack⟩ := hm
  cases hcontrol with
  | code ha =>
    cases hnext
    exact stepCode_narrow hs ha h
  | host hp =>
    cases hnext
    exact stepHost_narrow hs hp h
  | @answer _ r hr =>
    cases hstack with
    | nil => cases hnext
    | code hw _ =>
      cases r with
      | error x =>
        cases hnext
        exact h
      | ok answer =>
        cases hnext
        obtain ⟨a, hdeliver, -⟩ := deliver_eq hw hr
        rw [hdeliver]
        exact h
    | host _ _ => cases r <;> cases hnext <;> exact h

end Engine

namespace World

theorem ofOperation_narrow {α : Type} {base : Nat} {o : Operation α × Store}
    (h : OperationNarrow o) : Narrow (ofOperation base o).hosts := by
  cases h with
  | settled => exact narrow_nil
  | running he => exact narrow_append.mpr ⟨he, narrow_nil⟩

theorem Step.narrow {w w' : World} {issued : List Handle} (hsound : w.Sound) (hw : Narrow w.hosts)
    (h : w.Step issued w') : Narrow w'.hosts := by
  cases h with
  | query s q => exact narrow_nil
  | newFunc s type hf => exact narrow_nil
  | call s f args => exact ofOperation_narrow (Operation.call_begins args).narrow
  | callValues s f args => exact ofOperation_narrow (Operation.callValues_begins args).narrow
  | instantiate s hm imports =>
    exact ofOperation_narrow (Operation.instantiate_narrow hsound hm imports)
  | next h => exact Engine.next_narrow hsound.choose_spec h hw
  | done h => exact narrow_nil

/-- Whatever is done with a new store, no host function is entered that takes a 64-bit integer. -/
theorem Reachable.narrow {w : World} (hw : w.Reachable) : Narrow w.hosts := by
  obtain ⟨id, config, hleads⟩ := hw
  induction hleads with
  | refl => exact narrow_nil
  | tail hleads hstep ih =>
    obtain ⟨issued, hstep⟩ := hstep
    exact hstep.narrow (Reachable.sound ⟨id, config, hleads⟩) ih

end World

/-! ## Operations that are refused -/

/-- What a call with numbers fails with if a 64-bit integer would have to cross. -/
def FuncType.barrier (type : FuncType) (args : List Number) : Trap :=
  if args.length ≠ type.params.length then .argumentCount type.params.length args.length
  else .i64AtBoundary

theorem Store.funcType_eq_some {s : Store} {f : Ref .func} {type : FuncType}
    (h : s.funcType f = some type) :
    ∃ addr c, s.resolve f = some addr ∧ s.funcs[addr]? = some c ∧ c.type? = some type := by
  obtain ⟨addr, haddr, h⟩ := Option.bind_eq_some_iff.mp h
  obtain ⟨c, hc, htype⟩ := Option.bind_eq_some_iff.mp h
  exact ⟨addr, c, haddr, hc, htype⟩

namespace Operation

variable {s : Store} {f : Ref .func} {type : FuncType}

theorem call_of_i64 (htype : s.funcType f = some type)
    (hi64 : .i64 ∈ type.params ∨ type.result = some .i64) (args : List Number) :
    call s f args = (.settled (.error (type.barrier args)), s) := by
  obtain ⟨addr, c, haddr, hc, hctype⟩ := Store.funcType_eq_some htype
  unfold call FuncType.barrier
  rw [haddr]
  dsimp only
  split
  · rename_i hnone
    cases hc.symm.trans hnone
  · rename_i hhost
    cases hc.symm.trans hhost
    cases hctype
  · rename_i callable _ hcallable
    cases hc.symm.trans hcallable
    rw [hctype]
    dsimp only [Option.getD_some]
    split
    · rfl
    · rename_i hlen
      split
      · rfl
      · rename_i hresult
        have hparam := hi64.resolve_right hresult
        split
        · rename_i t ht
          obtain ⟨p, -, hp⟩ := except_mapM_eq_error ht
          obtain ⟨x, u⟩ := p
          cases u <;> cases hp
          rfl
        · rename_i values hvalues
          -- Each parameter has a number, and none becomes a 64-bit integer.
          have hall := except_mapM_eq_ok.mp hvalues
          have hmem : .i64 ∈ (args.zip type.params).map Prod.snd := by
            rwa [List.map_snd_zip (Nat.le_of_eq (not_not.mp hlen).symm)]
          obtain ⟨p, hp, hpi64⟩ := List.mem_map.mp hmem
          obtain ⟨x, u⟩ := p
          cases hpi64
          obtain ⟨v, -, hv⟩ := forall₂_exists_right hall hp
          cases hv

theorem mistyped?_map_type (k : Nat) (args : List Value) :
    mistyped? k args (args.map Value.type) = none := by
  induction args generalizing k with
  | nil => rfl
  | cons v args ih =>
    rw [List.map_cons, mistyped?, if_pos rfl]
    exact ih (k + 1)

theorem callValues_mistyped {addr : Nat} {c : Callable} (haddr : s.resolve f = some addr)
    (hfunc : s.funcs[addr]? = some c) (htype : c.type? = some type) {args : List Value}
    (hargs : args.map Value.type ≠ type.params) :
    ∃ t, callValues s f args = (.settled (.error t), s) := by
  simp only [callValues, haddr, hfunc, htype]
  split
  · exact ⟨_, rfl⟩
  · rename_i hlen
    split
    · exact ⟨_, rfl⟩
    · rename_i hnone
      exact absurd (type_of_mistyped (not_not.mp hlen) hnone) hargs

theorem callValues_typed {addr : Nat} {c : Callable} (haddr : s.resolve f = some addr)
    (hfunc : s.funcs[addr]? = some c) (htype : c.type? = some type) {args : List Value}
    (hargs : args.map Value.type = type.params) :
    callValues s f args = (.running (Exec.begin (Exec.enter none addr args) s).1
      (· >>= Answer.toValue), (Exec.begin (Exec.enter none addr args) s).2) := by
  have hlen : args.length = type.params.length := by rw [← hargs, List.length_map]
  have htyped : mistyped? 0 args type.params = none := hargs ▸ mistyped?_map_type 0 args
  simp only [callValues, haddr, hfunc, htype, hlen, ne_eq, not_true_eq_false, if_false, htyped]

end Operation

/-- A call that was counted but not begun is no longer counted when it is over. -/
theorem Store.callValues_of_i64 {s : Store} {type : FuncType} {g : HostFunc}
    (hi64 : .i64 ∈ type.params) {f : Ref .func} {addr : Nat} (haddr : s.resolve f = some addr)
    (hfunc : s.funcs[addr]? = some (.host (some type) g)) (args : List Value) (fuel : Nat) :
    ∃ t, s.callValues (fuel + 1) f args = some (.error t, s) ∧
      (args.map Value.type = type.params → s.depth < s.config.maxCallDepth →
        t = .i64AtBoundary) := by
  by_cases hargs : args.map Value.type = type.params
  · have hop := Operation.callValues_typed haddr hfunc rfl hargs
    have hbegins := Exec.begin_host hfunc none hargs
    revert hop hbegins
    generalize (Exec.begin (Exec.enter none addr args) s).1 = e
    generalize (Exec.begin (Exec.enter none addr args) s).2 = t
    intro hop hbegins
    rw [Store.callValues, hop]
    cases hbegins with
    | full hfull => exact ⟨_, rfl, fun _ hroom ↦ absurd hfull (Nat.not_le_of_lt hroom)⟩
    | barred _ _ => exact ⟨_, rfl, fun _ _ ↦ rfl⟩
    | entered _ hnot _ => exact absurd hi64 hnot
  · obtain ⟨t, hop⟩ := Operation.callValues_mistyped haddr hfunc rfl hargs
    refine ⟨t, ?_, fun h ↦ absurd h hargs⟩
    rw [Store.callValues, hop]
    rfl

theorem hostAnswer_of_i64 {type : FuncType} (hi64 : type.result = some .i64) (x : Option Number) :
    hostAnswer (some type) x =
      .error (if x.isSome then .i64AtBoundary else .unexpectedHostResult) := by
  cases x <;> simp only [hostAnswer, hi64] <;> rfl

namespace Link

variable {t : Store} {m : Module} {imports : Imports} {imp : Import}

theorem importedItem_found {item : Extern} (hmodule : imports.hasModule imp.module = true)
    (hitem : imports.get? imp.module imp.name = some item) (hkind : item.kind = imp.desc.kind)
    {E : InstantiationError → Store → Prop} :
    Ensures (importedItem imports imp) t (fun x t' ↦ x = item ∧ t' = t) E := by
  refine .ite (fun hnot ↦ ?_) fun _ ↦ ?_
  · rw [hmodule] at hnot
    cases hnot
  · simp only [hitem]
    exact .ite (fun hne ↦ absurd hkind hne) fun _ ↦ .pure ⟨rfl, rfl⟩

theorem resolve_found {arena : Arena} {r : Ref arena} {addr : Nat}
    (haddr : t.resolve r = some addr) {E : InstantiationError → Store → Prop} :
    Ensures (resolve imp r) t (fun a t' ↦ a = addr ∧ t' = t) E := by
  refine .get_bind ?_
  rw [haddr]
  exact .pure ⟨rfl, rfl⟩

/-- A host function without a type is not bound to one that mentions a 64-bit integer. -/
theorem bindImport_of_i64 {index addr : Nat} {expected : FuncType} {r : Ref .func} {f : HostFunc}
    (hmodule : imports.hasModule imp.module = true)
    (hitem : imports.get? imp.module imp.name = some (.func r)) (hdesc : imp.desc = .func index)
    (hexpected : m.types[index]? = some expected) (hi64 : expected.mentionsI64 = true)
    (haddr : t.resolve r = some addr) (hfunc : t.funcs[addr]? = some (.host none f))
    {sp : IndexSpaces} :
    Ensures (bindImport m imports sp imp) t (fun _ _ ↦ False)
      (fun e _ ↦ e = .link (.badImport imp.module imp.name .i64AtBoundary)) := by
  have hkind : (Extern.func r).kind = imp.desc.kind := by
    rw [hdesc]
    rfl
  refine .bind (importedItem_found hmodule hitem hkind) ?_
  rintro _ _ ⟨rfl, rfl⟩
  simp only [hdesc, hexpected]
  refine .bind (resolve_found haddr) ?_
  rintro _ _ ⟨rfl, rfl⟩
  refine .bind_of_fails (.get_bind ?_)
  rw [hfunc]
  dsimp only
  rw [if_pos hi64]
  exact .throw rfl

end Link

/-! ## The boundary -/

/-- Where 64-bit integers are kept from crossing in a world. -/
structure World.BarsI64 (w : World) : Prop where
  /-- A call with numbers is settled at once if the type has such a parameter or result. -/
  call {f : Ref .func} {type : FuncType} (htype : w.store.funcType f = some type)
    (hi64 : .i64 ∈ type.params ∨ type.result = some .i64) (args : List Number) :
    Operation.call w.store f args = (.settled (.error (type.barrier args)), w.store) ∧
    ∀ fuel, w.store.call fuel f args = some (.error (type.barrier args), w.store)
  /-- A host function without a type is not linked as one of such a type. -/
  link {m : Module} {imports : Imports} {before after : List Import} {imp : Import}
    {index addr : Nat} {expected : FuncType} {r : Ref .func} {f : HostFunc} (hm : m.Decoded)
    (himports : w.Supplies imports) (hsplit : m.imports = before ++ imp :: after)
    (hdesc : imp.desc = .func index) (hexpected : m.types[index]? = some expected)
    (hi64 : expected.mentionsI64 = true) (hmodule : imports.hasModule imp.module = true)
    (hitem : imports.get? imp.module imp.name = some (.func r))
    (haddr : w.store.resolve r = some addr)
    (hfunc : w.store.funcs[addr]? = some (.host none f)) :
    w.store.RefusesAfter m imports before (.badImport imp.module imp.name .i64AtBoundary)
  /-- How a call with values of a host function begins. -/
  callValues {f : Ref .func} {addr : Nat} {type : FuncType} {g : HostFunc}
    (haddr : w.store.resolve f = some addr)
    (hfunc : w.store.funcs[addr]? = some (.host (some type) g)) {args : List Value}
    (hargs : args.map Value.type = type.params) :
    ∃ e t, Operation.callValues w.store f args = (.running e (· >>= Answer.toValue), t) ∧
      g.Begins type w.store none args e t
  /-- What it comes to if there is such a parameter. -/
  barred {f : Ref .func} {addr : Nat} {type : FuncType} {g : HostFunc}
    (haddr : w.store.resolve f = some addr)
    (hfunc : w.store.funcs[addr]? = some (.host (some type) g)) (hi64 : .i64 ∈ type.params)
    (args : List Value) (fuel : Nat) :
    ∃ t, w.store.callValues (fuel + 1) f args = some (.error t, w.store) ∧
      (args.map Value.type = type.params → w.store.depth < w.store.config.maxCallDepth →
        t = .i64AtBoundary)
  /-- How a call of a host function begins that code makes. -/
  code {base addr caller : Nat} {s t : Store} {a : Activation} {stack : List (Frame Suspended)}
    {args : List Value} {wait : Suspended} {type : FuncType} {g : HostFunc}
    (hw : w = .running base ⟨s, .code a, stack⟩)
    (hcall : a.step.run s = .ok (.call caller addr args wait) t)
    (hfunc : t.funcs[addr]? = some (.host (some type) g)) :
    ∃ e t', Engine.compiled.next ⟨s, .code a, stack⟩ =
        .next ⟨t', Engine.compiled.begin t' e, .code wait :: stack⟩ ∧
      g.Begins type t (some caller) args e t'
  /-- So no host function that runs or waits has such a parameter. -/
  params : ∀ type ∈ w.hosts, .i64 ∉ type.params
  /-- One with such a result gives none when it ends. -/
  result {base : Nat} {s : Store} {type : FuncType} {x : Option Number}
    {stack : List (Frame Suspended)}
    (hw : w = .running base ⟨s, .host (some type) (.done (.ok x)), stack⟩)
    (hi64 : type.result = some .i64) :
    Engine.compiled.next ⟨s, .host (some type) (.done (.ok x)), stack⟩ =
      .next ⟨{ s with depth := s.depth - 1 },
        .answer (.error (if x.isSome then .i64AtBoundary else .unexpectedHostResult)), stack⟩

/-- In every reachable world 64-bit integers stay on their side of the boundary. Calls with numbers
are refused before anything runs, while a host function is stopped where it would be entered with
such a parameter or would hand out such a result. -/
theorem World.Reachable.bars_i64 {w : World} (hw : w.Reachable) : w.BarsI64 where
  call htype hi64 args := by
    have hop := Operation.call_of_i64 htype hi64 args
    refine ⟨hop, fun fuel ↦ ?_⟩
    rw [Store.call, hop]
    rfl
  link hm himports hsplit hdesc hexpected hi64 hmodule hitem haddr hfunc := by
    refine hw.sound.wellFormed.refusesAfter hm himports.knownTo hsplit fun sp t hgrows ↦ ?_
    refine Link.bindImport_of_i64 hmodule hitem hdesc hexpected hi64 ?_
      (hgrows.extends.funcs hfunc)
    rw [Store.resolve, hgrows.id]
    exact haddr
  callValues haddr hfunc _ hargs :=
    ⟨_, _, Operation.callValues_typed haddr hfunc rfl hargs, Exec.begin_host hfunc none hargs⟩
  barred haddr hfunc hi64 args fuel := Store.callValues_of_i64 hi64 haddr hfunc args fuel
  code {base addr caller s t a stack args wait type g} heq hcall hfunc := by
    have hsound := hw.sound
    rw [heq] at hsound
    obtain ⟨_, hm⟩ := hsound
    obtain ⟨i, code, ha⟩ := hm.activation rfl
    obtain ⟨-, -, callee, ⟨c, hc, htype⟩, hargs, -⟩ := (ha.step_ensures hm.wellFormed).of_ok hcall
    cases hc.symm.trans hfunc
    cases htype
    refine ⟨_, _, ?_, Exec.begin_host hfunc (some caller) hargs⟩
    have hstep : (Engine.compiled.step a).run s = .ok (.call caller addr args wait) t := hcall
    simp only [Engine.next, Engine.stepCode, hstep]
  params := hw.narrow
  result {base s type x stack} _ hi64 := by
    simp only [Engine.next, Engine.stepHost, hostAnswer_of_i64 hi64]

def oneFunc : HostFunc := ⟨7, fun _ _ ↦ .done (.ok (some (.ofInt 1)))⟩

/-- A store with that function twice: with a 64-bit result, and with a 64-bit parameter. -/
def wideStore : Store :=
  ((Store.newFunc { id := 0 } (some ⟨[], [.i64]⟩) oneFunc).2.newFunc (some ⟨[.i64], []⟩) oneFunc).2

theorem wideStore_reachable : (World.idle wideStore).Reachable := by
  have hlawful : oneFunc.Lawful := fun _ _ ↦ .done _
  exact ⟨0, {}, .tail (.single ⟨_, .newFunc _ _ hlawful⟩) ⟨_, .newFunc _ _ hlawful⟩⟩

/-- The first function cannot be called with numbers, and the second not even with values. -/
theorem wideStore_bars_i64 :
    (World.idle wideStore).Reachable ∧
      (∀ fuel, wideStore.call fuel ⟨0, 0⟩ [] = some (.error .i64AtBoundary, wideStore)) ∧
      ∀ fuel v, wideStore.callValues (fuel + 1) ⟨0, 1⟩ [.i64 v] =
        some (.error .i64AtBoundary, wideStore) := by
  have hbars := wideStore_reachable.bars_i64
  have htype : wideStore.funcType ⟨0, 0⟩ = some ⟨[], [.i64]⟩ := rfl
  have haddr : wideStore.resolve (⟨0, 1⟩ : Ref .func) = some 1 := rfl
  have hfunc : wideStore.funcs[1]? = some (.host (some ⟨[.i64], []⟩) oneFunc) := rfl
  refine ⟨wideStore_reachable, (hbars.call htype (.inr rfl) []).2, fun fuel v ↦ ?_⟩
  obtain ⟨t, hcall, ht⟩ :=
    hbars.barred haddr hfunc (List.mem_singleton.mpr rfl) [.i64 v] fuel
  rw [ht rfl (by decide +kernel)] at hcall
  exact hcall

/-- The function with a 64-bit result is entered by a call with values, and only then the call
fails. -/
theorem wideStore_entered :
    ∃ w : World, w.Reachable ∧ (∃ type ∈ w.hosts, type.result = some .i64) ∧
      wideStore.journal = #[] ∧
      (wideStore.callValues 9 ⟨0, 0⟩ []).map (fun r ↦ (r.1, r.2.journal)) =
        some (.error .i64AtBoundary, #[⟨7, []⟩]) := by
  obtain ⟨id, config, hleads⟩ := wideStore_reachable
  refine ⟨_, ⟨id, config, hleads.tail ⟨_, .callValues wideStore ⟨0, 0⟩ []⟩⟩, ?_, rfl,
    by decide +kernel⟩
  exact ⟨⟨[], [.i64]⟩, List.mem_singleton.mpr rfl, rfl⟩

end WasmEngine
