import WasmEngine.Proofs.BodyGrammar
import WasmEngine.Proofs.OperandFlow

/-!
# Which function bodies compile

A body compiles just if its instructions are nested within the bound and operands flow through it
to the result of the function. The rules for operands are those of the type system, with one
exception: in code that cannot be reached, a `select` that finds no operand to decide its type
takes an `i32`. So whatever compiles is well typed, and what is well typed compiles unless it needs
such a `select` at another type.
-/

namespace WasmEngine

open Operand

/-! ## Opening and closing scopes -/

namespace Scope

/-- The operand that a branch to a scope of this kind carries. -/
def Kind.labelType (kind : Kind) (result : Option ValueType) : Option ValueType :=
  match kind with
  | .loop => none
  | _ => result

/-- The operands left in the scope are its result. -/
def Ends (s : Scope) : Prop := ∃ bs, s.Admits bs ∧ bs.map Operand.type = s.result.toList

/-- A scope of this kind can be closed: only a conditional without a result can do without a second
arm. -/
def Kind.Closable (kind : Kind) (result : Option ValueType) : Prop :=
  ∀ cond, kind = .thenArm cond → result = none

variable {s : Scope} {os : List Operand} {r : Option ValueType}

theorem admits_of_types (h : s.types = []) : s.Admits [] :=
  ⟨[], by rw [h]; rfl, List.forall_mem_nil _, fun _ ↦ rfl⟩

theorem after_sameFrame (s : Scope) (stmt : Stmt) (r : Option ValueType) :
    s.SameFrame (s.after stmt r) := by
  cases r <;> exact ⟨rfl, rfl, rfl, rfl⟩

/-- Behind a construct lies its result, on top of what was there before. -/
theorem admits_after {stmt : Stmt} : (s.after stmt r).Admits os ↔
    ∃ rest, os = r.toList.map pushed ++ rest ∧ s.Admits rest := by
  cases r with
  | none => exact ⟨fun h ↦ ⟨os, rfl, h⟩, fun ⟨_, h, h'⟩ ↦ h ▸ h'⟩
  | some t =>
    constructor
    · rintro ⟨below, rfl, h⟩
      exact ⟨_, rfl, below, rfl, h⟩
    · rintro ⟨_, rfl, below, rfl, h⟩
      exact ⟨below, rfl, h⟩

end Scope

namespace Build

variable {ctx : Context} {d d' : Draft} {pos : Nat} {u : Unit}

/-- The check at the end of a scope passes just if its operands are its result. -/
theorem checkEnd_iff {s : Scope} : (checkEnd pos s).run d = .ok u d' ↔ s.Ends ∧ d = d' := by
  constructor
  · intro h
    obtain ⟨rfl, ⟨hresult, htypes⟩ | ⟨t, hresult, htypes⟩ | ⟨hdead, htypes⟩⟩ := checkEnd_eq_ok h
    · exact ⟨⟨[], s.admits_of_types htypes, by rw [hresult]; rfl⟩, rfl⟩
    · refine ⟨⟨[pushed t], ⟨[], by rw [htypes]; rfl, List.forall_mem_nil _, fun _ ↦ rfl⟩, ?_⟩, rfl⟩
      rw [hresult]
      rfl
    · refine ⟨⟨(s.result.toList.map pushed).map conjure, ⟨_, by rw [htypes]; rfl,
        conjured_of_mem _, ?_⟩, ?_⟩, rfl⟩
      · rw [hdead]
        intro hlive
        cases hlive
      · rw [map_type_conjure, map_type_pushed]
  · rintro ⟨⟨bs, ⟨below, rfl, -, hlive⟩, htypes⟩, rfl⟩
    rw [List.map_append, map_type_pushed] at htypes
    cases hresult : s.result with
    | none =>
      rw [hresult] at htypes
      obtain ⟨hnil, -⟩ := List.append_eq_nil_iff.mp htypes
      simp only [checkEnd, hresult, hnil]
      rfl
    | some t =>
      rw [hresult, Option.toList_some, List.append_eq_singleton_iff] at htypes
      obtain ⟨hnil, hbelow⟩ | ⟨hsingle, -⟩ := htypes
      · have hdead : s.unreachable = true := by
          by_contra hlive'
          rw [hlive (by simpa using hlive')] at hbelow
          cases hbelow
        simp only [checkEnd, hresult, hnil, hdead]
        rfl
      · simp only [checkEnd, hresult, hsingle, ne_eq, not_true, if_false]
        rfl

/-- A scope is opened just if the nesting limit allows it. -/
theorem openScope_iff {kind : Scope.Kind} {result : Option ValueType} :
    (openScope ctx pos kind result).run d = .ok u d' ↔ d.scopes.length ≤ ctx.maxControlDepth ∧
      { d with
        scope := { kind, result, label := d.scopes.length, base := d.scope.height, offset := pos }
        outer := d.scopes } = d' := by
  simp only [openScope, run_bind_eq_ok, run_get_eq_ok, run_ite]
  constructor
  · rintro ⟨_, _, ⟨rfl, rfl⟩, h⟩
    split at h
    · simp only [run_bind_eq_ok, run_fail_eq_ok, false_and, exists_false] at h
    · rename_i hdepth
      exact ⟨Nat.le_of_not_lt hdepth, run_set_eq_ok.mp h⟩
  · rintro ⟨hdepth, h⟩
    refine ⟨d, d, ⟨rfl, rfl⟩, ?_⟩
    rw [if_neg (Nat.not_lt_of_le hdepth)]
    exact run_set_eq_ok.mpr h

def otherArm (s : Scope) (cond : Slot) : Scope :=
  { s with
    kind := .elseArm cond s.body.toList
    types := []
    live := Lanes.zero
    unreachable := false
    body := #[] }

/-- A second arm is begun just behind a first arm that ends. -/
theorem beginElse_iff : (beginElse pos).run d = .ok u d' ↔
    ∃ cond, d.scope.kind = .thenArm cond ∧ d.scope.Ends ∧
      { d with scope := otherArm d.scope cond } = d' := by
  simp only [beginElse, run_bind_eq_ok, run_get_eq_ok]
  constructor
  · rintro ⟨_, _, ⟨rfl, rfl⟩, h⟩
    split at h
    · rename_i cond hkind
      simp only [run_bind_eq_ok, run_set_eq_ok] at h
      obtain ⟨_, _, hend, rfl⟩ := h
      obtain ⟨hends, rfl⟩ := checkEnd_iff.mp hend
      exact ⟨cond, hkind, hends, rfl⟩
    · exact (run_fail_eq_ok.mp h).elim
  · rintro ⟨cond, hkind, hends, rfl⟩
    refine ⟨d, d, ⟨rfl, rfl⟩, ?_⟩
    rw [hkind]
    exact run_bind_eq_ok.mpr ⟨(), d, checkEnd_iff.mpr ⟨hends, rfl⟩, rfl⟩

theorem closable_of_closed {s : Scope} {stmt : Stmt} (h : (closed s).run d = .ok stmt d') :
    s.kind.Closable s.result := by
  intro cond hkind
  by_contra hresult
  rw [closed, hkind] at h
  dsimp only at h
  rw [if_pos (Option.isSome_iff_ne_none.mpr hresult)] at h
  exact run_fail_eq_ok.mp h

/-- A scope that may be closed is. -/
theorem run_closed {s : Scope} (h : s.kind.Closable s.result) (d : Draft) :
    ∃ stmt, (closed s).run d = .ok stmt d := by
  unfold closed
  cases hkind : s.kind with
  | thenArm cond =>
    dsimp only
    rw [h cond hkind]
    exact ⟨_, rfl⟩
  | _ => exact ⟨_, rfl⟩

/-- A scope that was closed has ended properly. -/
theorem ends_of_endScope {s parent : Scope} {outer : List Scope}
    (h : (endScope pos s parent outer).run d = .ok u d') : s.Ends ∧ s.kind.Closable s.result ∧
      ∃ stmt, d'.scope = parent.after stmt s.result ∧ d'.outer = outer := by
  obtain ⟨_, _, hend, -⟩ := run_bind_eq_ok.mp h
  obtain ⟨stmt, _, -, hclosed, hafter⟩ := endScope_eq_ok h
  exact ⟨(checkEnd_iff.mp hend).1, closable_of_closed hclosed, stmt, hafter⟩

/-- A scope that ends properly is closed. -/
theorem run_endScope {s : Scope} (pos : Nat) (hends : s.Ends) (hclosable : s.kind.Closable s.result)
    (parent : Scope) (outer : List Scope) (d : Draft) :
    ∃ stmt d', (endScope pos s parent outer).run d = .ok () d' ∧
      d'.scope = parent.after stmt s.result ∧ d'.outer = outer := by
  obtain ⟨stmt, hstmt⟩ := run_closed hclosable d
  have hend : (checkEnd pos s).run d = .ok () d := checkEnd_iff.mpr ⟨hends, rfl⟩
  unfold endScope
  cases s.result with
  | none =>
    exact ⟨stmt, _, run_bind_eq_ok.mpr ⟨_, _, hend, run_bind_eq_ok.mpr ⟨_, _, hstmt, rfl⟩⟩, rfl,
      rfl⟩
  | some t =>
    exact ⟨stmt, _, run_bind_eq_ok.mpr ⟨_, _, hend, run_bind_eq_ok.mpr ⟨_, _, hstmt, rfl⟩⟩, rfl,
      rfl⟩

/-- A function is finished just if it ends. -/
theorem exists_finish_iff (pos : Nat) :
    (∃ body d', (finish pos).run d = .ok body d') ↔ d.scope.Ends := by
  constructor
  · rintro ⟨body, d', h⟩
    obtain ⟨_, _, hget, h⟩ := run_bind_eq_ok.mp h
    obtain ⟨rfl, rfl⟩ := run_get_eq_ok.mp hget
    obtain ⟨_, _, hend, -⟩ := run_bind_eq_ok.mp h
    exact (checkEnd_iff.mp hend).1
  · intro hends
    have hend : (checkEnd pos d.scope).run d = .ok () d := checkEnd_iff.mpr ⟨hends, rfl⟩
    suffices h : ∃ body, (finish pos).run d = .ok body d from h.imp fun _ h ↦ ⟨d, h⟩
    simp only [finish, run_bind_eq_ok, run_get_eq_ok, run_ite]
    by_cases hdead : d.scope.unreachable = true
    · exact ⟨_, d, d, ⟨rfl, rfl⟩, (), d, hend, by rw [if_pos hdead]; rfl⟩
    · exact ⟨_, d, d, ⟨rfl, rfl⟩, (), d, hend, by rw [if_neg hdead]; rfl⟩

end Build

/-! ## Nesting -/

/-- With `depth` constructs open, the instructions never have more than `bound` of them open. -/
def NestsWithin (bound : Nat) : Nat → List Instr → Prop
  | _, [] => True
  | depth, i :: is => i.nesting depth ≤ bound ∧ NestsWithin bound (i.nesting depth) is

instance decidableNestsWithin (bound : Nat) :
    (depth : Nat) → (is : List Instr) → Decidable (NestsWithin bound depth is)
  | _, [] => .isTrue trivial
  | depth, i :: is =>
    have := decidableNestsWithin bound (i.nesting depth) is
    inferInstanceAs (Decidable (i.nesting depth ≤ bound ∧ NestsWithin bound (i.nesting depth) is))

variable {ctx : Context} {Choice : Operand → Prop} {ls : List (Option ValueType)}
  {is is' : List Instr} {os os' : List Operand} {bound depth : Nat}

/-- How deep code nests, part by part. -/
theorem nestsWithin_append : NestsWithin bound depth (is ++ is') ↔
    NestsWithin bound depth is ∧ NestsWithin bound (is.foldl Instr.nesting depth) is' := by
  induction is generalizing depth with
  | nil => simp only [List.nil_append, NestsWithin, List.foldl_nil, true_and]
  | cons i is ih => simp only [List.cons_append, NestsWithin, ih, List.foldl_cons, and_assoc]

theorem Instr.Flow.isStructural {i : Instr} (h : i.Flow ctx Choice ls os os') :
    i.isStructural = false := by
  obtain ⟨_, _, h⟩ | ⟨_, h⟩ := Build.flow_typed h <;> cases h <;> rfl

theorem Instr.nesting_of_plain {i : Instr} (h : i.isStructural = false) :
    i.nesting depth = depth := by
  cases i <;> first | rfl | cases h

theorem Instr.Opens.nesting_eq {i : Instr} {l r : Option ValueType} (h : i.Opens l r) :
    i.nesting depth = depth + 1 := by
  cases h <;> rfl

/-- Constructs that are opened along a flow are closed again. -/
theorem Flows.balanced (h : Flows ctx Choice ls is os os') (depth : Nat) :
    is.foldl Instr.nesting depth = depth := by
  induction h generalizing depth with
  | nil => rfl
  | cons h _ ih => rw [List.foldl_cons, Instr.nesting_of_plain h.isStructural, ih]
  | construct hopens _ _ _ ihbody ihrest =>
    rw [List.foldl_cons, List.foldl_append, ihbody, List.foldl_cons, hopens.nesting_eq]
    exact ihrest depth
  | conditional _ _ _ _ _ _ iharm iharm' ihrest =>
    rw [List.foldl_cons, List.foldl_append, iharm, List.foldl_cons, List.foldl_append, iharm',
      List.foldl_cons]
    exact ihrest depth
  | oneArmed _ _ _ iharm ihrest =>
    rw [List.foldl_cons, List.foldl_append, iharm, List.foldl_cons]
    exact ihrest depth

/-- An instruction that is compiled nests no deeper than allowed. -/
theorem Build.nesting_le_of_step {d d' : Draft} {pos : Nat} {i : Instr} {u : Unit}
    (hdepth : d.outer.length ≤ ctx.maxControlDepth) (h : (step ctx pos i).run d = .ok u d') :
    i.nesting d.outer.length ≤ ctx.maxControlDepth := by
  cases i with
  | block r | loop r => exact (openScope_iff.mp h).1
  | conditional r =>
    obtain ⟨_, d₁, hpop, h⟩ := run_bind_eq_ok.mp h
    have hcond : Acts d.labelTypes (popType pos .i32) _ := popType_acts .i32
    have hframe := (hcond.sound rfl hpop).1
    have hopen := (openScope_iff.mp h).1
    rwa [Draft.scopes, List.length_cons, hframe.outer] at hopen
  | close => exact Nat.le_trans (Nat.sub_le _ _) hdepth
  | _ => exact hdepth

/-- Nor does all code that is compiled, by induction on its instructions. -/
theorem Compiles.nestsWithin {d : Draft} {out : List Stmt × Lanes Nat} (h : Compiles ctx d is out)
    (hd : d.Sound ctx) (hdepth : d.outer.length ≤ ctx.maxControlDepth) :
    NestsWithin ctx.maxControlDepth d.outer.length is := by
  induction h with
  | finish houter _ =>
    rw [houter]
    exact ⟨Nat.zero_le _, trivial⟩
  | step _ h _ ih =>
    obtain ⟨hd', hnesting⟩ := Build.step_sound hd h
    have hle := Build.nesting_le_of_step hdepth h
    have hrest := ih hd' (hnesting ▸ hle)
    rw [hnesting] at hrest
    exact ⟨hle, hrest⟩

/-! ## What compiles is well typed -/

/-- What is left of a scope after the instructions of its first arm, if it has two. -/
inductive Tail (ctx : Context) (ls : List (Option ValueType)) (kind : Scope.Kind)
    (result : Option ValueType) : List Instr → Prop
  | closed (h : kind.Closable result) : Tail ctx ls kind result []
  | otherwise {cond : Slot} {arm : List Instr} {bs : List Operand} (hkind : kind = .thenArm cond)
      (h : Flows ctx Defaulted ls arm [] bs) (hresult : bs.map Operand.type = result.toList) :
      Tail ctx ls kind result (.otherwise :: arm)

/-- The instructions complete the scope, up to the `close` that ends it. -/
def Scope.Completes (ctx : Context) (ls : List (Option ValueType)) (s : Scope)
    (is : List Instr) : Prop :=
  ∃ arm tail os bs, is = arm ++ tail ∧ s.Admits os ∧ Flows ctx Defaulted ls arm os bs ∧
    bs.map Operand.type = s.result.toList ∧ Tail ctx ls s.kind s.result tail

/-- Once a scope with the result `r` is closed, the instructions complete the scopes around it. -/
def Scope.Follows (ctx : Context) : List Scope → Option ValueType → List Instr → Prop
  | [], _, is => is = []
  | p :: outer, r, is => ∃ inside rest stmt, is = inside ++ .close :: rest ∧
      (p.after stmt r).Completes ctx ((p :: outer).map labelType) inside ∧
      Follows ctx outer p.result rest

/-- The instructions complete the scope and then the scopes around it. -/
def Scope.Remains (ctx : Context) (outer : List Scope) (s : Scope) (is : List Instr) : Prop :=
  ∃ inside rest, is = inside ++ .close :: rest ∧
    s.Completes ctx ((s :: outer).map labelType) inside ∧ Follows ctx outer s.result rest

namespace Scope

variable {s s' : Scope} {outer : List Scope}

/-- Instructions may be put in front if operands flow through them to those of the scope. -/
theorem Remains.prepend (h : s'.Remains ctx outer is) (before : List Instr)
    (hframe : s.SameFrame s') (hflow : ∀ {arm : List Instr} {os' bs : List Operand},
      s'.Admits os' → Flows ctx Defaulted ((s :: outer).map labelType) arm os' bs →
      ∃ os, s.Admits os ∧ Flows ctx Defaulted ((s :: outer).map labelType) (before ++ arm) os bs) :
    s.Remains ctx outer (before ++ is) := by
  obtain ⟨_, rest, rfl, ⟨arm, tail, os', bs, rfl, hos', hbs, hresult, htail⟩, hrest⟩ := h
  rw [List.map_cons, hframe.labelType_eq, ← List.map_cons] at hbs htail
  rw [hframe.result] at hresult hrest htail
  rw [hframe.kind] at htail
  obtain ⟨os, hos, hflows⟩ := hflow hos' hbs
  refine ⟨before ++ arm ++ tail, rest, ?_, ⟨before ++ arm, tail, os, bs, rfl, hos, hflows, hresult,
    htail⟩, hrest⟩
  simp only [List.append_assoc]

theorem follows_cons {p : Scope} {r : Option ValueType} : Follows ctx (p :: outer) r is ↔
    ∃ stmt, (p.after stmt r).Remains ctx outer is := by
  have hlabel (stmt : Stmt) := (p.after_sameFrame stmt r).labelType_eq
  have hresult (stmt : Stmt) := (p.after_sameFrame stmt r).result
  constructor
  · rintro ⟨inside, rest, stmt, rfl, hinside, hrest⟩
    refine ⟨stmt, inside, rest, rfl, ?_, ?_⟩
    · rwa [List.map_cons, hlabel]
    · rwa [hresult]
  · rintro ⟨stmt, inside, rest, rfl, hinside, hrest⟩
    rw [List.map_cons, hlabel] at hinside
    rw [hresult] at hrest
    exact ⟨inside, rest, stmt, rfl, hinside, hrest⟩

/-- A scope that was just opened has no operands. -/
theorem eq_nil_of_admits (h : s.Admits os) (htypes : s.types = [])
    (hlive : s.unreachable = false) : os = [] := by
  obtain ⟨below, rfl, -, hbelow⟩ := h
  rw [htypes, hbelow hlive]
  rfl

end Scope

namespace Build

open Scope

variable {d d' : Draft} {pos : Nat} {i : Instr} {u : Unit} {r : Option ValueType}

/-- An instruction that opens and closes no scope, before the rest of its scope. -/
theorem remains_of_plain (hi : i.isStructural = false) (h : (step ctx pos i).run d = .ok u d')
    (hrest : d'.scope.Remains ctx d'.outer is) : d.scope.Remains ctx d.outer (i :: is) := by
  have hstep : Acts d.labelTypes (step ctx pos i) _ := step_acts hi
  obtain ⟨hframe, hacts⟩ := hstep.sound rfl h
  rw [hframe.outer] at hrest
  refine hrest.prepend [i] hframe.scope fun {arm os' bs} hos' harm ↦ ?_
  obtain ⟨os, hos, hflow⟩ := hacts os' hos'
  exact ⟨os, hos, .cons hflow harm⟩

/-- After a construct is opened, the instructions complete it and leave its result. -/
theorem remains_of_open {kind : Kind} (h : (openScope ctx pos kind r).run d = .ok u d')
    (hinner : d'.scope.Remains ctx d'.outer is) : ∃ arm tail rest bs stmt,
      is = arm ++ tail ++ .close :: rest ∧
      Flows ctx Defaulted (kind.labelType r :: d.labelTypes) arm [] bs ∧
      bs.map Operand.type = r.toList ∧ Tail ctx (kind.labelType r :: d.labelTypes) kind r tail ∧
      (d.scope.after stmt r).Remains ctx d.outer rest := by
  obtain ⟨-, rfl⟩ := openScope_iff.mp h
  obtain ⟨_, rest, rfl, ⟨arm, tail, os, bs, rfl, hos, harm, hresult, htail⟩, hrest⟩ := hinner
  obtain ⟨stmt, hrest⟩ := follows_cons.mp hrest
  obtain rfl := eq_nil_of_admits hos rfl rfl
  exact ⟨arm, tail, rest, bs, stmt, rfl, harm, hresult, htail, hrest⟩

/-- A block or a loop: the rest of its scope, and then the rest of the scope around it. -/
theorem remains_of_construct (kind : Kind) (hopens : i.Opens (kind.labelType r) r)
    (hkind : ∀ cond, kind ≠ .thenArm cond) (h : (openScope ctx pos kind r).run d = .ok u d')
    (hinner : d'.scope.Remains ctx d'.outer is) : d.scope.Remains ctx d.outer (i :: is) := by
  obtain ⟨body, _, rest, bs, stmt, rfl, hbody, hresult, htail, hrest⟩ := remains_of_open h hinner
  cases htail with
  | otherwise hthen => exact absurd hthen (hkind _)
  | closed =>
    have hremains := hrest.prepend (i :: (body ++ [.close])) (d.scope.after_sameFrame stmt r)
      fun {arm os' bs'} hos' harm ↦ by
        obtain ⟨os, rfl, hos⟩ := admits_after.mp hos'
        refine ⟨os, hos, ?_⟩
        rw [List.cons_append, List.append_assoc]
        exact .construct hopens hbody hresult harm
    rw [List.append_nil]
    rwa [List.cons_append, List.append_assoc] at hremains

/-- A conditional takes its condition first. -/
theorem remains_of_conditional (h : (step ctx pos (.conditional r)).run d = .ok u d')
    (hinner : d'.scope.Remains ctx d'.outer is) :
    d.scope.Remains ctx d.outer (.conditional r :: is) := by
  obtain ⟨cond, d₁, hpop, h⟩ := run_bind_eq_ok.mp h
  have hcond : Acts d.labelTypes (popType pos .i32) _ := popType_acts .i32
  obtain ⟨hframe, hpop⟩ := hcond.sound rfl hpop
  obtain ⟨arm, _, rest, bs, stmt, rfl, harm, hresult, htail, hrest⟩ := remains_of_open h hinner
  rw [hframe.labelTypes_eq] at harm htail
  rw [hframe.outer] at hrest
  have hframe' := hframe.scope.trans (d₁.scope.after_sameFrame stmt r)
  have hadmits {os' : List Operand} (hos' : (d₁.scope.after stmt r).Admits os') :
      ∃ o os, os' = r.toList.map pushed ++ os ∧ o.type = .i32 ∧ d.scope.Admits (o :: os) := by
    obtain ⟨os₁, rfl, hos₁⟩ := admits_after.mp hos'
    obtain ⟨_, hos, taken, _, htaken, rfl, rfl⟩ := hpop os₁ hos₁
    obtain ⟨o, rfl, ho⟩ := List.map_eq_singleton_iff.mp htaken
    exact ⟨o, _, rfl, ho, hos⟩
  cases htail with
  | closed hclosable =>
    obtain rfl := hclosable cond rfl
    obtain rfl := List.map_eq_nil_iff.mp hresult
    have hremains := hrest.prepend (.conditional none :: (arm ++ [.close])) hframe'
      fun {arm' os' bs'} hos' harm' ↦ by
        obtain ⟨o, _, rfl, ho, hos⟩ := hadmits hos'
        refine ⟨o :: os', hos, ?_⟩
        rw [List.cons_append, List.append_assoc]
        exact .oneArmed ho harm harm'
    rw [List.append_nil]
    rwa [List.cons_append, List.append_assoc] at hremains
  | @otherwise _ arm₂ _ _ harm₂ hresult₂ =>
    have hremains := hrest.prepend (.conditional r :: (arm ++ .otherwise :: (arm₂ ++ [.close])))
      hframe' fun {arm' os' bs'} hos' harm' ↦ by
        obtain ⟨o, os, rfl, ho, hos⟩ := hadmits hos'
        refine ⟨o :: os, hos, ?_⟩
        rw [List.cons_append, List.append_assoc, List.cons_append, List.append_assoc]
        exact .conditional ho harm hresult harm₂ hresult₂ harm'
    rw [List.append_assoc]
    rwa [List.cons_append, List.append_assoc, List.cons_append, List.append_assoc] at hremains

/-- The second arm ends like the first. -/
theorem remains_of_otherwise (h : (step ctx pos .otherwise).run d = .ok u d')
    (hrest : d'.scope.Remains ctx d'.outer is) :
    d.scope.Remains ctx d.outer (.otherwise :: is) := by
  obtain ⟨cond, hkind, ⟨bs, hbs, hresult⟩, rfl⟩ := beginElse_iff.mp h
  obtain ⟨_, rest, rfl, ⟨arm, _, os, bs', rfl, hos, harm, hresult', htail⟩, hrest⟩ := hrest
  obtain rfl := eq_nil_of_admits hos rfl rfl
  have hlabel : (otherArm d.scope cond).labelType = d.scope.labelType := by
    simp only [labelType, otherArm, hkind]
  cases htail with
  | otherwise helse => cases helse
  | closed =>
    refine ⟨.otherwise :: arm, rest, by rw [List.append_nil]; rfl, ?_, hrest⟩
    refine ⟨[], .otherwise :: arm, bs, bs, rfl, hbs, .nil, hresult, .otherwise hkind ?_ hresult'⟩
    rwa [List.map_cons, hlabel, ← List.map_cons] at harm

/-- The end of a construct, whose result is then there for what follows. -/
theorem remains_of_close (hinside : d.outer ≠ []) (h : (step ctx pos .close).run d = .ok u d')
    (hrest : d'.scope.Remains ctx d'.outer is) :
    d.scope.Remains ctx d.outer (.close :: is) := by
  obtain ⟨_, _, hget, h⟩ := run_bind_eq_ok.mp h
  obtain ⟨rfl, rfl⟩ := run_get_eq_ok.mp hget
  cases houter : d.outer with
  | nil => exact absurd houter hinside
  | cons parent outer =>
    rw [houter] at h
    obtain ⟨⟨bs, hbs, hresult⟩, hclosable, stmt, hscope, rfl⟩ := ends_of_endScope h
    rw [hscope] at hrest
    exact ⟨[], is, rfl, ⟨[], [], bs, bs, rfl, hbs, .nil, hresult, .closed hclosable⟩,
      follows_cons.mpr ⟨stmt, hrest⟩⟩

end Build

open Scope in
/-- The instructions that a draft is completed with are well typed. -/
theorem Compiles.remains {d : Draft} {out : List Stmt × Lanes Nat} (h : Compiles ctx d is out)
    (hd : d.Sound ctx) : d.scope.Remains ctx d.outer is := by
  induction h with
  | @finish d d' pos body houter h =>
    obtain ⟨bs, hbs, hresult⟩ := (Build.exists_finish_iff _).mp ⟨body, d', h⟩
    unfold Draft.Sound at hd
    rw [houter] at hd ⊢
    have hclosable : d.scope.kind.Closable d.scope.result := by
      intro cond hkind
      cases hd.1.symm.trans hkind
    exact ⟨[], [], rfl, ⟨[], [], bs, bs, rfl, hbs, .nil, hresult, .closed hclosable⟩, rfl⟩
  | @step d d' pos i is out hinside h _ ih =>
    have hrest := ih (Build.step_sound hd h).1
    cases i with
    | block r => exact Build.remains_of_construct .block (.block r) (fun _ h ↦ by cases h) h hrest
    | loop r => exact Build.remains_of_construct .loop (.loop r) (fun _ h ↦ by cases h) h hrest
    | conditional r => exact Build.remains_of_conditional h hrest
    | otherwise => exact Build.remains_of_otherwise h hrest
    | close => exact Build.remains_of_close (fun houter ↦ hinside ⟨rfl, houter⟩) h hrest
    | _ => exact Build.remains_of_plain rfl h hrest

/-! ## What is well typed compiles -/

/-- The instructions lead from one draft to another: what completes the second completes the first,
after the instructions. -/
structure Draft.Leads (ctx : Context) (d : Draft) (is : List Instr) (d' : Draft) : Prop where
  compiles {rest : List Instr} {out : List Stmt × Lanes Nat} (h : Compiles ctx d' rest out) :
    Compiles ctx d (is ++ rest) out

namespace Draft

variable {d d' d'' : Draft} {i : Instr} {r : Option ValueType}

/-- Code that is compiled in two portions. -/
theorem Leads.trans (h : d.Leads ctx is d') (h' : d'.Leads ctx is' d'') :
    d.Leads ctx (is ++ is') d'' where
  compiles hrest := by
    rw [List.append_assoc]
    exact h.compiles (h'.compiles hrest)

theorem Leads.step {pos : Nat} (hi : i ≠ .close ∨ d.outer ≠ [])
    (h : (Build.step ctx pos i).run d = .ok () d') : d.Leads ctx [i] d' where
  compiles hrest := by
    refine .step ?_ h hrest
    rintro ⟨rfl, houter⟩
    exact hi.elim (fun h ↦ h rfl) fun h ↦ h houter

def opened (d : Draft) (kind : Scope.Kind) (r : Option ValueType) : Draft :=
  { d with
    scope := { kind, result := r, label := d.scopes.length, base := d.scope.height, offset := 0 }
    outer := d.scopes }

theorem opened_labelTypes (hls : d.labelTypes = ls) (kind : Scope.Kind) (r : Option ValueType) :
    (d.opened kind r).labelTypes = kind.labelType r :: ls := congrArg (_ :: ·) hls

theorem run_open (hdepth : d.outer.length + 1 ≤ ctx.maxControlDepth) (kind : Scope.Kind)
    (r : Option ValueType) : (Build.openScope ctx 0 kind r).run d = .ok () (d.opened kind r) :=
  Build.openScope_iff.mpr ⟨hdepth, rfl⟩

/-- A scope whose operands are its result is closed, and the result lies in the scope around it. -/
theorem exists_leads_close {kind : Scope.Kind} {bs os : List Operand}
    (hframe : (d.opened kind r).Framed d') (hclosable : kind.Closable r)
    (hbs : d'.scope.Admits bs) (hresult : bs.map Operand.type = r.toList)
    (hos : d.scope.Admits os) : ∃ d'', d'.Leads ctx [.close] d'' ∧ d.Framed d'' ∧
      d''.scope.Admits (r.toList.map pushed ++ os) := by
  obtain ⟨hscope, houter⟩ := hframe
  obtain rfl : d'.scope.kind = kind := hscope.kind
  obtain rfl : d'.scope.result = r := hscope.result
  obtain ⟨stmt, d'', hrun, hafter, houter'⟩ :=
    Build.run_endScope 0 ⟨bs, hbs, hresult⟩ hclosable d.scope d.outer d'
  have hstep : (Build.step ctx 0 .close).run d' = .ok () d'' := by
    refine run_bind_eq_ok.mpr ⟨d', d', rfl, ?_⟩
    rw [houter]
    exact hrun
  refine ⟨d'', .step (.inr (by rw [houter]; exact List.cons_ne_nil _ _)) hstep, ⟨?_, houter'⟩, ?_⟩
  · rw [hafter]
    exact d.scope.after_sameFrame stmt _
  · rw [hafter]
    exact Scope.admits_after.mpr ⟨os, rfl, hos⟩

/-- A conditional is compiled if there is an `i32` and the nesting limit allows it. -/
theorem exists_leads_conditional {cond : Operand} {os : List Operand}
    (hos : d.scope.Admits (cond :: os)) (hcond : cond.type = .i32)
    (hdepth : d.outer.length + 1 ≤ ctx.maxControlDepth) (r : Option ValueType) :
    ∃ slot d', d.Framed d' ∧ d'.scope.Admits os ∧
      d.Leads ctx [.conditional r] (d'.opened (.thenArm slot) r) := by
  have hpop : Build.Acts d.labelTypes (Build.popType 0 .i32) _ := Build.popType_acts .i32
  obtain ⟨slot, d', hrun, hframe, hos'⟩ :=
    hpop.complete rfl hos ⟨[cond], os, by rw [← hcond]; rfl, rfl, rfl⟩
  rw [← hframe.outer] at hdepth
  have hstep : (Build.step ctx 0 (.conditional r)).run d = .ok () (d'.opened (.thenArm slot) r) :=
    run_bind_eq_ok.mpr ⟨slot, d', hrun, run_open hdepth (.thenArm slot) r⟩
  exact ⟨slot, d', hframe, hos', .step (.inl (by simp)) hstep⟩

/-- After the first arm of a conditional the second one is compiled, in a scope of another kind. -/
theorem exists_leads_otherwise {slot : Slot} {bs : List Operand}
    (hframe : (d.opened (.thenArm slot) r).Framed d') (hbs : d'.scope.Admits bs)
    (hresult : bs.map Operand.type = r.toList) : ∃ (kind : Scope.Kind) (d'' : Draft),
      kind.Closable r ∧ kind.labelType r = r ∧ (d.opened kind r).Framed d'' ∧
        d''.scope.Admits [] ∧ d'.Leads ctx [.otherwise] d'' := by
  have hends : d'.scope.Ends := ⟨bs, hbs, hresult.trans (by rw [hframe.scope.result]; rfl)⟩
  have hstep : (Build.step ctx 0 .otherwise).run d' =
      .ok () { d' with scope := Build.otherArm d'.scope slot } :=
    Build.beginElse_iff.mpr ⟨slot, hframe.scope.kind, hends, rfl⟩
  refine ⟨.elseArm slot d'.scope.body.toList, { d' with scope := Build.otherArm d'.scope slot },
    fun _ h ↦ (by cases h), rfl, ⟨?_, hframe.outer⟩, Scope.admits_of_types rfl,
    .step (.inl (by simp)) hstep⟩
  exact ⟨rfl, hframe.scope.result, hframe.scope.label, hframe.scope.base⟩

end Draft

theorem Flows.nestsWithin_append {i : Instr} (h : Flows ctx Choice ls is os os') :
    NestsWithin bound depth (is ++ i :: is') ↔ NestsWithin bound depth is ∧
      i.nesting depth ≤ bound ∧ NestsWithin bound (i.nesting depth) is' := by
  rw [WasmEngine.nestsWithin_append, h.balanced]
  rfl

/-- What an instruction that opens a construct is compiled to. -/
theorem Instr.Opens.exists_kind {i : Instr} {l r : Option ValueType} (h : i.Opens l r)
    (ctx : Context) :
    ∃ kind : Scope.Kind, kind.labelType r = l ∧ kind.Closable r ∧ i ≠ .close ∧
      ∀ pos, Build.step ctx pos i = Build.openScope ctx pos kind r := by
  cases h with
  | block => exact ⟨.block, rfl, fun _ h ↦ (by cases h), by simp, fun _ ↦ rfl⟩
  | loop => exact ⟨.loop, rfl, fun _ h ↦ (by cases h), by simp, fun _ ↦ rfl⟩

/-- Operands that flow through instructions lead the compilation along. -/
theorem Flows.leads (h : Flows ctx Defaulted ls is os os') {d : Draft} (hls : d.labelTypes = ls)
    (hos : d.scope.Admits os) (hnest : NestsWithin ctx.maxControlDepth d.outer.length is) :
    ∃ d', d.Framed d' ∧ d'.scope.Admits os' ∧ d.Leads ctx is d' := by
  induction h generalizing d with
  | nil => exact ⟨d, ⟨⟨rfl, rfl, rfl, rfl⟩, rfl⟩, hos, ⟨fun h ↦ h⟩⟩
  | @cons ls i is os os₁ os' h _ ih =>
    have hstep : Build.Acts ls (Build.step ctx 0 i) _ := Build.step_acts h.isStructural
    obtain ⟨_, d₁, hrun, hframe, hos₁⟩ := hstep.complete hls hos h
    obtain ⟨-, hnest⟩ := hnest
    rw [Instr.nesting_of_plain h.isStructural, ← hframe.outer] at hnest
    obtain ⟨d₂, hframe₂, hos₂, hleads⟩ := ih (hframe.labelTypes_eq.trans hls) hos₁ hnest
    have hi : i ≠ .close := by
      rintro rfl
      cases h.isStructural
    exact ⟨d₂, hframe.trans hframe₂, hos₂, (Draft.Leads.step (.inl hi) hrun).trans hleads⟩
  | @construct ls i l r body is bs os os' hopens hbody hresult hrest ihbody ihrest =>
    obtain ⟨kind, rfl, hclosable, hi, hstep⟩ := hopens.exists_kind ctx
    obtain ⟨hdepth, hnest⟩ := hnest
    rw [hopens.nesting_eq] at hdepth hnest
    obtain ⟨hinside, -, hnest⟩ := hbody.nestsWithin_append.mp hnest
    have hopen := Draft.run_open hdepth kind r
    rw [← hstep] at hopen
    obtain ⟨d₁, hframe₁, hbs, hleads₁⟩ :=
      ihbody (Draft.opened_labelTypes hls kind r) (Scope.admits_of_types rfl) hinside
    obtain ⟨d₂, hleads₂, hframe₂, hos₂⟩ :=
      Draft.exists_leads_close hframe₁ hclosable hbs hresult hos
    obtain ⟨d₃, hframe₃, hos₃, hleads₃⟩ := ihrest (hframe₂.labelTypes_eq.trans hls) hos₂
      (hframe₂.outer ▸ hnest)
    exact ⟨d₃, hframe₂.trans hframe₃, hos₃,
      (Draft.Leads.step (.inl hi) hopen).trans (hleads₁.trans (hleads₂.trans hleads₃))⟩
  | @conditional ls r arm arm' is bs bs' os os' cond hcond harm hresult harm' hresult' _ iharm
      iharm' ihrest =>
    obtain ⟨hdepth, hnest⟩ := hnest
    obtain ⟨hinside, -, hnest⟩ := harm.nestsWithin_append.mp hnest
    obtain ⟨hinside', -, hnest⟩ := harm'.nestsWithin_append.mp hnest
    obtain ⟨slot, d₁, hframe₁, hos₁, hleads₁⟩ :=
      Draft.exists_leads_conditional hos hcond hdepth r
    have hls₁ : d₁.labelTypes = ls := hframe₁.labelTypes_eq.trans hls
    rw [← hframe₁.outer] at hinside hinside' hnest
    obtain ⟨d₂, hframe₂, hbs, hleads₂⟩ :=
      iharm (Draft.opened_labelTypes hls₁ (.thenArm slot) r) (Scope.admits_of_types rfl) hinside
    obtain ⟨kind, d₃, hclosable, hlabel, hframe₃, hnil, hleads₃⟩ :=
      Draft.exists_leads_otherwise hframe₂ hbs hresult
    have hdepth₃ : d₃.outer.length = d₁.outer.length + 1 := congrArg List.length hframe₃.outer
    have hls₃ : d₃.labelTypes = r :: ls := by
      rw [hframe₃.labelTypes_eq, Draft.opened_labelTypes hls₁, hlabel]
    obtain ⟨d₄, hframe₄, hbs', hleads₄⟩ := iharm' hls₃ hnil (by rw [hdepth₃]; exact hinside')
    obtain ⟨d₅, hleads₅, hframe₅, hos₅⟩ :=
      Draft.exists_leads_close (hframe₃.trans hframe₄) hclosable hbs' hresult' hos₁
    obtain ⟨d₆, hframe₆, hos₆, hleads₆⟩ := ihrest (hframe₅.labelTypes_eq.trans hls₁) hos₅
      (hframe₅.outer ▸ hnest)
    exact ⟨d₆, hframe₁.trans (hframe₅.trans hframe₆), hos₆, hleads₁.trans (hleads₂.trans
      (hleads₃.trans (hleads₄.trans (hleads₅.trans hleads₆))))⟩
  | @oneArmed ls arm is os os' cond hcond harm hrest iharm ihrest =>
    obtain ⟨hdepth, hnest⟩ := hnest
    obtain ⟨hinside, -, hnest⟩ := harm.nestsWithin_append.mp hnest
    obtain ⟨slot, d₁, hframe₁, hos₁, hleads₁⟩ :=
      Draft.exists_leads_conditional hos hcond hdepth none
    have hls₁ : d₁.labelTypes = ls := hframe₁.labelTypes_eq.trans hls
    rw [← hframe₁.outer] at hinside hnest
    obtain ⟨d₂, hframe₂, hbs, hleads₂⟩ :=
      iharm (Draft.opened_labelTypes hls₁ (.thenArm slot) none) (Scope.admits_of_types rfl) hinside
    obtain ⟨d₃, hleads₃, hframe₃, hos₃⟩ :=
      Draft.exists_leads_close hframe₂ (fun _ _ ↦ rfl) hbs rfl hos₁
    obtain ⟨d₄, hframe₄, hos₄, hleads₄⟩ := ihrest (hframe₃.labelTypes_eq.trans hls₁) hos₃
      (hframe₃.outer ▸ hnest)
    exact ⟨d₄, hframe₁.trans (hframe₃.trans hframe₄), hos₄,
      hleads₁.trans (hleads₂.trans (hleads₃.trans hleads₄))⟩

/-! ## Function bodies -/

/-- The instructions of a function compile just if they end with its `close`, are nested within the
bound, and operands flow through them to the result of the function. -/
theorem exists_compiles_iff : (∃ out, Compiles ctx (Draft.start ctx.type 0) is out) ↔
    ∃ body os, is = body ++ [.close] ∧ NestsWithin ctx.maxControlDepth 0 body ∧
      Flows ctx Defaulted [ctx.type.result] body [] os ∧
      os.map Operand.type = ctx.type.result.toList := by
  have hstart := Draft.start_sound ctx 0
  constructor
  · rintro ⟨out, h⟩
    have hnests := h.nestsWithin hstart (Nat.zero_le _)
    obtain ⟨_, _, rfl, ⟨body, _, os, bs, rfl, hos, hbody, hresult, htail⟩, rfl⟩ :=
      h.remains hstart
    obtain rfl := Scope.eq_nil_of_admits hos rfl rfl
    cases htail with
    | otherwise hthen => cases hthen
    | closed =>
      rw [List.append_nil] at hnests ⊢
      exact ⟨body, bs, rfl, (nestsWithin_append.mp hnests).1, hbody, hresult⟩
  · rintro ⟨body, os, rfl, hnests, hbody, hresult⟩
    obtain ⟨d, hframe, hos, hleads⟩ :=
      hbody.leads (d := Draft.start ctx.type 0) rfl (Scope.admits_of_types rfl) hnests
    have hends : d.scope.Ends := ⟨os, hos, hresult.trans (by rw [hframe.scope.result]; rfl)⟩
    obtain ⟨stmts, d', hfinish⟩ := (Build.exists_finish_iff 0).mpr hends
    exact ⟨_, hleads.compiles (.finish hframe.outer hfinish)⟩

namespace Reader

variable {config : Config} {m : Module} {type : FuncType} {decls : List (Nat × ValueType)}
  {c c' : Cursor}

/-- A function that compiles is well typed: the instructions in its bytes, up to the `close` that
ends them, take nothing and leave the result of the function. -/
theorem code_hasType {f : Code} (h : (code config m type decls).run c = .ok f c') :
    ∃ is bs, Grammar.items Grammar.instr (is ++ [.close]) bs ∧ c.Spans bs c' ∧
      HasType ⟨m, config.maxControlDepth, type, type.localsWith decls⟩ [type.result] is []
        type.result.toList := by
  obtain ⟨bs, ⟨_, hspelled, hcode⟩, hspans⟩ := (code_reads config m type decls _ _ _).mp h
  have hcompiles := hcode.compiles
  rw [hcode.locals_eq] at hcompiles
  obtain ⟨is, os, rfl, -, hflows, hresult⟩ := exists_compiles_iff.mp ⟨_, hcompiles⟩
  refine ⟨is, bs, hspelled, hspans, ?_⟩
  rw [← hresult]
  exact hflows.hasType

/-- A body with a branch out of a block. -/
def branchBody : List UInt8 :=
  [0x02, 0x7f, 0x20, 0, 0x20, 0, 0x0d, 0, 0x1a, 0x41, 5, 0x0b, 0x0b]

/-- The body compiles, and its instructions are typed. -/
theorem branchBody_hasType : ∃ f c',
    (code {} {} ⟨[.i32], [.i32]⟩ []).run (.ofBytes branchBody) = .ok f c' ∧
      ∃ is bs, Grammar.items Grammar.instr (is ++ [.close]) bs ∧
        (Cursor.ofBytes branchBody).Spans bs c' ∧
        HasType ⟨{}, Config.maxControlDepth {}, ⟨[.i32], [.i32]⟩, [.i32]⟩ [some .i32] is []
          [.i32] := by
  have hrun : ∃ f c', (code {} {} ⟨[.i32], [.i32]⟩ []).run (.ofBytes branchBody) = .ok f c' :=
    ⟨_, _, rfl⟩
  obtain ⟨f, c', h⟩ := hrun
  exact ⟨f, c', h, code_hasType h⟩

/-- Which functions compile: those of instructions that are spelled in the bytes, within the bounds
on locals and nesting, through which operands flow to the result. To be well typed it is enough
that operands flow, while to compile a `select` must find an `i32` when its type is decided by an
operand that is conjured up. -/
theorem exists_code_iff (config : Config) (m : Module) (type : FuncType)
    (decls : List (Nat × ValueType)) (c : Cursor) :
    let ctx : Context := ⟨m, config.maxControlDepth, type, type.localsWith decls⟩
    ((∃ f c', (code config m type decls).run c = .ok f c') ↔
      ∃ is bs c', Grammar.items Grammar.instr (is ++ [.close]) bs ∧ c.Spans bs c' ∧
        (type.localsWith decls).length ≤ config.maxFunctionLocals ∧
        NestsWithin config.maxControlDepth 0 is ∧
        ∃ os, os.map Operand.type = type.result.toList ∧
          Flows ctx Defaulted [type.result] is [] os) ∧
    ∀ is, HasType ctx [type.result] is [] type.result.toList ↔
      ∃ os, os.map Operand.type = type.result.toList ∧
        Flows ctx (fun _ ↦ True) [type.result] is [] os := by
  intro ctx
  refine ⟨⟨?_, ?_⟩, fun is ↦ hasType_iff_flows⟩
  · rintro ⟨f, c', h⟩
    obtain ⟨bs, ⟨_, hspelled, hcode⟩, hspans⟩ := (code_reads config m type decls _ _ _).mp h
    have hcompiles := hcode.compiles
    have hbounded := hcode.bounded
    rw [hcode.locals_eq] at hcompiles hbounded
    obtain ⟨is, os, rfl, hnests, hflows, hresult⟩ := exists_compiles_iff.mp ⟨_, hcompiles⟩
    exact ⟨is, bs, c', hspelled, hspans, hbounded, hnests, os, hresult, hflows⟩
  · rintro ⟨is, bs, c', hspelled, hspans, hbounded, hnests, os, hresult, hflows⟩
    obtain ⟨⟨body, slots⟩, hcompiles⟩ :=
      exists_compiles_iff.mpr ⟨is, os, rfl, hnests, hflows, hresult⟩
    let f : Code := ⟨type, type.localsWith decls, body, Lanes.count (type.localsWith decls), slots⟩
    have hcode : f.Compiled config m type decls (is ++ [.close]) :=
      ⟨rfl, rfl, rfl, hbounded, hcompiles⟩
    exact ⟨f, c', (code_reads config m type decls _ _ _).mpr ⟨bs, ⟨_, hspelled, hcode⟩, hspans⟩⟩

/-- In a function that gives an `f32`, a `select` after `unreachable` is well typed, but it does not
compile. -/
theorem dead_select_refused :
    HasType ⟨{}, Config.maxControlDepth {}, ⟨[], [.f32]⟩, []⟩ [some .f32] [.unreachable, .select] []
        [.f32] ∧
      Grammar.items Grammar.instr [.unreachable, .select, .close] [0x00, 0x1b, 0x0b] ∧
      NestsWithin (Config.maxControlDepth {}) 0 [.unreachable, .select] ∧
      ¬∃ f c', (code {} {} ⟨[], [.f32]⟩ []).run (.ofBytes [0x00, 0x1b, 0x0b]) = .ok f c' := by
  refine ⟨?_, ?_, by decide, ?_⟩
  · exact .append (.diverts .unreachable [] [.i32, .f32, .f32]) (.plain (.select .f32))
  · exact .cons Grammar.instr.unreachable
      (.cons Grammar.instr.select (.cons Grammar.instr.close .nil))
  · rintro ⟨f, c', h⟩
    cases h

end Reader

end WasmEngine
