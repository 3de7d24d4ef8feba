import WasmEngine.Proofs.LiveCode

/-!
# Whole bodies

The decoder compiles a flat sequence of instructions with a stack of open scopes, while `Emits`
follows the nesting. `Completes` ties the two together: it says of the instructions ahead what is
still to come of each scope that is open. At the start of a function that is its whole body.
-/

namespace WasmEngine

/-! ## What is to come of open scopes -/

/-- The statement that a scope becomes whose innermost statements are `body`. If it is the first arm
of a conditional, with the instructions `is` ahead, then the second arm is still to come. -/
inductive Closes (m : Module) (result : Option ValueType) (s : Scope) (cs : List Construct)
    (base : List ValueType) (is after : List Instr) (body : List Stmt) : Stmt → Prop
  | block (hkind : s.kind = .block) : Closes m result s cs base is after body (.block s.label body)
  | loop (hkind : s.kind = .loop) : Closes m result s cs base is after body (.loop s.label body)
  | thenArm {cond : Slot} {otherwise : List Instr} {elseBody : List Stmt}
      (hkind : s.kind = .thenArm cond) (helse : Instr.elseArm 0 is = some otherwise)
      (hotherwise : Emits m result cs base otherwise elseBody after) :
      Closes m result s cs base is after body (.conditional s.label cond body elseBody)
  | elseArm {cond : Slot} {thenBody : List Stmt} (hkind : s.kind = .elseArm cond thenBody) :
      Closes m result s cs base is after body (.conditional s.label cond thenBody body)

/-- With the instructions `is` ahead, the scope `s` and the scopes around it come to the statements
`final` of the function. A scope that is live emits what is missing of it. -/
def Completes (m : Module) (result : Option ValueType) (final : List Stmt) :
    Scope → List Scope → List Instr → Prop
  | s, [], is => ∃ rest, final = s.body.toList ++ rest ∧
      (s.unreachable = false → Emits m result [] (s.operands []) is rest [])
  | s, p :: outer, is => ∃ rest after stmt, Instr.afterClose 0 is = some after ∧
      (s.unreachable = false →
        Emits m result (s.constructs (p :: outer)) (s.operands (p :: outer)) is rest after) ∧
      Closes m result s (s.constructs (p :: outer)) (p.operands outer) is after
        (s.body.toList ++ rest) stmt ∧
      Completes m result final (p.after stmt s.result) outer after

/-- Whether or not control reaches it, an instruction only adds statements. -/
theorem Build.step_adds {ctx : Context} {d d' : Draft} {pos : Nat} {i : Instr}
    (hi : i.isStructural = false) (hd : d.Sound ctx)
    (h : (step ctx pos i).run d = .ok () d') :
    ∃ stmts, d'.scope.body.toList = d.scope.body.toList ++ stmts ∧
      (d.scope.unreachable = false → ∀ {is rest after}, (d'.scope.unreachable = false →
        Emits ctx.module ctx.type.result d'.constructs d'.operands is rest after) →
        Emits ctx.module ctx.type.result d.constructs d.operands (i :: is) (stmts ++ rest)
          after) := by
  cases hlive : d.scope.unreachable with
  | false =>
    obtain ⟨stmts, hbody, hemits⟩ := step_precedes hi hd hlive h
    exact ⟨stmts, hbody, fun _ ↦ hemits⟩
  | true =>
    obtain ⟨stmts, hbody⟩ := (step_advances hi hd h).body
    exact ⟨stmts, hbody.symm, nofun⟩

theorem Closes.congr {m : Module} {result : Option ValueType} {s s' : Scope}
    {cs : List Construct} {base : List ValueType} {is is' after : List Instr} {body : List Stmt}
    {stmt : Stmt} (hframe : Scope.SameFrame s s') (helse : Instr.elseArm 0 is' = Instr.elseArm 0 is)
    (h : Closes m result s' cs base is after body stmt) :
    Closes m result s cs base is' after body stmt := by
  have hlabel := hframe.label
  have hframe := hframe.kind
  cases h with
  | block hkind => exact hlabel ▸ .block (hframe ▸ hkind)
  | loop hkind => exact hlabel ▸ .loop (hframe ▸ hkind)
  | thenArm hkind hotherwise hemits =>
    exact hlabel ▸ .thenArm (hframe ▸ hkind) (helse.trans hotherwise) hemits
  | elseArm hkind => exact hlabel ▸ .elseArm (hframe ▸ hkind)

namespace Scope

variable (s : Scope) (stmt : Stmt) (r : Option ValueType)

theorem after_frame : SameFrame s (s.after stmt r) := by
  cases r <;> exact ⟨rfl, rfl, rfl, rfl⟩

theorem after_body : (s.after stmt r).body.toList = s.body.toList ++ [stmt] := by
  cases r <;> simp [after, emit, push]

theorem after_operands (outer : List Scope) :
    (s.after stmt r).operands outer = r.toList ++ s.operands outer := by
  cases r <;> rfl

theorem after_unreachable : (s.after stmt r).unreachable = s.unreachable := by
  cases r <;> rfl

end Scope

namespace Completes

variable {m : Module} {result : Option ValueType} {final : List Stmt}

/-- To put statements in front is to put in front what they come from. -/
theorem prepend {s s' : Scope} {outer : List Scope} {is is' : List Instr} {stmts : List Stmt}
    (hframe : Scope.SameFrame s s') (hbody : s'.body.toList = s.body.toList ++ stmts)
    (hemits : s.unreachable = false → ∀ {rest after}, (s'.unreachable = false →
      Emits m result (s'.constructs outer) (s'.operands outer) is rest after) →
      Emits m result (s.constructs outer) (s.operands outer) is' (stmts ++ rest) after)
    (hafter : Instr.afterClose 0 is' = Instr.afterClose 0 is)
    (helse : Instr.elseArm 0 is' = Instr.elseArm 0 is)
    (h : Completes m result final s' outer is) : Completes m result final s outer is' := by
  cases outer with
  | nil =>
    obtain ⟨rest, hfinal, hrest⟩ := h
    refine ⟨stmts ++ rest, ?_, fun hlive ↦ hemits hlive hrest⟩
    rw [hfinal, hbody, List.append_assoc]
  | cons p outer =>
    obtain ⟨rest, after, stmt, hend, hrest, hcloses, hcompletes⟩ := h
    rw [hframe.result] at hcompletes
    rw [hbody, hframe.constructs_eq, List.append_assoc] at hcloses
    exact ⟨stmts ++ rest, after, stmt, hafter.trans hend, fun hlive ↦ hemits hlive hrest,
      hcloses.congr hframe helse, hcompletes⟩

variable {ctx : Context} {d d' : Draft} {pos : Nat} {is : List Instr}

/-- An instruction that opens and closes nothing. -/
theorem cons {i : Instr} (hi : i.isStructural = false) (hd : d.Sound ctx)
    (hstep : (Build.step ctx pos i).run d = .ok () d')
    (h : Completes ctx.module ctx.type.result final d'.scope d'.outer is) :
    Completes ctx.module ctx.type.result final d.scope d.outer (i :: is) := by
  have hadv := Build.step_advances hi hd hstep
  obtain ⟨stmts, hbody, hemits⟩ := Build.step_adds hi hd hstep
  simp only [Draft.constructs, Draft.operands, hadv.outer] at hemits
  rw [hadv.outer] at h
  exact h.prepend hadv.frame hbody (fun hlive ↦ hemits hlive) (Instr.afterClose_cons hi is)
    (Instr.elseArm_cons hi is)

/-- An instruction that opens a construct in the scope `s`, which is `s₁` once it has popped its
operands. -/
theorem opening {s s₁ inner : Scope} {outer : List Scope} {i : Instr}
    (hframe : Scope.SameFrame s s₁) (hbody : s₁.body.toList = s.body.toList)
    (hdead : s.unreachable = false → s₁.unreachable = false)
    (hafter : Instr.afterClose 0 (i :: is) = Instr.afterClose 1 is)
    (helse : Instr.elseArm 0 (i :: is) = Instr.elseArm 1 is)
    (hinner : inner.body = #[] ∧ inner.types = [] ∧ inner.unreachable = false)
    (hemits : s.unreachable = false → ∀ {body after stmt rest after'},
      Instr.afterClose 0 is = some after →
      Emits m result (inner.constructs (s₁ :: outer)) (s₁.operands outer) is body after →
      Closes m result inner (inner.constructs (s₁ :: outer)) (s₁.operands outer) is after body
        stmt →
      Emits m result (s.constructs outer) (inner.result.toList ++ s₁.operands outer) after rest
        after' →
      Emits m result (s.constructs outer) (s.operands outer) (i :: is) (stmt :: rest) after')
    (h : Completes m result final inner (s₁ :: outer) is) :
    Completes m result final s outer (i :: is) := by
  obtain ⟨hempty, htypes, hfresh⟩ := hinner
  obtain ⟨body, after, stmt, hend, hrest, hcloses, hcompletes⟩ := h
  rw [hempty, Array.toList_empty, List.nil_append] at hcloses
  rw [Scope.operands, htypes, List.nil_append] at hrest
  have hafter_frame := s₁.after_frame stmt inner.result
  have hafter_body : (s₁.after stmt inner.result).body.toList = s.body.toList ++ [stmt] := by
    rw [Scope.after_body, hbody]
  -- Seen from `s`, the whole construct is one statement in front of what comes after it.
  refine hcompletes.prepend (hframe.trans hafter_frame) hafter_body ?_ ?_ ?_
  · intro hlive rest after' hrest'
    rw [Scope.after_unreachable, hafter_frame.constructs_eq, hframe.constructs_eq,
      Scope.after_operands] at hrest'
    exact hemits hlive hend (hrest hfresh) hcloses (hrest' (hdead hlive))
  · rw [hafter, Instr.afterClose_add 0 0, hend, Option.bind_some]
  · rw [helse, Instr.elseArm_add 0 0, hend, Option.bind_some]

theorem block {r : Option ValueType} (hstep : (Build.step ctx pos (.block r)).run d = .ok () d')
    (h : Completes ctx.module ctx.type.result final d'.scope d'.outer is) :
    Completes ctx.module ctx.type.result final d.scope d.outer (.block r :: is) := by
  obtain rfl := Build.openScope_eq_ok hstep
  refine h.opening ⟨rfl, rfl, rfl, rfl⟩ rfl (fun hlive ↦ hlive) rfl rfl ⟨rfl, rfl, rfl⟩ ?_
  intro _ body after stmt rest after' hafter hbody hcloses hrest
  cases hcloses with
  | block _ =>
    rw [d.length_scopes]
    exact .block hafter hbody hrest
  | loop hkind => cases hkind
  | thenArm hkind => cases hkind
  | elseArm hkind => cases hkind

theorem loop {r : Option ValueType} (hstep : (Build.step ctx pos (.loop r)).run d = .ok () d')
    (h : Completes ctx.module ctx.type.result final d'.scope d'.outer is) :
    Completes ctx.module ctx.type.result final d.scope d.outer (.loop r :: is) := by
  obtain rfl := Build.openScope_eq_ok hstep
  refine h.opening ⟨rfl, rfl, rfl, rfl⟩ rfl (fun hlive ↦ hlive) rfl rfl ⟨rfl, rfl, rfl⟩ ?_
  intro _ body after stmt rest after' hafter hbody hcloses hrest
  cases hcloses with
  | loop _ =>
    rw [d.length_scopes]
    exact .loop hbody hrest
  | block hkind => cases hkind
  | thenArm hkind => cases hkind
  | elseArm hkind => cases hkind

theorem conditional {r : Option ValueType} (hd : d.Sound ctx)
    (hstep : (Build.step ctx pos (.conditional r)).run d = .ok () d')
    (h : Completes ctx.module ctx.type.result final d'.scope d'.outer is) :
    Completes ctx.module ctx.type.result final d.scope d.outer (.conditional r :: is) := by
  obtain ⟨cond, d₁, hpop, hopen⟩ := run_bind_eq_ok.mp hstep
  have hadv := (Build.popType_advances hd hpop).1
  have hbody := Build.popType_body hpop
  obtain rfl := Build.openScope_eq_ok hopen
  have hlabel : d₁.scopes.length = d.constructs.length + 1 := by
    rw [d₁.length_scopes, hadv.constructs_eq]
  rw [hlabel, Draft.scopes, hadv.outer] at h
  refine h.opening hadv.frame hbody ?_ rfl rfl ⟨rfl, rfl, rfl⟩ ?_
  · intro hlive
    obtain ⟨_, -, -, -, hpopped⟩ := Build.popType_live hd hlive hpop
    exact hpopped.live
  · intro hlive body after stmt rest after' hafter hbody hcloses hrest
    obtain ⟨ts, hts, rfl, -, hpopped⟩ := Build.popType_live hd hlive hpop
    have hoperands : d₁.scope.operands d.outer = ts := by
      rw [← hpopped.operands, Draft.operands, hadv.outer]
    rw [← Draft.operands, hts]
    cases hcloses with
    | thenArm hkind helse hotherwise =>
      cases hkind
      simp only [Scope.constructs, hoperands, hadv.frame.constructs_eq] at hbody hotherwise hrest
      exact .conditional hafter helse hbody hotherwise hrest
    | block hkind => cases hkind
    | loop hkind => cases hkind
    | elseArm hkind => cases hkind

/-- The end of a first arm. -/
theorem otherwise (hd : d.Sound ctx)
    (hstep : (Build.step ctx pos .otherwise).run d = .ok () d')
    (h : Completes ctx.module ctx.type.result final d'.scope d'.outer is) :
    Completes ctx.module ctx.type.result final d.scope d.outer (.otherwise :: is) := by
  obtain ⟨cond, hkind, htypes, rfl⟩ := Build.beginElse_eq_ok hstep
  obtain ⟨s, outer, maxStack⟩ := d
  cases outer with
  | nil => exact absurd (hd.1.symm.trans hkind) (by simp)
  | cons p outer =>
    obtain ⟨rest, after, stmt, hafter, hrest, hcloses, hcompletes⟩ := h
    have hconstructs : s.constructs (p :: outer) =
        ⟨false, s.result, p.operands outer⟩ :: p.constructs outer := by
      rw [Scope.constructs, hkind]
      rfl
    -- The first arm ends here with nothing more; what comes up to `after` is the second arm.
    refine ⟨[], after, stmt, hafter, fun hlive ↦ ?_, ?_, hcompletes⟩
    · rw [Scope.operands, htypes hlive, hconstructs]
      exact .otherwise rfl hafter
    · rw [hconstructs, List.append_nil]
      cases hcloses with
      | elseArm helse =>
        cases helse
        exact .thenArm hkind rfl (hrest rfl)
      | block hblock => cases hblock
      | loop hloop => cases hloop
      | thenArm hthen => cases hthen

/-- At the end of a construct, only a second arm that there is none of is to come. -/
theorem closes_of_closed {s p : Scope} {outer : List Scope} {stmt : Stmt}
    (hfunction : s.kind ≠ .function) (h : (Build.closed s).run d = .ok stmt d') :
    Closes m result s (s.constructs (p :: outer)) (p.operands outer) (.close :: is) is
      s.body.toList stmt := by
  unfold Build.closed at h
  cases hkind : s.kind with
  | function => contradiction
  | block =>
    simp only [hkind, run_pure_eq_ok] at h
    exact h.1 ▸ .block hkind
  | loop =>
    simp only [hkind, run_pure_eq_ok] at h
    exact h.1 ▸ .loop hkind
  | thenArm cond =>
    simp only [hkind, run_ite] at h
    split at h
    · exact (Build.run_fail_eq_ok.mp h).elim
    · rename_i hresult
      obtain ⟨rfl, -⟩ := run_pure_eq_ok.mp h
      refine .thenArm hkind rfl ?_
      have hnone : s.result = none := by simpa using hresult
      rw [Scope.constructs, hnone]
      exact .close
  | elseArm cond thenBody =>
    simp only [hkind, run_pure_eq_ok] at h
    exact h.1 ▸ .elseArm hkind

/-- The end of a construct. -/
theorem close {p : Scope} {outer : List Scope} (hd : d.Sound ctx) (houter : d.outer = p :: outer)
    (hstep : (Build.step ctx pos .close).run d = .ok () d')
    (h : Completes ctx.module ctx.type.result final d'.scope d'.outer is) :
    Completes ctx.module ctx.type.result final d.scope d.outer (.close :: is) := by
  obtain ⟨hnil, -⟩ | ⟨_, _, houter', hend⟩ := Build.closeScope_eq_ok hstep
  · simp [houter] at hnil
  obtain ⟨rfl, rfl⟩ := List.cons.inj (houter.symm.trans houter')
  obtain ⟨stmt, _, htypes, hclosed, hscope, rfl⟩ := Build.endScope_eq_ok hend
  rw [hscope] at h
  unfold Draft.Sound at hd
  rw [houter] at hd ⊢
  refine ⟨[], is, stmt, rfl, fun hlive ↦ ?_, ?_, h⟩
  · rw [Scope.operands, htypes hlive]
    exact .close
  · rw [List.append_nil]
    exact closes_of_closed hd.2.1 hclosed

/-- The end of the function. -/
theorem finish (hd : d.Sound ctx) (houter : d.outer = [])
    (hfinish : (Build.finish pos).run d = .ok final d') :
    Completes ctx.module ctx.type.result final d.scope d.outer [.close] := by
  unfold Draft.Sound at hd
  rw [houter] at hd ⊢
  obtain ⟨-, -, hbase, hresult, -⟩ := hd
  simp only [Build.finish, run_bind_eq_ok, run_get_eq_ok] at hfinish
  obtain ⟨_, _, ⟨rfl, rfl⟩, _, _, hend, hfinish⟩ := hfinish
  have htypes := Build.types_of_checkEnd hend
  rw [run_ite] at hfinish
  split at hfinish
  · rename_i hdead
    obtain ⟨rfl, -⟩ := run_pure_eq_ok.mp hfinish
    -- In dead code no `ret` is added, and nothing is asked of it.
    refine ⟨[], (List.append_nil _).symm, fun hlive ↦ ?_⟩
    rw [hlive] at hdead
    cases hdead
  · obtain ⟨rfl, -⟩ := run_pure_eq_ok.mp hfinish
    refine ⟨[.ret (d.scope.result.map d.scope.outputSlot)], by simp [Scope.emit], fun hlive ↦ ?_⟩
    rw [Scope.operands, htypes hlive]
    refine .finish ?_
    change d.scope.result = ctx.type.result at hresult
    rw [hresult]
    cases ctx.type.result with
    | none => exact .nothing _
    | some t =>
      have hslot : d.scope.outputSlot t = operandSlot t [] := by
        simp [Scope.outputSlot, operandSlot, hbase]
      rw [Option.map_some, hslot]
      exact .value t []

end Completes

theorem Compiles.completes {ctx : Context} {d : Draft} {is : List Instr}
    {out : List Stmt × Lanes Nat} (hd : d.Sound ctx) (h : Compiles ctx d is out) :
    Completes ctx.module ctx.type.result out.1 d.scope d.outer is := by
  induction h with
  | finish houter h => exact .finish hd houter h
  | @step d d' pos i is out hinside h _ ih =>
    have hrest := ih (Build.step_sound hd h).1
    cases hi : i.isStructural with
    | false => exact .cons hi hd h hrest
    | true =>
      cases i with
      | block r => exact .block h hrest
      | loop r => exact .loop h hrest
      | conditional r => exact .conditional hd h hrest
      | otherwise => exact .otherwise hd h hrest
      | close =>
        cases houter : d.outer with
        | nil => exact absurd ⟨rfl, houter⟩ hinside
        | cons p outer =>
          rw [← houter]
          exact .close hd houter h hrest
      | _ => cases hi

/-- The instructions of a body become the statements that it compiles to. -/
theorem Code.CompiledFrom.emits {m : Module} {code : Code} {is : List Instr}
    (h : code.CompiledFrom m is) :
    Emits m.declarations code.type.result [] [] is code.body [] := by
  obtain ⟨-, maxControlDepth, offset, h⟩ := h
  obtain ⟨rest, hbody, hemits⟩ := h.completes (Draft.start_sound _ offset)
  have hall : code.body = rest := by simpa [Draft.start] using hbody
  rw [hall]
  exact hemits rfl

end WasmEngine
