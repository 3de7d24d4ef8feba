import WasmEngine.Proofs.Completion
import WasmEngine.Proofs.Operands
import WasmEngine.Proofs.Soundness

/-!
# Statements follow instructions

Compiled code and the instructions it comes from stand at the same point of a body when the
constructs around the point are open on both sides, the slots hold the operands, and the statements
left in each region are what the instructions up to the end of its construct become.

From such a point, one instruction and one statement agree on the store, on a trap, on a callee and
its arguments, and on where control goes. There are two exceptions. An instruction may become no
statement, and compiled code takes two steps to return.
-/

namespace WasmEngine

/-- With operands of the types `ts` and the instructions `is` ahead, the labels and the regions are
those of the constructs `cs`. -/
inductive Running (m : Module) (result : Option ValueType) :
    List Construct → List ValueType → List Instr → List Stacked.Label → List Region → Prop
  | function {ts : List ValueType} {is after : List Instr} {body rest : List Stmt}
      (hcode : Emits m result [] ts is rest after) :
      Running m result [] ts is [] [⟨0, body, rest, false⟩]
  | inside {c : Construct} {cs : List Construct} {ts : List ValueType}
      {is after target : List Instr} {ls : List Stacked.Label} {body rest : List Stmt}
      {rs : List Region} (hcode : Emits m result (c :: cs) ts is rest after)
      (hloop : c.isLoop = true → Emits m result (c :: cs) c.base target body after)
      (htarget : c.isLoop = false → target = after)
      (houter : Running m result cs (c.result.toList ++ c.base) after ls rs) :
      Running m result (c :: cs) ts is (⟨c.isLoop, c.result, c.base.length, target⟩ :: ls)
        (⟨cs.length + 1, body, rest, c.isLoop⟩ :: rs)

namespace Running

variable {m : Module} {result : Option ValueType} {cs : List Construct} {ts : List ValueType}
  {is : List Instr} {ls : List Stacked.Label} {rs : List Region}

theorem length_labels (h : Running m result cs ts is ls rs) : ls.length = cs.length := by
  induction h with
  | function => rfl
  | inside _ _ _ _ ih => rw [List.length_cons, List.length_cons, ih]

/-- A block or an arm of a conditional is entered. -/
theorem enter {r : Option ValueType} {after : List Instr} {body : List Stmt}
    (hbody : Emits m result (⟨false, r, ts⟩ :: cs) ts is body after)
    (houter : Running m result cs (r.toList ++ ts) after ls rs) :
    Running m result (⟨false, r, ts⟩ :: cs) ts is (⟨false, r, ts.length, after⟩ :: ls)
      (⟨cs.length + 1, body, body, false⟩ :: rs) :=
  .inside hbody (fun h ↦ absurd h Bool.false_ne_true) (fun _ ↦ rfl) houter

theorem enter_loop {r : Option ValueType} {after : List Instr} {body : List Stmt}
    (hbody : Emits m result (⟨true, r, ts⟩ :: cs) ts is body after)
    (houter : Running m result cs (r.toList ++ ts) after ls rs) :
    Running m result (⟨true, r, ts⟩ :: cs) ts is (⟨true, r, ts.length, is⟩ :: ls)
      (⟨cs.length + 1, body, body, true⟩ :: rs) :=
  .inside hbody (fun _ ↦ hbody) (fun h ↦ absurd h.symm Bool.false_ne_true) houter

/-- The innermost region, in which the code can go on up to the same end, and what lies behind the
end. -/
theorem innermost (h : Running m result cs ts is ls rs) :
    ∃ body rest isLoop outer after, rs = ⟨cs.length, body, rest, isLoop⟩ :: outer ∧
      Emits m result cs ts is rest after ∧
      (∀ {ts' is' rest'}, Emits m result cs ts' is' rest' after →
        Running m result cs ts' is' ls (⟨cs.length, body, rest', isLoop⟩ :: outer)) ∧
      ∀ {c cs'}, cs = c :: cs' → ∃ target ls',
        ls = ⟨c.isLoop, c.result, c.base.length, target⟩ :: ls' ∧
        (c.isLoop = false → target = after) ∧
        Running m result cs' (c.result.toList ++ c.base) after ls' outer := by
  cases h with
  | function hcode => exact ⟨_, _, _, _, _, rfl, hcode, .function, nofun⟩
  | inside hcode hloop htarget houter =>
    refine ⟨_, _, _, _, _, rfl, hcode, fun hcode' ↦ .inside hcode' hloop htarget houter, ?_⟩
    rintro _ _ ⟨⟩
    exact ⟨_, _, rfl, htarget, houter⟩

/-- The label and the region that a branch finds, and what it leads to. -/
theorem branch (h : Running m result cs ts is ls rs) {depth : Nat} {c : Construct}
    (hc : cs[depth]? = some c) :
    ∃ target r, ls.drop depth = ⟨c.isLoop, c.result, c.base.length, target⟩ :: ls.drop (depth + 1) ∧
      Activation.regionsFrom (cs.length - depth) rs = some (r, rs.drop (depth + 1)) ∧
      (c.isLoop = true → Running m result (cs.drop depth) c.base target (ls.drop depth)
        ({ r with rest := r.body } :: rs.drop (depth + 1))) ∧
      (c.isLoop = false → Running m result (cs.drop (depth + 1)) (c.result.toList ++ c.base) target
        (ls.drop (depth + 1)) (rs.drop (depth + 1))) := by
  induction h generalizing depth with
  | function => cases hc
  | @inside c' cs ts is after target ls body rest rs hcode hloop htarget houter ih =>
    cases depth with
    | zero =>
      obtain rfl := Option.some.inj hc
      refine ⟨target, _, rfl, if_pos rfl, fun hkind ↦ ?_, fun hkind ↦ ?_⟩
      · exact .inside (hloop hkind) hloop htarget houter
      · exact htarget hkind ▸ houter
    | succ depth =>
      have hc : cs[depth]? = some c := by simpa using hc
      have hlt := (List.getElem?_eq_some_iff.mp hc).1
      obtain ⟨target, r, hlabel, hregion, hrunning⟩ := ih hc
      refine ⟨target, r, by simpa using hlabel, ?_, by simpa using hrunning⟩
      rw [Activation.regionsFrom, if_neg (by simp; omega)]
      simpa using hregion

/-- What a branch finds does not depend on the statements that are left in the innermost region. -/
theorem branch_of_rest {label : Nat} {body rest : List Stmt} {isLoop : Bool}
    (h : Running m result cs ts is ls (⟨label, body, rest, isLoop⟩ :: rs)) (rest' : List Stmt)
    {depth : Nat} {c : Construct} (hc : cs[depth]? = some c) :
    ∃ target r, ls.drop depth = ⟨c.isLoop, c.result, c.base.length, target⟩ :: ls.drop (depth + 1) ∧
      Activation.regionsFrom (cs.length - depth) (⟨label, body, rest', isLoop⟩ :: rs) =
        some (r, rs.drop depth) ∧
      (c.isLoop = true → Running m result (cs.drop depth) c.base target (ls.drop depth)
        ({ r with rest := r.body } :: rs.drop depth)) ∧
      (c.isLoop = false → Running m result (cs.drop (depth + 1)) (c.result.toList ++ c.base) target
        (ls.drop (depth + 1)) (rs.drop depth)) := by
  obtain ⟨target, r, hlabel, hregion, hrunning⟩ := h.branch hc
  rw [Activation.regionsFrom] at hregion ⊢
  split
  · rename_i hhere
    rw [if_pos hhere] at hregion
    injection hregion with hregion
    injection hregion with hr hrs
    subst hr
    exact ⟨target, _, hlabel, congrArg (fun rs ↦ some (_, rs)) hrs, hrunning⟩
  · rename_i hthere
    rw [if_neg hthere] at hregion
    exact ⟨target, r, hlabel, hregion, hrunning⟩

end Running

/-- Compiled code at the same point as the instructions, in an instance of the module. -/
inductive Tracks (m : Module) : Stacked.Activation → Activation → Prop
  | mk {inst : Nat} {result : Option ValueType} {slots : Slots} {vs : List Value}
      {ts : List ValueType} {cs : List Construct} {labels : List Stacked.Label}
      {is : List Instr} {regions : List Region} (hvs : slots.Holds vs ts)
      (hrun : Running m.declarations result cs ts is labels regions) :
      Tracks m ⟨inst, result, slots.locals, vs, labels, is⟩ ⟨inst, slots, regions, none⟩

/-- Both wait for the same callee, whose value becomes an operand if it has a result. -/
inductive WaitTracks (m : Module) : Stacked.Waiting → Suspended → Prop
  | mk {inst : Nat} {result callee : Option ValueType} {slots : Slots} {vs : List Value}
      {ts : List ValueType} {cs : List Construct} {labels : List Stacked.Label}
      {is : List Instr} {regions : List Region} (hvs : slots.Holds vs ts)
      (hrun : Running m.declarations result cs (callee.toList ++ ts) is labels regions) :
      WaitTracks m ⟨⟨inst, result, slots.locals, vs, labels, is⟩, callee⟩
        ⟨⟨inst, slots, regions, none⟩, callee.map (operandSlot · ts)⟩

/-- What an instruction and a statement lead to. Compiled code that returns has one more step to
take. -/
inductive ActionTracks (m : Module) :
    Action Stacked.Activation Stacked.Waiting → Action Activation Suspended → Prop
  | next {b : Stacked.Activation} {a : Activation} (h : Tracks m b a) :
      ActionTracks m (.next b) (.next a)
  | call {caller addr : Nat} {args : List Value} {w : Stacked.Waiting} {w' : Suspended}
      (h : WaitTracks m w w') :
      ActionTracks m (.call caller addr args w) (.call caller addr args w')
  | ret {a : Activation} (h : a.regions = []) : ActionTracks m (.ret a.returned) (.next a)

/-! ## One step -/

section

variable {m : Module} {inst : Nat} {result : Option ValueType} {slots : Slots} {vs : List Value}
  {ts : List ValueType} {labels : List Stacked.Label} {code : List Instr} {regions : List Region}
  {s : Store}

theorem agree_leave {locals : Array Value} {value : Option Slot} (hvs : slots.Holds vs ts)
    (hvalue : Returns result ts value) :
    Agree (Stacked.Activation.leave ⟨inst, result, locals, vs, labels, code⟩)
      (do return .next (← Activation.ret ⟨inst, slots, regions, none⟩ value)) s
      (ActionTracks m) := by
  cases hvalue with
  | value t ts =>
    cases hvs with
    | @cons v vs _ _ hv _ =>
      simp only [Stacked.Activation.leave, Activation.ret, pop_bind, get_bind hv,
        pure_bind]
      exact .pure (.ret (a := ⟨inst, slots, [], some v⟩) rfl)
  | nothing => exact .pure (.ret (a := ⟨inst, slots, [], none⟩) rfl)

theorem Target.Fits.carries {L : Layout} {ls : List Label} {label : Nat}
    {carry : Option (Slot × Slot)} (h : Target.Fits L ls (.leave label carry)) :
    ∃ l, L.Carries l carry := by
  cases h with
  | leave _ _ hcarry => exact ⟨_, hcarry⟩

theorem agree_branch {L : Layout} {ls : List Label} {cs : List Construct} {depth : Nat}
    {target : Target} {label : Nat} {body stmts rest : List Stmt} {isLoop : Bool}
    {ts₀ : List ValueType} {is : List Instr} (htarget : Branches result cs ts depth target)
    (hfits : target.Fits L ls) (hslots : slots.Fits L) (hvs : slots.Holds vs ts)
    (hrun : Running m.declarations result cs ts₀ is labels
      (⟨label, body, stmts, isLoop⟩ :: regions)) :
    Agree (Stacked.Activation.branch ⟨inst, result, slots.locals, vs, labels, code⟩ depth)
      (do return .next (← Activation.take
        ⟨inst, slots, ⟨label, body, rest, isLoop⟩ :: regions, none⟩ target)) s
      (ActionTracks m) := by
  cases htarget with
  | leave hc hkind hresult hbase =>
    obtain ⟨target, r, hlabel, hregion, -, hleave⟩ := hrun.branch_of_rest rest hc
    simp only [Stacked.Activation.branch, hlabel, hkind, hresult, Activation.take,
      Activation.carry, hregion, pure_bind]
    have hrun' := hleave hkind
    rw [hresult] at hrun'
    exact .pure (.next (.mk (hvs.drop hbase) hrun'))
  | @carry c t ts depth hc hkind hresult hbase =>
    obtain ⟨target, r, hlabel, hregion, -, hleave⟩ := hrun.branch_of_rest rest hc
    cases hvs with
    | @cons v vs _ _ hv hvs =>
      obtain ⟨l, _, -, -, -, hdst⟩ := hfits.carries
      obtain ⟨slots', hset⟩ := hslots.settable hdst v
      simp only [Stacked.Activation.branch, hlabel, hkind, hresult, pop_bind, Activation.take,
        Activation.carry, get_bind hv, set_bind hset, hregion, Bool.false_eq_true, if_false,
        pure_bind]
      have hrun' := hleave hkind
      rw [hresult] at hrun'
      have hbelow := (Slots.Holds.cons hv hvs).drop (hbase.trans (List.suffix_cons t ts))
      rw [← Slots.locals_of_set_operand hset]
      exact .pure (.next (.mk (hbelow.push hset) hrun'))
  | restart hc hkind hbase =>
    obtain ⟨target, r, hlabel, hregion, hrestart, -⟩ := hrun.branch_of_rest rest hc
    simp only [Stacked.Activation.branch, hlabel, hkind, Activation.take, hregion, pure_bind]
    have hrun' := hrestart hkind
    rw [hlabel, hkind] at hrun'
    exact .pure (.next (.mk (hvs.drop hbase) hrun'))
  | ret hvalue =>
    have hlabels : labels.drop cs.length = [] := by
      rw [← hrun.length_labels, List.drop_length]
    simp only [Stacked.Activation.branch, hlabels, hrun.length_labels, if_true, Activation.take]
    exact agree_leave hvs hvalue

/-- The last step of a call, once the callee is known. -/
theorem agree_call (find : Module → Option FuncType) {i : Instance} {callee : FuncType}
    {addr : Nat} {cs : List Construct} (hi : s.instances[inst]? = some i)
    (hcallee : find i.module = some callee) (hvs : slots.Holds vs (callee.params.reverse ++ ts))
    (hrun : Running i.module.declarations result cs (callee.result.toList ++ ts) code labels
      regions) :
    Agree (do
        match find (← Exec.instanceAt inst).module with
        | none => throw (.badHandle .type)
        | some callee =>
          let (args, a) ← Stacked.Activation.popArgs
            ⟨inst, result, slots.locals, vs, labels, code⟩ callee.params.length
          return .call a.inst addr args ⟨a, callee.result⟩)
      (do
        let args ← ofExcept (slots.gather (argSlots callee.params ts))
        return .call inst addr args
          ⟨⟨inst, slots, regions, none⟩, callee.result.map (operandSlot · ts)⟩) s
      (ActionTracks i.module) := by
  have hlength : ¬vs.length < callee.params.length := by
    rw [hvs.length_eq]
    simp
  obtain ⟨hgather, hrest⟩ := hvs.gather
  refine .left (Exec.instanceAt_run hi) ?_
  simp only [hcallee, Stacked.Activation.popArgs, if_neg hlength, hgather, pure_bind]
  exact .pure (.call (.mk hrest hrun))

end

theorem Activation.Sound.stmt_fits {s : Store} {i : Instance} {code : Code} {a : Activation}
    (h : a.Sound s i code) {r : Region} {rs : List Region} (hregions : a.regions = r :: rs)
    {stmt : Stmt} (hstmt : stmt ∈ r.rest) : ∃ ls, stmt.Fits (code.layout i.module) ls := by
  obtain ⟨-, -, -, ⟨hnone, -⟩ | ⟨-, -, ls, hfit⟩⟩ := h
  · rw [hregions] at hnone
    cases hnone
  · rw [hregions] at hfit
    cases hfit with
    | function hrest => exact ⟨_, hrest stmt hstmt⟩
    | inner hrest => exact ⟨_, hrest stmt hstmt⟩

/-- An instruction without control becomes one statement, unless it only drops an operand or does
nothing. -/
theorem Plain.cases_stmts {ts ts' : List ValueType} {i : Instr} {stmts : List Stmt}
    (h : Plain ts i stmts ts') :
    (stmts = [] ∧ (i = .nop ∧ ts' = ts ∨ i = .drop ∧ ∃ t, ts = t :: ts')) ∨
      ∃ stmt, stmts = [stmt] := by
  cases h with
  | nop => exact .inl ⟨rfl, .inl ⟨rfl, rfl⟩⟩
  | drop t => exact .inl ⟨rfl, .inr ⟨rfl, t, rfl⟩⟩
  | _ => exact .inr ⟨_, rfl⟩

/-- From the same point, the instruction is one that becomes no statement, or it agrees with the
statement. -/
theorem Tracks.agree {s : Store} {i : Instance} {code : Code} {b : Stacked.Activation}
    {a : Activation} (hs : s.WellFormed) (ha : a.Sound s i code) (h : Tracks i.module b a) :
    (∃ b', b.step.run s = .ok (.next b') s ∧ Tracks i.module b' a ∧
      b'.code.length < b.code.length) ∨
    Agree b.step a.step s (ActionTracks i.module) := by
  obtain @⟨inst, result, slots, vs, ts, cs, labels, is, regions, hvs, hrun⟩ := h
  obtain ⟨body, rest, isLoop, outer, after, rfl, hemits, hgo, hend⟩ := hrun.innermost
  have hslots := ha.slots
  cases hemits with
  | plain hplain hrest =>
    obtain ⟨rfl, ⟨rfl, rfl⟩ | ⟨rfl, t, rfl⟩⟩ | ⟨stmt, rfl⟩ := hplain.cases_stmts
    -- `nop` and `drop` come to no statement: compiled code stands still.
    · exact .inl ⟨_, rfl, .mk hvs (hgo hrest), Nat.lt_succ_self _⟩
    · cases hvs with
      | cons hv hvs => exact .inl ⟨_, rfl, .mk hvs (hgo hrest), Nat.lt_succ_self _⟩
    · obtain ⟨ls, hfits⟩ := ha.stmt_fits rfl List.mem_cons_self
      refine .inr ((hplain.agree hfits hslots hvs).mono ?_)
      rintro _ _ ⟨vs', slots', rfl, rfl, hvs'⟩
      exact .next (.mk hvs' (hgo hrest))
  | block hafter hbody hrest =>
    simp only [Stacked.Activation.step, Stacked.Activation.exec, hafter, Stacked.Activation.place,
      Stacked.Activation.enter, hvs.length_eq, pure_bind]
    exact .inr (.pure (.next (.mk hvs (.enter hbody (hgo hrest)))))
  | loop hbody hrest =>
    simp only [Stacked.Activation.step, Stacked.Activation.exec, Stacked.Activation.enter,
      hvs.length_eq]
    exact .inr (.pure (.next (.mk hvs (.enter_loop hbody (hgo hrest)))))
  | conditional hafter helse hthen hotherwise hrest =>
    cases hvs with
    | cons hc hvs =>
      simp only [Stacked.Activation.step, Stacked.Activation.exec, popI32_bind, hafter, helse,
        Stacked.Activation.place, Stacked.Activation.enter, hvs.length_eq, pure_bind,
        Activation.step, Activation.exec, i32_bind hc]
      refine .inr (.same fun w _ ↦ .pure (.next ?_))
      split
      · exact .mk hvs (.enter hthen (hgo hrest))
      · exact .mk hvs (.enter hotherwise (hgo hrest))
  | otherwise hkind hafter =>
    -- The end of a first arm jumps to where the label of its construct is.
    obtain ⟨target, ls', rfl, htarget, houter⟩ := hend rfl
    obtain rfl := htarget hkind
    exact .inr (.pure (.next (.mk hvs houter)))
  | close =>
    obtain ⟨target, ls', rfl, -, houter⟩ := hend rfl
    exact .inr (.pure (.next (.mk hvs houter)))
  | finish hvalue =>
    obtain rfl := List.length_eq_zero_iff.mp hrun.length_labels
    exact .inr (agree_leave hvs hvalue)
  | unreachable => exact .inr (.throw _)
  | br htarget =>
    obtain ⟨ls, hfits⟩ := ha.stmt_fits rfl List.mem_cons_self
    cases hfits with
    | branch hfits => exact .inr (agree_branch htarget hfits hslots hvs hrun)
  | brIf htarget hrest =>
    obtain ⟨ls, hfits⟩ := ha.stmt_fits rfl List.mem_cons_self
    cases hfits with
    | branchIf _ hfits =>
      cases hvs with
      | cons hc hvs =>
        simp only [Stacked.Activation.step, Stacked.Activation.exec, popI32_bind,
          Activation.step, Activation.exec, i32_bind hc]
        refine .inr (.same fun w _ ↦ ?_)
        split
        · exact agree_branch htarget hfits hslots hvs hrun
        · exact .pure (.next (.mk hvs (hgo hrest)))
  | @brTable cs ts depths default targets target is after rest htargets htarget =>
    obtain ⟨ls, hfits⟩ := ha.stmt_fits rfl List.mem_cons_self
    cases hfits with
    | branchTable _ hfits hdefault =>
      cases hvs with
      | cons hc hvs =>
        simp only [Stacked.Activation.step, Stacked.Activation.exec, popI32_bind,
          Activation.step, Activation.exec, i32_bind hc]
        refine .inr (.same fun w _ ↦ ?_)
        have hchosen : (targets[w.toNat]?.getD target).Fits (code.layout i.module) ls := by
          cases hget : targets[w.toNat]? with
          | none => exact hdefault
          | some target => exact hfits target (List.mem_of_getElem? hget)
        exact agree_branch (forall₂_getD htargets htarget w.toNat) hchosen hslots hvs hrun
  | ret hvalue => exact .inr (agree_leave hvs hvalue)
  | @call cs ts func callee is after rest hcallee hrest =>
    simp only [Stacked.Activation.step, Stacked.Activation.exec, Activation.step, Activation.exec]
    refine .inr (.same_of_ensures (E := Trapped s) (Exec.funcAddress_ensures hs ha.inst hcallee) ?_)
    rintro addr _ ⟨rfl, -⟩
    exact agree_call (·.funcType? func) ha.inst hcallee hvs (hgo hrest)
  | @callIndirect cs ts type callee is after rest hcallee hrest =>
    obtain ⟨ls, hfits⟩ := ha.stmt_fits rfl List.mem_cons_self
    cases hfits with
    | callIndirect htable =>
      cases hvs with
      | cons hc hvs =>
        simp only [Stacked.Activation.step, Stacked.Activation.exec, popI32_bind,
          Activation.step, Activation.exec, i32_bind hc]
        refine .inr (.same_ofExcept fun index ↦ ?_)
        refine .same_of_ensures (Exec.indirectCallee_ensures hs ha.inst htable hcallee) ?_
        rintro addr _ ⟨rfl, -⟩
        exact agree_call (·.types[type]?) ha.inst hcallee hvs (hgo hrest)

end WasmEngine
