import WasmEngine.Proofs.Typing
import WasmEngine.Proofs.Updates

/-!
# Statements run soundly

An activation is sound when its code belongs to the module of its instance, its slots and regions
fit that code, and what it has returned fits the function's result. Every statement of sound code
runs: it leads to a sound activation, to a call of a function of the right type with arguments of
the right types, or to one of the few traps that the meaning of the code asks for. It keeps the
store well formed on the way.
-/

namespace WasmEngine

/-- A value, or none, as a result type asks for. -/
def ResultFits (v : Option Value) (t : Option ValueType) : Prop :=
  Option.Rel (fun v t ↦ v.type = t) v t

/-- A call of `code` in progress in the instance `i`. -/
structure Activation.Sound (s : Store) (i : Instance) (code : Code) (a : Activation) : Prop where
  inst : s.instances[a.inst]? = some i
  mem : code ∈ i.module.code
  slots : a.slots.Fits (code.layout i.module)
  regions : (a.regions = [] ∧ ResultFits a.returned code.type.result) ∨
    (a.returned = none ∧ RegionsEnd (code.layout i.module) a.regions ∧
      ∃ ls, RegionsFit (code.layout i.module) ls a.regions)

/-- A call of `code` that waits for a callee of the given type. -/
structure Suspended.Sound (s : Store) (i : Instance) (code : Code) (callee : FuncType)
    (w : Suspended) : Prop where
  activation : w.activation.Sound s i code
  result : Option.Rel (code.layout i.module).HasSlot w.result callee.result

/-- What a step of code may lead to. -/
def ActionSound (s : Store) (i : Instance) (code : Code) : Action Activation Suspended → Prop
  | .next a => a.Sound s i code
  | .call caller addr args w => s.instances[caller]? = some i ∧
      ∃ callee, s.HasFunc addr callee ∧ args.map Value.type = callee.params ∧
        w.Sound s i code callee
  | .ret v => ResultFits v code.type.result

/-- The traps that statements raise. -/
def Trap.OfStatement : Trap → Prop
  | .unreachable | .divideByZero | .integerOverflow | .memoryOutOfBounds _ _
  | .tableOutOfBounds _ _ | .uninitializedElement _ | .indirectCallType _ _ => True
  | _ => False

/-- How a statement fails: the store stays well formed, and the trap is one of a few. -/
def Trapped (s : Store) (t : Trap) (s' : Store) : Prop := s.Kept s' ∧ t.OfStatement

/-! ## Operators -/

theorem i32Operand_eq_ok {v : Value} (h : v.type = .i32) : ∃ w, i32Operand v = .ok w := by
  cases v with
  | i32 w => exact ⟨w, rfl⟩
  | _ => cases h

/-- An operator on an operand of its type gives its result and never traps. -/
theorem UnaryOp.eval_ensures (op : UnaryOp) {v : Value} (h : v.type = op.operand) {s : Store}
    {E : Trap → Store → Prop} :
    Ensures (ofExcept (op.eval v)) s (fun v' s' ↦ s' = s ∧ v'.type = op.result) E := by
  obtain ⟨w, hw⟩ := i32Operand_eq_ok h
  have heval : op.eval v = .ok (.i32 (op.apply w)) := except_bind_eq_ok.mpr ⟨w, hw, rfl⟩
  rw [heval]
  exact .pure ⟨rfl, rfl⟩

theorem BinaryOp.ofStatement_of_apply {op : BinaryOp} {a b : BitVec 32} {t : Trap}
    (h : op.apply a b = .error t) : t.OfStatement := by
  cases op with
  | divS =>
    simp only [apply] at h
    split at h
    · cases h
      trivial
    · split at h
      · cases h
        trivial
      · cases h
  | divU | remS | remU =>
    simp only [apply] at h
    split at h
    · cases h
      trivial
    · cases h
  | _ => cases h

/-- An operator on two operands gives its result, or traps as statements may. -/
theorem BinaryOp.eval_ensures (op : BinaryOp) {l r : Value} (hl : l.type = op.operand)
    (hr : r.type = op.operand) {s : Store} (hs : s.WellFormed) :
    Ensures (ofExcept (op.eval l r)) s (fun v s' ↦ s' = s ∧ v.type = op.result) (Trapped s) := by
  obtain ⟨a, ha⟩ := i32Operand_eq_ok hl
  obtain ⟨b, hb⟩ := i32Operand_eq_ok hr
  have heval : op.eval l r = do return .i32 (← op.apply a b) := by
    simp only [BinaryOp.eval, ha, hb]
    rfl
  rw [heval]
  cases happly : op.apply a b with
  | ok w => exact .pure ⟨rfl, rfl⟩
  | error t => exact .throw ⟨.refl hs, ofStatement_of_apply happly⟩

/-! ## Items of an instance -/

namespace Exec

variable {s : Store} {i : Instance} {inst : Nat} {E : Trap → Store → Prop}

/-- What is there is found. -/
theorem found_ensures {α : Type} {kind : Referent} {o : Option α} {a : α} (h : o = some a) :
    Ensures (found kind o) s (fun a' s' ↦ s' = s ∧ a' = a) E := by
  rw [h]
  exact .pure ⟨rfl, rfl⟩

theorem instanceAt_run (hi : s.instances[inst]? = some i) :
    (instanceAt inst).run s = .ok i s := by
  simp only [instanceAt, EStateM.run_bind, EStateM.run_get, hi]
  rfl

theorem instanceAt_ensures (hi : s.instances[inst]? = some i) :
    Ensures (instanceAt inst) s (fun i' s' ↦ s' = s ∧ i' = i) E :=
  .get_bind (found_ensures hi)

theorem memoryAt_ensures {addr : Nat} {x : Memory} (hx : s.memories[addr]? = some x) :
    Ensures (memoryAt addr) s (fun x' s' ↦ s' = s ∧ x' = x) E :=
  .get_bind (found_ensures hx)

theorem tableAt_ensures {addr : Nat} {x : Table} (hx : s.tables[addr]? = some x) :
    Ensures (tableAt addr) s (fun x' s' ↦ s' = s ∧ x' = x) E :=
  .get_bind (found_ensures hx)

theorem globalAt_ensures {addr : Nat} {g : Global} (hg : s.globals[addr]? = some g) :
    Ensures (globalAt addr) s (fun g' s' ↦ s' = s ∧ g' = g) E :=
  .get_bind (found_ensures hg)

theorem funcAt_ensures {addr : Nat} {c : Callable} (hc : s.funcs[addr]? = some c) :
    Ensures (funcAt addr) s (fun c' s' ↦ s' = s ∧ c' = c) E :=
  .get_bind (found_ensures hc)

/-- An instance has an address for what it is asked for. -/
theorem address_ensures {kind : Referent} (look : Instance → Option Nat) {P : Nat → Prop}
    {addr : Nat} (hi : s.instances[inst]? = some i) (haddr : look i = some addr) (hP : P addr) :
    Ensures (do found kind (look (← instanceAt inst))) s (fun addr s' ↦ s' = s ∧ P addr) E := by
  refine .bind (instanceAt_ensures hi) ?_
  rintro _ _ ⟨rfl, rfl⟩
  rw [haddr]
  exact .pure ⟨rfl, hP⟩

/-- A function that the module has is in the instance, with its type. -/
theorem funcAddress_ensures (hs : s.WellFormed) (hi : s.instances[inst]? = some i) {index : Nat}
    {type : FuncType} (htype : i.module.funcType? index = some type) :
    Ensures (funcAddress inst index) s (fun addr s' ↦ s' = s ∧ s.HasFunc addr type) E := by
  obtain ⟨addr, haddr, hfunc⟩ := (hs.instances hi).hasFunc htype
  exact address_ensures (·.funcs[index]?) hi haddr hfunc

/-- So is a global. -/
theorem globalAddress_ensures (hs : s.WellFormed) (hi : s.instances[inst]? = some i) {index : Nat}
    {g : GlobalType} (hg : i.module.globalType? index = some g) :
    Ensures (globalAddress inst index) s (fun addr s' ↦ s' = s ∧ s.HasGlobal addr g) E := by
  rw [(hs.instances hi).decoded.valid.counted.globalType?_eq] at hg
  obtain ⟨addr, haddr, hglobal⟩ := forall₂_getElem?_left (hs.instances hi).spaces.globals hg
  rw [Array.getElem?_toList] at haddr
  exact address_ensures (·.globals[index]?) hi haddr hglobal

/-- The first address of an index space that is not empty. -/
theorem exists_first {α : Type} {R : α → Nat → Prop} {decls : List α} {space : Array Nat}
    (h : List.Forall₂ R decls space.toList) (hne : decls ≠ []) :
    ∃ d addr, space[0]? = some addr ∧ R d addr := by
  obtain ⟨addr, haddr, hR⟩ :=
    forall₂_getElem?_left h (List.getElem?_eq_getElem (List.length_pos_iff.mpr hne))
  rw [Array.getElem?_toList] at haddr
  exact ⟨_, addr, haddr, hR⟩

/-- If the module has a memory, its instance does. -/
theorem memoryAddress_ensures (hs : s.WellFormed) (hi : s.instances[inst]? = some i)
    (hmemory : i.module.spaceSize .memory ≠ 0) :
    Ensures (memoryAddress inst) s
      (fun addr s' ↦ s' = s ∧ ∃ x, s.memories[addr]? = some x) E := by
  have hcounted := (hs.instances hi).decoded.valid.counted
  rw [Ne, hcounted.spaceSize_memory_eq_zero] at hmemory
  obtain ⟨_, addr, haddr, hlt⟩ := exists_first (hs.instances hi).spaces.memories hmemory
  exact address_ensures (·.memories[0]?) hi haddr ⟨_, Array.getElem?_eq_getElem hlt⟩

theorem tableAddress_ensures (hs : s.WellFormed) (hi : s.instances[inst]? = some i)
    (htable : i.module.spaceSize .table ≠ 0) :
    Ensures (tableAddress inst) s (fun addr s' ↦ s' = s ∧ ∃ x, s.tables[addr]? = some x) E := by
  have hcounted := (hs.instances hi).decoded.valid.counted
  rw [Ne, hcounted.spaceSize_table_eq_zero] at htable
  obtain ⟨_, addr, haddr, hlt⟩ := exists_first (hs.instances hi).spaces.tables htable
  exact address_ensures (·.tables[0]?) hi haddr ⟨_, Array.getElem?_eq_getElem hlt⟩

/-! ## Globals, memories and tables -/

theorem globalGet_ensures (hs : s.WellFormed) (hi : s.instances[inst]? = some i) {index : Nat}
    {g : GlobalType} (hg : i.module.globalType? index = some g) :
    Ensures (globalGet inst index) s (fun v s' ↦ s' = s ∧ v.type = g.type) E := by
  refine .bind (globalAddress_ensures hs hi hg) fun addr s' h ↦ ?_
  obtain ⟨rfl, x, hx, rfl⟩ := h
  refine .bind (globalAt_ensures hx) fun x' s'' h ↦ .pure ?_
  obtain ⟨rfl, rfl⟩ := h
  exact ⟨rfl, hs.globals hx⟩

/-- A global that is set to a value of its type leaves the store well formed. -/
theorem globalSet_ensures (hs : s.WellFormed) (hi : s.instances[inst]? = some i) {index : Nat}
    {g : GlobalType} {v : Value} (hg : i.module.globalType? index = some g)
    (hv : v.type = g.type) :
    Ensures (globalSet inst index v) s (fun _ s' ↦ s.Kept s') E := by
  refine .bind (globalAddress_ensures hs hi hg) fun addr s' h ↦ ?_
  obtain ⟨rfl, x, hx, rfl⟩ := h
  refine .bind (globalAt_ensures hx) fun x' s'' h ↦ ?_
  obtain ⟨rfl, rfl⟩ := h
  exact .modify (hs.setGlobal hx hv)

/-- A load finds its memory, and may only trap for its address. -/
theorem load_ensures (hs : s.WellFormed) (hi : s.instances[inst]? = some i)
    (hmemory : i.module.spaceSize .memory ≠ 0) {access : Access} {addr : Nat} :
    Ensures (load inst access addr) s (fun _ s' ↦ s' = s) (Trapped s) := by
  refine .bind (memoryAddress_ensures hs hi hmemory) fun a s' h ↦ ?_
  obtain ⟨rfl, x, hx⟩ := h
  refine .bind (memoryAt_ensures hx) fun x' s'' h ↦ ?_
  obtain ⟨rfl, rfl⟩ := h
  refine .ofExcept (fun _ _ ↦ rfl) fun t ht ↦ ?_
  unfold Memory.load at ht
  split at ht
  · cases ht
  · cases ht
    exact ⟨.refl hs, trivial⟩

/-- A store finds its memory, and leaves the store well formed. -/
theorem store_ensures (hs : s.WellFormed) (hi : s.instances[inst]? = some i)
    (hmemory : i.module.spaceSize .memory ≠ 0) {access : Access} {addr : Nat} {value : BitVec 32} :
    Ensures (store inst access addr value) s (fun _ s' ↦ s.Kept s') (Trapped s) := by
  refine .bind (memoryAddress_ensures hs hi hmemory) fun a s' h ↦ ?_
  obtain ⟨rfl, x, hx⟩ := h
  refine .bind (memoryAt_ensures hx) fun x' s'' h ↦ ?_
  obtain ⟨rfl, rfl⟩ := h
  refine .ite (fun _ ↦ .modify ?_) fun _ ↦ .throw ⟨.refl hs, trivial⟩
  exact hs.modifyMemory a fun x ↦ .write x addr _

theorem memorySize_ensures (hs : s.WellFormed) (hi : s.instances[inst]? = some i)
    (hmemory : i.module.spaceSize .memory ≠ 0) :
    Ensures (memorySize inst) s (fun _ s' ↦ s' = s) E := by
  refine .bind (memoryAddress_ensures hs hi hmemory) fun a s' h ↦ ?_
  obtain ⟨rfl, x, hx⟩ := h
  exact .bind (memoryAt_ensures hx) fun x' s'' h ↦ .pure h.1

/-- Growth that is refused is no trap. -/
theorem memoryGrow_ensures (hs : s.WellFormed) (hi : s.instances[inst]? = some i)
    (hmemory : i.module.spaceSize .memory ≠ 0) {delta : Nat} :
    Ensures (memoryGrow inst delta) s (fun _ s' ↦ s.Kept s') E := by
  refine .bind (memoryAddress_ensures hs hi hmemory) fun a s' h ↦ ?_
  obtain ⟨rfl, x, hx⟩ := h
  refine .bind (memoryAt_ensures hx) fun x' s'' h ↦ ?_
  obtain ⟨rfl, rfl⟩ := h
  split
  · rename_i previous x'' hgrow
    exact .bind (.modify (hs.setMemory hx (.grow hgrow))) fun _ _ hkept ↦ .pure hkept
  · exact .pure (.refl hs)

/-- An indirect call reaches a function of the type that it names. -/
theorem indirectCallee_ensures (hs : s.WellFormed) (hi : s.instances[inst]? = some i)
    (htable : i.module.spaceSize .table ≠ 0) {type index : Nat} {expected : FuncType}
    (htype : i.module.types[type]? = some expected) :
    Ensures (indirectCallee inst type index) s (fun addr s' ↦ s' = s ∧ s.HasFunc addr expected)
      (Trapped s) := by
  refine .bind (tableAddress_ensures hs hi htable) fun a s' h ↦ ?_
  obtain ⟨rfl, x, hx⟩ := h
  refine .bind (tableAt_ensures hx) fun x' s'' h ↦ ?_
  obtain ⟨rfl, rfl⟩ := h
  split
  · exact .throw ⟨.refl hs, trivial⟩
  · exact .throw ⟨.refl hs, trivial⟩
  · rename_i addr haddr
    obtain ⟨_, c, hc, -⟩ := hs.tables hx addr (Array.mem_of_getElem? haddr)
    refine .bind (instanceAt_ensures hi) fun i' s' h ↦ ?_
    obtain ⟨rfl, rfl⟩ := h
    rw [htype]
    refine .bind (funcAt_ensures hc) fun c' s'' h ↦ ?_
    obtain ⟨rfl, rfl⟩ := h
    exact .ite (fun hfound ↦ .pure ⟨rfl, c', hc, hfound⟩) fun _ ↦ .throw ⟨.refl hs, trivial⟩

end Exec

/-! ## Activations -/

/-- Code that is sound stays so while the store grows. -/
theorem Activation.Sound.mono {s s' : Store} {i : Instance} {code : Code} {a : Activation}
    (hext : s.Extends s') (h : a.Sound s i code) : a.Sound s' i code :=
  { h with inst := hext.instances h.inst }

theorem Suspended.Sound.mono {s s' : Store} {i : Instance} {code : Code} {callee : FuncType}
    {w : Suspended} (hext : s.Extends s') (h : w.Sound s i code callee) :
    w.Sound s' i code callee :=
  { h with activation := h.activation.mono hext }

namespace Activation

/-- A call that is about to run a statement in the constructs with the given labels. -/
structure Ready (s : Store) (i : Instance) (code : Code) (ls : List Label) (a : Activation) :
    Prop where
  inst : s.instances[a.inst]? = some i
  mem : code ∈ i.module.code
  slots : a.slots.Fits (code.layout i.module)
  returned : a.returned = none
  regions : RegionsFit (code.layout i.module) ls a.regions

variable {s s' : Store} {i : Instance} {code : Code} {ls : List Label} {a : Activation}
  {slot : Slot} {t : ValueType} {E : Trap → Store → Prop}

theorem Ready.sound (h : Ready s i code ls a)
    (hend : RegionsEnd (code.layout i.module) a.regions) : a.Sound s i code :=
  ⟨h.inst, h.mem, h.slots, .inr ⟨h.returned, hend, ls, h.regions⟩⟩

theorem Ready.mono (hext : s.Extends s') (h : Ready s i code ls a) : Ready s' i code ls a :=
  { h with inst := hext.instances h.inst }

/-- A statement that opens a construct. -/
theorem Ready.enter (h : Ready s i code ls a) (hend : RegionsEnd (code.layout i.module) a.regions)
    {l : Label} {body : List Stmt}
    (hbody : ∀ stmt ∈ body, stmt.Fits (code.layout i.module) (l :: ls)) :
    (a.enter (ls.length + 1) body l.isLoop).Sound s i code := by
  exact ⟨h.inst, h.mem, h.slots, .inr ⟨h.returned, hend.cons h.regions.ne_nil _, l :: ls,
    .inner hbody (fun _ ↦ hbody) h.regions⟩⟩

/-- A slot of the layout holds a value of its type. -/
theorem get_ensures (h : Ready s i code ls a) (hslot : (code.layout i.module).HasSlot slot t) :
    Ensures (a.get slot) s (fun v s' ↦ s' = s ∧ v.type = t) E := by
  obtain ⟨v, hv, htype⟩ := h.slots.get hslot
  unfold Activation.get
  rw [hv]
  exact .pure ⟨rfl, htype⟩

theorem i32_ensures (h : Ready s i code ls a) (hslot : (code.layout i.module).HasSlot slot .i32) :
    Ensures (a.i32 slot) s (fun _ s' ↦ s' = s) E := by
  obtain ⟨w, hw⟩ := h.slots.i32 hslot
  unfold Activation.i32
  rw [hw]
  exact .pure rfl

/-- Arguments have the types of their slots. -/
theorem gather_ensures (h : Ready s i code ls a) {args : List Slot} {ts : List ValueType}
    (hargs : List.Forall₂ (code.layout i.module).HasSlot args ts) :
    Ensures (ofExcept (a.slots.gather args)) s
      (fun vs s' ↦ s' = s ∧ vs.map Value.type = ts) E := by
  obtain ⟨vs, hvs, htypes⟩ := h.slots.gather hargs
  rw [hvs]
  exact .pure ⟨rfl, htypes⟩

/-- A slot takes a value of its type, and the others stay as they are. -/
theorem set_ensures (h : Ready s i code ls a) (hslot : (code.layout i.module).HasSlot slot t)
    {v : Value} (hv : v.type = t) :
    Ensures (a.set slot v) s
      (fun a' s' ↦ s' = s ∧ Ready s i code ls a' ∧ a'.regions = a.regions) E := by
  obtain ⟨slots', hset, hfits⟩ := h.slots.set hslot hv
  obtain ⟨inst, slots, regions, returned⟩ := a
  change slots.set slot v = .ok slots' at hset
  simp only [Activation.set, hset]
  exact .pure ⟨rfl, { h with slots := hfits }, rfl⟩

/-- The last step of a statement that computes a value. -/
theorem set_next (h : Ready s i code ls a) (hend : RegionsEnd (code.layout i.module) a.regions)
    (hslot : (code.layout i.module).HasSlot slot t) {v : Value} (hv : v.type = t)
    (hkept : s'.Kept s) :
    Ensures (do return Action.next (← a.set slot v)) s
      (fun act s'' ↦ s'.Kept s'' ∧ ActionSound s'' i code act) E := by
  refine .bind (set_ensures h hslot hv) fun a' s'' h' ↦ .pure ?_
  obtain ⟨rfl, hready, hregions⟩ := h'
  exact ⟨hkept, hready.sound (hregions ▸ hend)⟩

/-- A function returns a value of its result type. -/
theorem ret_ensures (h : Ready s i code ls a) {value : Option Slot}
    (hvalue : Option.Rel (code.layout i.module).HasSlot value code.type.result) :
    Ensures (a.ret value) s (fun a' s' ↦ s' = s ∧ a'.Sound s i code) E := by
  cases hresult : code.type.result with
  | none =>
    rw [hresult] at hvalue
    cases hvalue
    refine .pure ⟨rfl, h.inst, h.mem, h.slots, .inl ⟨rfl, ?_⟩⟩
    rw [hresult]
    exact .none
  | some t =>
    rw [hresult] at hvalue
    cases hvalue with
    | some hslot =>
      refine .bind (get_ensures h hslot) fun v s' hv ↦ .pure ?_
      obtain ⟨rfl, hv⟩ := hv
      refine ⟨rfl, h.inst, h.mem, h.slots, .inl ⟨rfl, ?_⟩⟩
      rw [hresult]
      exact .some hv

/-- A branch moves a value to a slot of the same type. -/
theorem carry_ensures (h : Ready s i code ls a) {l : Label} {carry : Option (Slot × Slot)}
    (hcarry : (code.layout i.module).Carries l carry) :
    Ensures (a.carry carry) s
      (fun a' s' ↦ s' = s ∧ Ready s i code ls a' ∧ a'.regions = a.regions) E := by
  cases carry with
  | none => exact .pure ⟨rfl, h, rfl⟩
  | some c =>
    obtain ⟨src, dst⟩ := c
    obtain ⟨t, -, hsrc, -, hdst⟩ := hcarry
    refine .bind (get_ensures h hsrc) fun v s' hv ↦ ?_
    obtain ⟨rfl, hv⟩ := hv
    exact set_ensures h hdst hv

/-- A branch leads on. In the outermost region it can only leave the function. -/
theorem take_ensures (h : Ready s i code ls a) {target : Target}
    (htarget : target.Fits (code.layout i.module) ls)
    (hend : ls ≠ [] → RegionsEnd (code.layout i.module) a.regions) :
    Ensures (a.take target) s (fun a' s' ↦ s' = s ∧ a'.Sound s i code) E := by
  cases htarget with
  | @leave depth l carry hl hkind hcarry =>
    have hne : ls ≠ [] := List.ne_nil_of_mem (List.mem_of_getElem? hl)
    refine .bind (carry_ensures h hcarry) fun a' s' ha' ↦ ?_
    obtain ⟨rfl, ha', hregions⟩ := ha'
    obtain ⟨r, hr, hfit, -⟩ := ha'.regions.regionsFrom_eq hl
    rw [hr]
    refine .pure ⟨rfl, ha'.inst, ha'.mem, ha'.slots, .inr ⟨ha'.returned, ?_, _, hfit⟩⟩
    rw [hregions]
    exact (hend hne).drop
  | @restart depth l hl hkind =>
    have hne : ls ≠ [] := List.ne_nil_of_mem (List.mem_of_getElem? hl)
    obtain ⟨r, hr, hfit, hlabel, hloop, hbody⟩ := h.regions.regionsFrom_eq hl
    obtain ⟨label, body, rest, isLoop⟩ := r
    subst hlabel hloop
    simp only [take, hr]
    refine .pure ⟨rfl, h.inst, h.mem, h.slots, .inr ⟨h.returned, ?_, _,
      .inner (hbody hkind) hbody hfit⟩⟩
    exact (hend hne).drop.cons hfit.ne_nil _
  | ret hvalue => exact ret_ensures h hvalue

/-- A statement of sound code runs. What comes after it in the outermost region matters only if
control can get there. -/
theorem exec_ensures (hs : s.WellFormed) (h : Ready s i code ls a) {stmt : Stmt}
    (hstmt : stmt.Fits (code.layout i.module) ls)
    (hnext : ¬stmt.Diverts → RegionsEnd (code.layout i.module) a.regions)
    (hbranch : ls ≠ [] → RegionsEnd (code.layout i.module) a.regions) :
    Ensures (a.exec stmt) s (fun act s' ↦ s.Kept s' ∧ ActionSound s' i code act) (Trapped s) := by
  have hsame : s.Kept s := .refl hs
  cases hstmt with
  | unreachable => exact .throw ⟨hsame, trivial⟩
  | block result base hbody =>
    exact .pure ⟨hsame, h.enter (hnext id) hbody⟩
  | loop result base hbody =>
    exact .pure ⟨hsame, h.enter (hnext id) hbody⟩
  | conditional result base hcond hthen helse =>
    refine .bind (i32_ensures h hcond) fun c s' hc ↦ .pure ?_
    subst hc
    refine ⟨hsame, h.enter (hnext id) (l := ⟨false, result, base⟩) ?_⟩
    split
    · exact hthen
    · exact helse
  | branch htarget =>
    refine .bind (take_ensures h htarget hbranch) ?_
    rintro a' s' ⟨rfl, ha'⟩
    exact .pure ⟨hsame, ha'⟩
  | branchIf hcond htarget =>
    have hend := hnext id
    refine .bind (i32_ensures h hcond) fun c s' hc ↦ ?_
    subst hc
    -- If the branch is not taken control goes on, so here the region must have an end.
    refine .ite (fun _ ↦ ?_) fun _ ↦ .pure ⟨hsame, h.sound hend⟩
    refine .bind (take_ensures h htarget fun _ ↦ hend) ?_
    rintro a' s' ⟨rfl, ha'⟩
    exact .pure ⟨hsame, ha'⟩
  | @branchTable _ index targets default hindex htargets hdefault =>
    refine .bind (i32_ensures h hindex) fun n s' hn ↦ ?_
    subst hn
    have htarget : (targets[n.toNat]?.getD default).Fits (code.layout i.module) ls := by
      cases htarget : targets[n.toNat]? with
      | none => exact hdefault
      | some target => exact htargets target (List.mem_of_getElem? htarget)
    refine .bind (take_ensures h htarget hbranch) ?_
    rintro a' s' ⟨rfl, ha'⟩
    exact .pure ⟨hsame, ha'⟩
  | ret hvalue =>
    refine .bind (ret_ensures h hvalue) ?_
    rintro a' s' ⟨rfl, ha'⟩
    exact .pure ⟨hsame, ha'⟩
  | call hfunc hargs hresult =>
    have hend := hnext id
    refine .bind (Exec.funcAddress_ensures hs h.inst hfunc) ?_
    rintro addr s' ⟨rfl, haddr⟩
    refine .bind (gather_ensures h hargs) ?_
    rintro args s'' ⟨rfl, htypes⟩
    exact .pure ⟨hsame, h.inst, _, haddr, htypes, h.sound hend, hresult⟩
  | callIndirect htable htype hindex hargs hresult =>
    have hend := hnext id
    refine .bind (i32_ensures h hindex) fun n s' hn ↦ ?_
    subst hn
    refine .bind (Exec.indirectCallee_ensures hs h.inst htable htype) ?_
    rintro addr s' ⟨rfl, haddr⟩
    refine .bind (gather_ensures h hargs) ?_
    rintro args s'' ⟨rfl, htypes⟩
    exact .pure ⟨hsame, h.inst, _, haddr, htypes, h.sound hend, hresult⟩
  | copy hdst hsrc =>
    refine .bind (get_ensures h hsrc) ?_
    rintro v s' ⟨rfl, hv⟩
    exact set_next h (hnext id) hdst hv hsame
  | const hdst => exact set_next h (hnext id) hdst rfl hsame
  | globalGet hglobal hdst =>
    refine .bind (Exec.globalGet_ensures hs h.inst hglobal) ?_
    rintro v s' ⟨rfl, hv⟩
    exact set_next h (hnext id) hdst hv hsame
  | globalSet hglobal hmutable hsrc =>
    refine .bind (get_ensures h hsrc) ?_
    rintro v s' ⟨rfl, hv⟩
    refine .bind (Exec.globalSet_ensures hs h.inst hglobal hv) fun _ s' hkept ↦ .pure ?_
    exact ⟨hkept, (h.mono hkept.ext).sound (hnext id)⟩
  | select hdst hifFalse hcond =>
    have hend := hnext id
    refine .bind (i32_ensures h hcond) fun c s' hc ↦ ?_
    subst hc
    refine .ite (fun _ ↦ .pure ⟨hsame, h.sound hend⟩) fun _ ↦ ?_
    refine .bind (get_ensures h hifFalse) ?_
    rintro v s' ⟨rfl, hv⟩
    exact set_next h hend hdst hv hsame
  | @unary _ op _ _ hdst hoperand =>
    refine .bind (get_ensures h hoperand) ?_
    rintro v s' ⟨rfl, hv⟩
    refine .bind (op.eval_ensures hv) ?_
    rintro v' s'' ⟨rfl, hv'⟩
    exact set_next h (hnext id) hdst hv' hsame
  | @binary _ op _ _ _ hdst hlhs hrhs =>
    refine .bind (get_ensures h hlhs) ?_
    rintro l s' ⟨rfl, hl⟩
    refine .bind (get_ensures h hrhs) ?_
    rintro r s'' ⟨rfl, hr⟩
    refine .bind (op.eval_ensures hl hr hs) ?_
    rintro v s'' ⟨rfl, hv⟩
    exact set_next h (hnext id) hdst hv hsame
  | load hmemory hdst haddr =>
    refine .bind (i32_ensures h haddr) fun base s' hbase ↦ ?_
    subst hbase
    refine .bind (Exec.load_ensures hs h.inst hmemory) fun w s'' hw ↦ ?_
    subst hw
    exact set_next h (hnext id) hdst rfl hsame
  | store hmemory haddr hvalue =>
    refine .bind (i32_ensures h haddr) fun base s' hbase ↦ ?_
    subst hbase
    refine .bind (i32_ensures h hvalue) fun w s' hw ↦ ?_
    subst hw
    refine .bind (Exec.store_ensures hs h.inst hmemory) fun _ s' hkept ↦ .pure ?_
    exact ⟨hkept, (h.mono hkept.ext).sound (hnext id)⟩
  | memorySize hmemory hdst =>
    refine .bind (Exec.memorySize_ensures hs h.inst hmemory) fun n s' hn ↦ ?_
    subst hn
    exact set_next h (hnext id) hdst rfl hsame
  | memoryGrow hmemory hdst hdelta =>
    refine .bind (i32_ensures h hdelta) fun d s' hd ↦ ?_
    subst hd
    refine .bind (Exec.memoryGrow_ensures hs h.inst hmemory) fun w s'' hkept ↦ ?_
    exact set_next (h.mono hkept.ext) (hnext id) hdst rfl hkept

/-- Every step of a sound activation is sound. -/
theorem Sound.step_ensures (hs : s.WellFormed) (h : a.Sound s i code) :
    Ensures a.step s (fun act s' ↦ s.Kept s' ∧ ActionSound s' i code act) (Trapped s) := by
  obtain ⟨inst, slots, regions, returned⟩ := a
  obtain ⟨hinst, hmem, hslots, ⟨rfl, hresult⟩ | ⟨rfl, hend, ls, hregions⟩⟩ := h
  · exact .pure ⟨.refl hs, hresult⟩
  · cases hregions with
    | @function body rest hrest =>
      cases rest with
      | nil =>
        -- Control that gets past the last statement leaves without a value.
        have hnone : code.type.result = none := by
          obtain hnone | ⟨stmt, hstmt, -⟩ := hend _ rfl
          · exact hnone
          · cases hstmt
        refine .pure ⟨.refl hs, hinst, hmem, hslots, .inl ⟨rfl, ?_⟩⟩
        rw [hnone]
        exact .none
      | cons stmt rest =>
        obtain ⟨hstmt, hrest⟩ := List.forall_mem_cons.mp hrest
        have hready : Ready s i code [] ⟨inst, slots, [⟨0, body, rest, false⟩], none⟩ :=
          ⟨hinst, hmem, hslots, rfl, .function hrest⟩
        refine exec_ensures hs hready hstmt ?_ ?_
        · rintro hdiverts r hr
          obtain rfl := Option.some.inj hr
          obtain hnone | ⟨stmt', hstmt', hdiverts'⟩ := hend _ rfl
          · exact .inl hnone
          · obtain rfl | hstmt' := List.mem_cons.mp hstmt'
            · exact absurd hdiverts' hdiverts
            · exact .inr ⟨stmt', hstmt', hdiverts'⟩
        · exact fun hne ↦ absurd rfl hne
    | @inner ls rs l body rest hrest hbody houter =>
      have hends : RegionsEnd (code.layout i.module) rs := hend.drop (n := 1)
      cases rest with
      | nil => exact .pure ⟨.refl hs, hinst, hmem, hslots, .inr ⟨rfl, hends, ls, houter⟩⟩
      | cons stmt rest =>
        obtain ⟨hstmt, hrest⟩ := List.forall_mem_cons.mp hrest
        have hready : Ready s i code (l :: ls)
            ⟨inst, slots, ⟨ls.length + 1, body, rest, l.isLoop⟩ :: rs, none⟩ :=
          ⟨hinst, hmem, hslots, rfl, .inner hrest hbody houter⟩
        have hend := hends.cons houter.ne_nil ⟨ls.length + 1, body, rest, l.isLoop⟩
        exact exec_ensures hs hready hstmt (fun _ ↦ hend) fun _ ↦ hend

end Activation

/-! ## Calls and returns -/

/-- The code of an instance in a well-formed store fits its module. -/
theorem Store.WellFormed.code_fits {s : Store} (hs : s.WellFormed) {inst : Nat} {i : Instance}
    {code : Code} (hi : s.instances[inst]? = some i) (hcode : code ∈ i.module.code) :
    code.Fits i.module := by
  obtain ⟨k, hk⟩ := List.mem_iff_getElem?.mp hcode
  obtain ⟨_, _, _, is, hfrom⟩ := (hs.instances hi).decoded.valid.code k code hk
  exact hfrom.fits

/-- A call with arguments of the right types starts soundly. -/
theorem Activation.start_sound {s : Store} (hs : s.WellFormed) {inst : Nat} {i : Instance}
    {code : Code} {args : List Value} (hi : s.instances[inst]? = some i)
    (hcode : code ∈ i.module.code) (hargs : args.map Value.type = code.type.params) :
    (Activation.start inst code args).Sound s i code := by
  have hfits := hs.code_fits hi hcode
  refine ⟨hi, hcode, Slots.fits_new hfits hargs, .inr ⟨rfl, ?_, [], .function hfits.body⟩⟩
  intro r hr
  obtain rfl := Option.some.inj hr
  exact hfits.ending

/-- A result of the callee's type can be taken over. -/
theorem Suspended.Sound.resume {s : Store} {i : Instance} {code : Code} {callee : FuncType}
    {w : Suspended} {v : Option Value} (h : w.Sound s i code callee)
    (hv : ResultFits v callee.result) : ∃ a, w.resume v = .ok a ∧ a.Sound s i code := by
  obtain ⟨⟨inst, slots, regions, returned⟩, result⟩ := w
  obtain ⟨hsound, hresult⟩ := h
  cases result with
  | none => exact ⟨_, rfl, hsound⟩
  | some slot =>
    cases htype : callee.result with
    | none =>
      rw [htype] at hresult
      cases hresult
    | some t =>
      rw [htype] at hresult hv
      cases hresult with
      | some hslot =>
        cases hv with
        | @some v _ hv =>
          obtain ⟨slots', hset, hfits⟩ := hsound.slots.set hslot hv
          exact ⟨_, except_bind_eq_ok.mpr ⟨slots', hset, rfl⟩, { hsound with slots := hfits }⟩

end WasmEngine
