import WasmEngine.Proofs.Statements

/-!
# What statements leave alone

A statement works on the items of the instance whose code it belongs to. It may change one memory of
that instance in place or give one of its mutable globals a new value, and that is all: no item is
added, functions, tables and instances stay as they are, and neither the calls in progress nor the
journal are touched. What it calls is a function of the instance, or stands in one of its tables.
-/

namespace WasmEngine

/-- What a statement of the instance `i` may do to a store. -/
inductive Store.Touched (s : Store) (i : Instance) : Store → Prop
  | same : Touched s i s
  | memory {a : Nat} {x x' : Memory} (ha : a ∈ i.memories) (hx : s.memories[a]? = some x)
      (hchange : Memory.Change x x') : Touched s i (s.setMemory a x')
  | global {a : Nat} {g : Global} (v : Value) (ha : a ∈ i.globals) (hg : s.globals[a]? = some g)
      (hmutable : g.type.isMutable = true) :
      Touched s i { s with globals := s.globals.modify a fun g ↦ { g with value := v } }

/-- Code of the instance can call the function: it is one of the instance's functions, or stands in
one of its tables. -/
def Instance.Calls (s : Store) (i : Instance) (addr : Nat) : Prop :=
  addr ∈ i.funcs ∨ ∃ b ∈ i.tables, ∃ x, s.tables[b]? = some x ∧ some addr ∈ x.slots

/-- What code of the instance `i` at the address `inst` may do next. -/
def ActionWithin (s : Store) (inst : Nat) (i : Instance) : Action Activation Suspended → Prop
  | .next a => a.inst = inst
  | .call _ addr _ w => w.activation.inst = inst ∧ i.Calls s addr
  | .ret _ => True

/-- To change an item in place is to put the changed item in its place. -/
theorem setIfInBounds_eq_modify {α : Type} {xs : Array α} {addr : Nat} {x : α} {g : α → α}
    (h : xs[addr]? = some x) :
    xs.setIfInBounds addr (g x) = xs.modify addr g := by
  apply Array.ext_getElem?
  intro i
  rw [Array.getElem?_setIfInBounds, Array.getElem?_modify]
  split
  · rename_i heq
    subst heq
    rw [h, if_pos (Array.getElem?_eq_some_iff.mp h).1]
    rfl
  · rfl

/-! ## Programs that only look -/

/-- Started in `s`, the program leaves the store as it is, and its result satisfies `P`. -/
def Looks {α : Type} (x : Exec α) (s : Store) (P : α → Prop) : Prop :=
  Ensures x s (fun a t ↦ t = s ∧ P a) fun _ t ↦ t = s

namespace Looks

variable {α β : Type} {s : Store} {P : α → Prop}

theorem pure {a : α} (h : P a) : Looks (pure a) s P := Ensures.pure ⟨rfl, h⟩

theorem throw (t : Trap) : Looks (throw t) s P := Ensures.throw rfl

theorem found {kind : Referent} {o : Option α} :
    Looks (Exec.found kind o) s fun a ↦ o = some a := by
  cases o with
  | none => exact throw _
  | some a => exact pure rfl

theorem ofExcept {r : Except Trap α} : Looks (ofExcept r) s fun a ↦ r = .ok a :=
  Ensures.ofExcept (fun _ ha ↦ ⟨rfl, ha⟩) fun _ _ ↦ rfl

/-- A program that looks at the store before it does what `f` does. -/
theorem bind_ensures {x : Exec α} {f : α → Exec β} {Q : β → Store → Prop}
    {E : Trap → Store → Prop} (hx : Looks x s P) (hE : ∀ t, E t s)
    (hf : ∀ a, P a → Ensures (f a) s Q E) : Ensures (x >>= f) s Q E := by
  refine .bind (hx.mono (fun a t h ↦ h) fun e t ht ↦ ht ▸ hE e) ?_
  rintro a t ⟨rfl, ha⟩
  exact hf a ha

theorem bind {x : Exec α} {f : α → Exec β} {R : β → Prop} (hx : Looks x s P)
    (hf : ∀ a, P a → Looks (f a) s R) : Looks (x >>= f) s R :=
  hx.bind_ensures (fun _ ↦ rfl) hf

theorem mono {x : Exec α} {R : α → Prop} (hx : Looks x s P) (h : ∀ a, P a → R a) :
    Looks x s R :=
  Ensures.mono hx (fun a _ ha ↦ ⟨ha.1, h a ha.2⟩) fun _ _ he ↦ he

end Looks

namespace Exec

variable {s : Store} {inst : Nat} {i : Instance}

theorem instanceAt_looks : Looks (instanceAt inst) s fun i ↦ s.instances[inst]? = some i :=
  Ensures.get_bind Looks.found

theorem funcAt_looks {addr : Nat} : Looks (funcAt addr) s fun c ↦ s.funcs[addr]? = some c :=
  Ensures.get_bind Looks.found

theorem globalAt_looks {addr : Nat} : Looks (globalAt addr) s fun g ↦ s.globals[addr]? = some g :=
  Ensures.get_bind Looks.found

theorem memoryAt_looks {addr : Nat} : Looks (memoryAt addr) s fun x ↦ s.memories[addr]? = some x :=
  Ensures.get_bind Looks.found

theorem tableAt_looks {addr : Nat} : Looks (tableAt addr) s fun x ↦ s.tables[addr]? = some x :=
  Ensures.get_bind Looks.found

variable (hi : s.instances[inst]? = some i)

include hi

/-- What an instance is asked for is looked up in that instance. -/
theorem address_looks (kind : Referent) (look : Instance → Option Nat) :
    Looks (do found kind (look (← instanceAt inst))) s fun addr ↦ look i = some addr := by
  refine instanceAt_looks.bind fun i' hi' ↦ ?_
  obtain rfl := Option.some.inj (hi.symm.trans hi')
  exact .found

theorem funcAddress_looks {index : Nat} :
    Looks (funcAddress inst index) s fun addr ↦ addr ∈ i.funcs :=
  (address_looks hi .func (·.funcs[index]?)).mono fun _ ↦ Array.mem_of_getElem?

theorem globalAddress_looks {index : Nat} :
    Looks (globalAddress inst index) s fun addr ↦ i.globals[index]? = some addr :=
  address_looks hi .global (·.globals[index]?)

theorem memoryAddress_looks : Looks (memoryAddress inst) s fun addr ↦ addr ∈ i.memories :=
  (address_looks hi .memory (·.memories[0]?)).mono fun _ ↦ Array.mem_of_getElem?

theorem tableAddress_looks : Looks (tableAddress inst) s fun addr ↦ addr ∈ i.tables :=
  (address_looks hi .table (·.tables[0]?)).mono fun _ ↦ Array.mem_of_getElem?

theorem globalGet_looks {index : Nat} : Looks (globalGet inst index) s fun _ ↦ True :=
  (globalAddress_looks hi).bind fun _ _ ↦ globalAt_looks.bind fun _ _ ↦ .pure trivial

theorem load_looks {access : Access} {addr : Nat} :
    Looks (load inst access addr) s fun _ ↦ True :=
  (memoryAddress_looks hi).bind fun _ _ ↦ memoryAt_looks.bind fun _ _ ↦
    Looks.ofExcept.mono fun _ _ ↦ trivial

theorem memorySize_looks : Looks (memorySize inst) s fun _ ↦ True :=
  (memoryAddress_looks hi).bind fun _ _ ↦ memoryAt_looks.bind fun _ _ ↦ .pure trivial

/-- An indirect call reaches a function that stands in a table of the instance. -/
theorem indirectCallee_looks {type index : Nat} :
    Looks (indirectCallee inst type index) s (i.Calls s) := by
  refine (tableAddress_looks hi).bind fun b hb ↦ tableAt_looks.bind fun x hx ↦ ?_
  split
  · exact .throw _
  · exact .throw _
  · rename_i addr haddr
    refine instanceAt_looks.bind fun _ _ ↦ ?_
    split
    · exact .throw _
    · refine funcAt_looks.bind fun _ _ ↦ ?_
      refine Ensures.ite (fun _ ↦ Looks.pure ?_) fun _ ↦ Looks.throw _
      exact .inr ⟨b, hb, x, hx, Array.mem_of_getElem? haddr⟩

/-! ## Changes -/

theorem globalSet_touches {index : Nat} {v : Value}
    (hmutable : ∀ addr g, i.globals[index]? = some addr → s.globals[addr]? = some g →
      g.type.isMutable = true) :
    Ensures (globalSet inst index v) s (fun _ ↦ s.Touched i) fun _ ↦ s.Touched i := by
  refine (globalAddress_looks hi).bind_ensures (fun _ ↦ .same) fun addr haddr ↦ ?_
  refine globalAt_looks.bind_ensures (fun _ ↦ .same) fun g hg ↦ .modify ?_
  exact .global v (Array.mem_of_getElem? haddr) hg (hmutable addr g haddr hg)

theorem store_touches {access : Access} {addr : Nat} {value : BitVec 32} :
    Ensures (store inst access addr value) s (fun _ ↦ s.Touched i) fun _ ↦ s.Touched i := by
  refine (memoryAddress_looks hi).bind_ensures (fun _ ↦ .same) fun a ha ↦ ?_
  refine memoryAt_looks.bind_ensures (fun _ ↦ .same) fun x hx ↦ ?_
  refine .ite (fun _ ↦ .modify ?_) fun _ ↦ .throw .same
  rw [← setIfInBounds_eq_modify (g := (·.write addr (lowBytes value access.width))) hx]
  exact .memory ha hx (.write x addr _)

theorem memoryGrow_touches {delta : Nat} :
    Ensures (memoryGrow inst delta) s (fun _ ↦ s.Touched i) fun _ ↦ s.Touched i := by
  refine (memoryAddress_looks hi).bind_ensures (fun _ ↦ .same) fun a ha ↦ ?_
  refine memoryAt_looks.bind_ensures (fun _ ↦ .same) fun x hx ↦ ?_
  split
  · rename_i previous x' hgrow
    exact .bind (.modify (.memory ha hx (.grow hgrow))) fun _ _ ht ↦ .pure ht
  · exact .pure .same

end Exec

/-! ## Statements -/

namespace Activation

variable {s t : Store} {i : Instance} {a : Activation}

theorem set_looks {slot : Slot} {v : Value} :
    Looks (a.set slot v) s fun a' ↦ a'.inst = a.inst := by
  obtain ⟨inst, slots, regions, returned⟩ := a
  exact Looks.ofExcept.bind fun _ _ ↦ .pure rfl

theorem ret_looks {value : Option Slot} : Looks (a.ret value) s fun a' ↦ a'.inst = a.inst := by
  cases value with
  | none => exact .pure rfl
  | some slot => exact Looks.ofExcept.bind fun _ _ ↦ .pure rfl

theorem carry_looks {carried : Option (Slot × Slot)} :
    Looks (a.carry carried) s fun a' ↦ a'.inst = a.inst := by
  cases carried with
  | none => exact .pure rfl
  | some c => exact Looks.ofExcept.bind fun _ _ ↦ set_looks

theorem take_looks {target : Target} : Looks (a.take target) s fun a' ↦ a'.inst = a.inst := by
  cases target with
  | leave label carried =>
    refine carry_looks.bind fun a' ha' ↦ ?_
    split
    · exact .pure ha'
    · exact .throw _
  | restart label =>
    simp only [take]
    split
    · exact .pure rfl
    · exact .throw _
  | ret value => exact ret_looks

/-- What a step of `a` may do to the store it is made in, and what it may lead to. -/
def Steps (s : Store) (i : Instance) (a : Activation) (act : Action Activation Suspended)
    (t : Store) : Prop :=
  s.Touched i t ∧ ActionWithin s a.inst i act

/-- The last step of a statement that goes on in the same function. -/
theorem next_steps {x : Exec Activation} (hx : Looks x t fun a' ↦ a'.inst = a.inst)
    (ht : s.Touched i t) :
    Ensures (do return Action.next (← x)) t (a.Steps s i) fun _ ↦ s.Touched i :=
  hx.bind_ensures (fun _ ↦ ht) fun _ ha' ↦ .pure ⟨ht, ha'⟩

/-- A statement changes nothing but what its instance may change. -/
theorem exec_steps {stmt : Stmt} (hi : s.instances[a.inst]? = some i)
    (hmutable : ∀ index src addr g, stmt = .globalSet index src → i.globals[index]? = some addr →
      s.globals[addr]? = some g → g.type.isMutable = true) :
    Ensures (a.exec stmt) s (a.Steps s i) fun _ ↦ s.Touched i := by
  have hsame : Trap → s.Touched i s := fun _ ↦ .same
  cases stmt with
  | unreachable => exact .throw .same
  | block label body => exact .pure ⟨.same, rfl⟩
  | loop label body => exact .pure ⟨.same, rfl⟩
  | conditional label cond thenBody elseBody =>
    exact Looks.ofExcept.bind_ensures hsame fun _ _ ↦ .pure ⟨.same, rfl⟩
  | branch target => exact next_steps take_looks .same
  | branchIf cond target =>
    refine Looks.ofExcept.bind_ensures hsame fun _ _ ↦ ?_
    exact .ite (fun _ ↦ next_steps take_looks .same) fun _ ↦ .pure ⟨.same, rfl⟩
  | branchTable index targets default =>
    exact Looks.ofExcept.bind_ensures hsame fun _ _ ↦ next_steps take_looks .same
  | ret value => exact next_steps ret_looks .same
  | call func args result =>
    refine (Exec.funcAddress_looks hi).bind_ensures hsame fun addr haddr ↦ ?_
    exact Looks.ofExcept.bind_ensures hsame fun _ _ ↦ .pure ⟨.same, rfl, .inl haddr⟩
  | callIndirect type callee args result =>
    refine Looks.ofExcept.bind_ensures hsame fun _ _ ↦ ?_
    refine (Exec.indirectCallee_looks hi).bind_ensures hsame fun addr haddr ↦ ?_
    exact Looks.ofExcept.bind_ensures hsame fun _ _ ↦ .pure ⟨.same, rfl, haddr⟩
  | copy dst src =>
    exact Looks.ofExcept.bind_ensures hsame fun _ _ ↦ next_steps set_looks .same
  | const dst value => exact next_steps set_looks .same
  | globalGet dst global =>
    exact (Exec.globalGet_looks hi).bind_ensures hsame fun _ _ ↦ next_steps set_looks .same
  | globalSet global src =>
    refine Looks.ofExcept.bind_ensures hsame fun v _ ↦ ?_
    refine .bind (Exec.globalSet_touches hi fun addr g ↦ hmutable global src addr g rfl) ?_
    exact fun _ t ht ↦ .pure ⟨ht, rfl⟩
  | select dst ifFalse cond =>
    refine Looks.ofExcept.bind_ensures hsame fun _ _ ↦ ?_
    refine .ite (fun _ ↦ .pure ⟨.same, rfl⟩) fun _ ↦ ?_
    exact Looks.ofExcept.bind_ensures hsame fun _ _ ↦ next_steps set_looks .same
  | unary op dst operand =>
    refine Looks.ofExcept.bind_ensures hsame fun _ _ ↦ ?_
    exact Looks.ofExcept.bind_ensures hsame fun _ _ ↦ next_steps set_looks .same
  | binary op dst lhs rhs =>
    refine Looks.ofExcept.bind_ensures hsame fun _ _ ↦ ?_
    refine Looks.ofExcept.bind_ensures hsame fun _ _ ↦ ?_
    exact Looks.ofExcept.bind_ensures hsame fun _ _ ↦ next_steps set_looks .same
  | load access offset dst addr =>
    refine Looks.ofExcept.bind_ensures hsame fun _ _ ↦ ?_
    exact (Exec.load_looks hi).bind_ensures hsame fun _ _ ↦ next_steps set_looks .same
  | store access offset addr value =>
    refine Looks.ofExcept.bind_ensures hsame fun _ _ ↦ ?_
    refine Looks.ofExcept.bind_ensures hsame fun _ _ ↦ ?_
    exact .bind (Exec.store_touches hi) fun _ t ht ↦ .pure ⟨ht, rfl⟩
  | memorySize dst =>
    exact (Exec.memorySize_looks hi).bind_ensures hsame fun _ _ ↦ next_steps set_looks .same
  | memoryGrow dst delta =>
    refine Looks.ofExcept.bind_ensures hsame fun _ _ ↦ ?_
    exact .bind (Exec.memoryGrow_touches hi) fun _ t ht ↦ next_steps set_looks ht

/-- Code that fits sets only globals that may be set. -/
theorem mutable_of_fits (hs : s.WellFormed) {inst : Nat} (hi : s.instances[inst]? = some i)
    {code : Code} {ls : List Label} {stmt : Stmt} (hstmt : stmt.Fits (code.layout i.module) ls) :
    ∀ index src addr g, stmt = .globalSet index src → i.globals[index]? = some addr →
      s.globals[addr]? = some g → g.type.isMutable = true := by
  rintro index src addr g rfl haddr hg
  cases hstmt with
  | globalSet hglobal hmutable _ =>
    have hlinked := hs.instances hi
    have hspace := (hlinked.decoded.valid.counted.globalType?_eq index).symm.trans hglobal
    obtain ⟨addr', haddr', g', hg', rfl⟩ := forall₂_getElem?_left hlinked.spaces.globals hspace
    rw [Array.getElem?_toList] at haddr'
    obtain rfl := Option.some.inj (haddr'.symm.trans haddr)
    obtain rfl := Option.some.inj (hg'.symm.trans hg)
    exact hmutable

/-- A step of sound code changes nothing but what its instance may change. -/
theorem Sound.step_steps {code : Code} (hs : s.WellFormed) (h : a.Sound s i code) :
    Ensures a.step s (a.Steps s i) fun _ ↦ s.Touched i := by
  obtain ⟨inst, slots, regions, returned⟩ := a
  obtain ⟨hi, -, -, ⟨rfl, -⟩ | ⟨-, -, ls, hregions⟩⟩ := h
  · exact .pure ⟨.same, trivial⟩
  · cases hregions with
    | @function body rest hrest =>
      cases rest with
      | nil => exact .pure ⟨.same, rfl⟩
      | cons stmt rest =>
        exact exec_steps hi (mutable_of_fits hs hi (hrest stmt List.mem_cons_self))
    | @inner ls rs l body rest hrest hbody houter =>
      cases rest with
      | nil => exact .pure ⟨.same, rfl⟩
      | cons stmt rest =>
        exact exec_steps hi (mutable_of_fits hs hi (hrest stmt List.mem_cons_self))

end Activation

end WasmEngine
