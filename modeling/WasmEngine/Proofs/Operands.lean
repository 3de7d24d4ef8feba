import WasmEngine.Proofs.Emission
import WasmEngine.Proofs.Statements

/-!
# Operands in their slots

Operands that lie on a stack are found in the slots that their types give them. A slot above all
operands of its lane can be set without touching any of them, so that pushing an operand and storing
into its slot come to the same. Instructions without control then agree with the statements they
become: from the same store, they end with the same operands and locals, or with the same trap.
-/

namespace WasmEngine

namespace Slots

/-- The slots hold operands of the given types, the latest first. -/
inductive Holds (slots : Slots) : List Value → List ValueType → Prop
  | nil : Holds slots [] []
  | cons {v : Value} {vs : List Value} {t : ValueType} {ts : List ValueType}
      (hv : slots.get? (operandSlot t ts) = some v) (hvs : Holds slots vs ts) :
      Holds slots (v :: vs) (t :: ts)

variable {slots slots' : Slots} {slot : Slot} {v : Value} {vs : List Value} {t : ValueType}
  {ts : List ValueType}

theorem get?_of_set (h : slots.set slot v = .ok slots') (slot' : Slot) :
    slots'.get? slot' = if slot' = slot then some v else slots.get? slot' := by
  obtain ⟨locals, lanes⟩ := slots
  cases slot with
  | «local» index =>
    simp only [set] at h
    split at h
    · rename_i hlt
      cases h
      cases slot' with
      | «local» index' => grind [get?]
      | stack lane height => simp [get?]
    · cases h
  | stack lane height =>
    simp only [set] at h
    split at h
    · rename_i hlt
      cases h
      cases slot' with
      | «local» index' => simp [get?]
      | stack lane' height' =>
        simp only [get?, Lanes.get_modify, Slot.stack.injEq]
        grind
    · cases h

theorem locals_of_set_operand {below : List ValueType}
    (h : slots.set (operandSlot t below) v = .ok slots') : slots'.locals = slots.locals := by
  obtain ⟨locals, lanes⟩ := slots
  simp only [operandSlot, set] at h
  split at h
  · cases h
    rfl
  · cases h

theorem locals_of_set_local {index : Nat} (h : slots.set (.local index) v = .ok slots') :
    index < slots.locals.size ∧ slots'.locals = slots.locals.setIfInBounds index v := by
  obtain ⟨locals, lanes⟩ := slots
  simp only [set] at h
  split at h
  · rename_i hlt
    cases h
    exact ⟨hlt, rfl⟩
  · cases h

theorem get_eq_ok (h : slots.get? slot = some v) : slots.get slot = .ok v := by
  rw [get, h]

theorem i32_eq (h : slots.get? slot = some v) : slots.i32 slot = i32Operand v := by
  rw [i32, get_eq_ok h]
  rfl

theorem Fits.operand_type {L : Layout} (h : slots.Fits L)
    (hv : slots.get? (operandSlot t ts) = some v) : v.type = t :=
  h.lanes t v (Array.mem_of_getElem? hv)

namespace Holds

theorem length_eq (h : slots.Holds vs ts) : vs.length = ts.length := by
  induction h with
  | nil => rfl
  | cons _ _ ih => rw [List.length_cons, List.length_cons, ih]

/-- Slots that agree below a height hold the same operands. -/
theorem congr (h : slots.Holds vs ts)
    (hslots : ∀ t height, height < ts.count t →
      slots'.get? (.stack t height) = slots.get? (.stack t height)) : slots'.Holds vs ts := by
  induction h with
  | nil => exact .nil
  | @cons v vs t ts hv _ ih =>
    refine .cons ?_ (ih fun u height hlt ↦ hslots u height ?_)
    · rw [operandSlot, hslots t (ts.count t) (by simp), ← operandSlot, hv]
    · exact Nat.lt_of_lt_of_le hlt (List.count_le_count_cons)

/-- No operand is touched by setting a slot above those of its lane. -/
theorem set_above {below : List ValueType} (h : slots.Holds vs ts) (hbelow : ts <:+ below)
    (hset : slots.set (operandSlot t below) v = .ok slots') : slots'.Holds vs ts := by
  refine h.congr fun u height hlt ↦ ?_
  rw [get?_of_set hset, if_neg]
  rintro heq
  injection heq with hu hheight
  subst hu hheight
  exact absurd (hbelow.sublist.count_le u) (by omega)

/-- To push an operand is to set its slot. -/
theorem push (h : slots.Holds vs ts) (hset : slots.set (operandSlot t ts) v = .ok slots') :
    slots'.Holds (v :: vs) (t :: ts) := by
  refine .cons ?_ (h.set_above List.suffix_rfl hset)
  rw [get?_of_set hset, if_pos rfl]

theorem set_local {index : Nat} (h : slots.Holds vs ts)
    (hset : slots.set (.local index) v = .ok slots') : slots'.Holds vs ts :=
  h.congr fun u height _ ↦ by rw [get?_of_set hset, if_neg (by simp)]

/-- The operands that lie lowest. -/
theorem drop {base : List ValueType} (h : slots.Holds vs ts) (hbase : base <:+ ts) :
    slots.Holds (vs.drop (vs.length - base.length)) base := by
  induction h with
  | nil =>
    obtain rfl := List.suffix_nil.mp hbase
    exact .nil
  | @cons v vs t ts hv hvs ih =>
    obtain rfl | hbase := List.suffix_cons_iff.mp hbase
    · have hlength := hvs.length_eq
      simpa [hlength] using Holds.cons hv hvs
    · have hle := hbase.length_le
      rw [← hvs.length_eq] at hle
      rw [List.length_cons, Nat.succ_sub hle, List.drop_succ_cons]
      exact ih hbase

/-- The arguments of a call lie on top, the last one uppermost. -/
theorem gather {params : List ValueType} (h : slots.Holds vs (params.reverse ++ ts)) :
    slots.gather (argSlots params ts) = .ok (vs.take params.length).reverse ∧
      slots.Holds (vs.drop params.length) ts := by
  induction params generalizing ts with
  | nil => exact ⟨rfl, h⟩
  | cons p params ih =>
    rw [List.reverse_cons, List.append_assoc] at h
    obtain ⟨hgather, hrest⟩ := ih h
    rw [Slots.gather, except_mapM_eq_ok] at hgather ⊢
    generalize hdrop : vs.drop params.length = rest at hrest
    cases hrest with
    | @cons v rest _ _ hv hrest =>
      have htake : vs.take (params.length + 1) = vs.take params.length ++ [v] := by
        rw [List.take_add_one, ← List.head?_drop, hdrop]
        rfl
      have hdrop' : vs.drop (params.length + 1) = rest := by
        rw [← List.drop_drop, hdrop]
        rfl
      rw [List.length_cons, htake, hdrop', List.reverse_concat]
      exact ⟨.cons (get_eq_ok hv) hgather, hrest⟩

end Holds

end Slots

/-! ## Taking operands -/

section

variable {α : Type} {inst : Nat} {result : Option ValueType} {locals : Array Value}
  {slots : Slots} {slot : Slot} {v : Value} {vs : List Value} {t : ValueType}
  {ts : List ValueType} {labels : List Stacked.Label} {code : List Instr} {regions : List Region}
  {returned : Option Value}

theorem pop_bind {f : Value × Stacked.Activation → Exec α} :
    Stacked.Activation.pop ⟨inst, result, locals, v :: vs, labels, code⟩ >>= f =
      f (v, ⟨inst, result, locals, vs, labels, code⟩) := rfl

theorem popI32_bind {f : BitVec 32 × Stacked.Activation → Exec α} :
    Stacked.Activation.popI32 ⟨inst, result, locals, v :: vs, labels, code⟩ >>= f =
      ofExcept (i32Operand v) >>= fun w ↦ f (w, ⟨inst, result, locals, vs, labels, code⟩) := by
  rw [Stacked.Activation.popI32, pop_bind]
  simp only [bind_assoc, pure_bind]

theorem get_bind (hv : slots.get? slot = some v) {f : Value → Exec α} :
    Activation.get ⟨inst, slots, regions, returned⟩ slot >>= f = f v := by
  rw [Activation.get, Slots.get_eq_ok hv]
  rfl

theorem i32_bind (hv : slots.get? slot = some v) {f : BitVec 32 → Exec α} :
    Activation.i32 ⟨inst, slots, regions, returned⟩ slot >>= f =
      ofExcept (i32Operand v) >>= f := by
  rw [Activation.i32, Slots.i32_eq hv]

theorem set_bind {slots' : Slots} (hset : slots.set slot v = .ok slots')
    {f : Activation → Exec α} :
    Activation.set ⟨inst, slots, regions, returned⟩ slot v >>= f =
      f ⟨inst, slots', regions, returned⟩ := by
  rw [Activation.set, hset]
  rfl

/-- The locals are the same on both sides. -/
theorem localGet_eq (regions : List Region) {index : Nat} :
    Stacked.Activation.localGet ⟨inst, result, slots.locals, vs, labels, code⟩ index =
      Activation.get ⟨inst, slots, regions, none⟩ (.local index) := by
  simp only [Stacked.Activation.localGet, Activation.get, Slots.get, Slots.get?]
  cases slots.locals[index]? <;> rfl

/-- A local can be set before an operand is pushed or after. -/
theorem localSet_push {index : Nat} {w : Value} :
    (do return Action.next (W := Stacked.Waiting) ((← Stacked.Activation.localSet
        ⟨inst, result, locals, vs, labels, code⟩ index w).push v)) =
      (do return .next (← Stacked.Activation.localSet
        ⟨inst, result, locals, v :: vs, labels, code⟩ index w)) := by
  simp only [Stacked.Activation.localSet]
  split <;> rfl

/-- Both go on, with the same locals and with operands of the given types. -/
def GoOn (inst : Nat) (result : Option ValueType) (labels : List Stacked.Label)
    (code : List Instr) (regions : List Region) (ts : List ValueType)
    (x : Action Stacked.Activation Stacked.Waiting) (y : Action Activation Suspended) : Prop :=
  ∃ operands slots, x = .next ⟨inst, result, slots.locals, operands, labels, code⟩ ∧
    y = .next ⟨inst, slots, regions, none⟩ ∧ slots.Holds operands ts

variable {L : Layout} {s : Store}

/-- The last step of an instruction that pushes a value. -/
theorem agree_push {u : ValueType} (hslots : slots.Fits L)
    (hslot : L.HasSlot (operandSlot t ts) u) (hvs : slots.Holds vs ts) (v : Value) :
    Agree (pure (.next ⟨inst, result, slots.locals, v :: vs, labels, code⟩))
      (do return .next (← Activation.set ⟨inst, slots, regions, none⟩ (operandSlot t ts) v)) s
      (GoOn inst result labels code regions (t :: ts)) := by
  obtain ⟨slots', hset⟩ := hslots.settable hslot v
  rw [set_bind hset]
  refine .pure ⟨v :: vs, slots', ?_, rfl, hvs.push hset⟩
  rw [Slots.locals_of_set_operand hset]

/-- The last step of an instruction that sets a local. -/
theorem agree_local {index : Nat} (hslots : slots.Fits L) (hslot : L.HasSlot (.local index) t)
    (hvs : slots.Holds vs ts) (v : Value) :
    Agree (do return .next (← Stacked.Activation.localSet
        ⟨inst, result, slots.locals, vs, labels, code⟩ index v))
      (do return .next (← Activation.set ⟨inst, slots, regions, none⟩ (.local index) v)) s
      (GoOn inst result labels code regions ts) := by
  obtain ⟨slots', hset⟩ := hslots.settable hslot v
  obtain ⟨hlt, hlocals⟩ := Slots.locals_of_set_local hset
  rw [set_bind hset, Stacked.Activation.localSet, if_pos hlt]
  exact .pure ⟨vs, slots', by rw [hlocals], rfl, hvs.set_local hset⟩

/-- An instruction without control agrees with the statement that it becomes. -/
theorem Plain.agree {i : Instr} {stmt : Stmt} {ts' : List ValueType} {ls : List Label}
    (h : Plain ts i [stmt] ts') (hfits : stmt.Fits L ls) (hslots : slots.Fits L)
    (hvs : slots.Holds vs ts) :
    Agree (Stacked.Activation.exec ⟨inst, result, slots.locals, vs, labels, code⟩ i)
      (Activation.exec ⟨inst, slots, regions, none⟩ stmt) s
      (GoOn inst result labels code regions ts') := by
  cases h with
  | select t ts =>
    cases hfits with
    | select hdst hifFalse hcond =>
      cases hvs with
      | @cons c _ _ _ hc hvs =>
        cases hvs with
        | @cons ifFalse _ _ _ hifFalse hvs =>
          cases hvs with
          | @cons ifTrue vs _ _ hifTrue hvs =>
            simp only [Stacked.Activation.exec, Activation.exec, popI32_bind, pop_bind, i32_bind hc]
            refine .same fun w _ ↦ ?_
            split
            · exact .pure ⟨_, slots, rfl, rfl, .cons hifTrue hvs⟩
            · rw [get_bind hifFalse]
              exact agree_push hslots hdst hvs ifFalse
  | localGet index t ts =>
    cases hfits with
    | copy hdst hsrc =>
      simp only [Stacked.Activation.exec, Activation.exec]
      rw [localGet_eq regions]
      exact .same fun v _ ↦ agree_push hslots hdst hvs v
  | localSet index t ts =>
    cases hfits with
    | copy hdst hsrc =>
      cases hvs with
      | cons hv hvs =>
        simp only [Stacked.Activation.exec, Activation.exec, pop_bind, get_bind hv]
        exact agree_local hslots hdst hvs _
  | localTee index t ts =>
    cases hfits with
    | copy hdst hsrc =>
      cases hvs with
      | @cons v vs _ _ hv hvs =>
        simp only [Stacked.Activation.exec, Activation.exec, pop_bind, get_bind hv]
        rw [localSet_push]
        exact agree_local hslots hdst (.cons hv hvs) v
  | globalGet index t ts =>
    cases hfits with
    | globalGet _ hdst =>
      simp only [Stacked.Activation.exec, Activation.exec]
      exact .same fun v _ ↦ agree_push hslots hdst hvs v
  | globalSet index t ts =>
    cases hvs with
    | cons hv hvs =>
      simp only [Stacked.Activation.exec, Activation.exec, pop_bind, get_bind hv]
      exact .same fun _ _ ↦ .pure ⟨_, slots, rfl, rfl, hvs⟩
  | load access arg ts =>
    cases hfits with
    | load _ hdst haddr =>
      cases hvs with
      | cons hv hvs =>
        simp only [Stacked.Activation.exec, Activation.exec, popI32_bind, i32_bind hv]
        exact .same fun base _ ↦ .same fun w _ ↦ agree_push hslots hdst hvs (.i32 w)
  | store access arg ts =>
    cases hvs with
    | cons hvalue hvs =>
      cases hvs with
      | cons haddr hvs =>
        -- The operands are checked in different orders, but both are words.
        obtain ⟨w, hw⟩ := i32Operand_eq_ok (hslots.operand_type hvalue)
        obtain ⟨base, hbase⟩ := i32Operand_eq_ok (hslots.operand_type haddr)
        simp only [Stacked.Activation.exec, Activation.exec, popI32_bind, i32_bind haddr,
          i32_bind hvalue, hw, hbase]
        exact .same fun _ _ ↦ .pure ⟨_, slots, rfl, rfl, hvs⟩
  | memorySize ts =>
    cases hfits with
    | memorySize _ hdst =>
      simp only [Stacked.Activation.exec, Activation.exec]
      exact .same fun n _ ↦ agree_push hslots hdst hvs _
  | memoryGrow ts =>
    cases hfits with
    | memoryGrow _ hdst hdelta =>
      cases hvs with
      | cons hv hvs =>
        simp only [Stacked.Activation.exec, Activation.exec, popI32_bind, i32_bind hv]
        exact .same fun delta _ ↦ .same fun w _ ↦ agree_push hslots hdst hvs (.i32 w)
  | const v ts =>
    cases hfits with
    | const hdst => exact agree_push hslots hdst hvs v
  | unary op ts =>
    cases hfits with
    | unary hdst _ =>
      cases hvs with
      | cons hv hvs =>
        simp only [Stacked.Activation.exec, Activation.exec, pop_bind, get_bind hv]
        exact .same fun w _ ↦ agree_push hslots hdst hvs w
  | binary op ts =>
    cases hfits with
    | binary hdst _ _ =>
      cases hvs with
      | cons hr hvs =>
        cases hvs with
        | cons hl hvs =>
          simp only [Stacked.Activation.exec, Activation.exec, pop_bind, get_bind hl, get_bind hr]
          exact .same fun w _ ↦ agree_push hslots hdst hvs w

end

end WasmEngine
