import WasmEngine.Machine.Activation
import WasmEngine.Proofs.CodeForm
import WasmEngine.Proofs.Effects
import WasmEngine.Proofs.Sequences

/-!
# Typed slots and regions

The slots of a call hold values of the types that its code was compiled for, and its open regions
are those of the constructs in which the code stands. A slot that a statement names can then be read
and set, and a branch finds the region it leads to.
-/

namespace WasmEngine

structure Slots.Fits (L : Layout) (slots : Slots) : Prop where
  locals : slots.locals.toList.map Value.type = L.locals
  size : ∀ t, (slots.lanes.get t).size = L.slots.get t
  lanes : ∀ t, ∀ v ∈ slots.lanes.get t, v.type = t

/-- Open regions, in the constructs that the labels stand for. A loop can be restarted. -/
inductive RegionsFit (L : Layout) : List Label → List Region → Prop
  | function {body rest : List Stmt} (hrest : ∀ stmt ∈ rest, stmt.Fits L []) :
      RegionsFit L [] [⟨0, body, rest, false⟩]
  | inner {ls : List Label} {rs : List Region} {l : Label} {body rest : List Stmt}
      (hrest : ∀ stmt ∈ rest, stmt.Fits L (l :: ls))
      (hbody : l.isLoop = true → ∀ stmt ∈ body, stmt.Fits L (l :: ls))
      (houter : RegionsFit L ls rs) :
      RegionsFit L (l :: ls) (⟨ls.length + 1, body, rest, l.isLoop⟩ :: rs)

/-- Control does not get to the end of the outermost region unless there is no result to give. -/
def RegionsEnd (L : Layout) (rs : List Region) : Prop :=
  ∀ r, rs.getLast? = some r → L.result = none ∨ ∃ stmt ∈ r.rest, stmt.Diverts

namespace Slots

variable {L : Layout} {slots : Slots} {slot : Slot} {t : ValueType}

theorem Fits.get (h : slots.Fits L) (hslot : L.HasSlot slot t) :
    ∃ v, slots.get slot = .ok v ∧ v.type = t := by
  cases slot with
  | «local» index =>
    change L.locals[index]? = some t at hslot
    rw [← h.locals, List.getElem?_map, Array.getElem?_toList] at hslot
    obtain ⟨v, hv, rfl⟩ := Option.map_eq_some_iff.mp hslot
    exact ⟨v, by simp only [Slots.get, get?, hv], rfl⟩
  | stack lane height =>
    obtain ⟨rfl, hlt⟩ := hslot
    rw [← h.size] at hlt
    have hv : (slots.lanes.get lane)[height]? = some (slots.lanes.get lane)[height] :=
      Array.getElem?_eq_getElem hlt
    exact ⟨_, by simp only [Slots.get, get?, hv], h.lanes _ _ (Array.getElem_mem hlt)⟩

theorem Fits.local_lt (h : slots.Fits L) {index : Nat} (hslot : L.HasSlot (.local index) t) :
    index < slots.locals.size := by
  change L.locals[index]? = some t at hslot
  rw [← h.locals, List.getElem?_map, Array.getElem?_toList] at hslot
  obtain ⟨v, hv, -⟩ := Option.map_eq_some_iff.mp hslot
  exact (Array.getElem?_eq_some_iff.mp hv).1

theorem Fits.stack_lt (h : slots.Fits L) {lane : ValueType} {height : Nat}
    (hslot : L.HasSlot (.stack lane height) t) : height < (slots.lanes.get lane).size := by
  obtain ⟨rfl, hlt⟩ := hslot
  rwa [h.size]

theorem Fits.set (h : slots.Fits L) (hslot : L.HasSlot slot t) {v : Value} (hv : v.type = t) :
    ∃ slots', slots.set slot v = .ok slots' ∧ slots'.Fits L := by
  obtain ⟨locals, lanes⟩ := slots
  cases slot with
  | «local» index =>
    refine ⟨_, if_pos (h.local_lt hslot), { h with locals := ?_ }⟩
    rw [Array.toList_setIfInBounds, List.map_set, h.locals, hv]
    obtain ⟨hindex, rfl⟩ := List.getElem?_eq_some_iff.mp hslot
    exact List.set_getElem_self hindex
  | stack lane height =>
    refine ⟨_, if_pos (h.stack_lt hslot), { h with size := fun u ↦ ?_, lanes := fun u w hw ↦ ?_ }⟩
    · rw [Lanes.get_modify]
      split
      · rw [Array.size_setIfInBounds, h.size]
      · exact h.size u
    · rw [Lanes.get_modify] at hw
      split at hw
      · rename_i hu
        obtain hw | rfl := Array.mem_or_eq_of_mem_setIfInBounds hw
        · exact h.lanes u w hw
        · exact (hv.trans hslot.1.symm).trans hu.symm
      · exact h.lanes u w hw

/-- Whether a slot can be set does not depend on the value. -/
theorem Fits.settable (h : slots.Fits L) (hslot : L.HasSlot slot t) (v : Value) :
    ∃ slots', slots.set slot v = .ok slots' := by
  obtain ⟨locals, lanes⟩ := slots
  cases slot with
  | «local» index => exact ⟨_, if_pos (h.local_lt hslot)⟩
  | stack lane height => exact ⟨_, if_pos (h.stack_lt hslot)⟩

theorem Fits.i32 (h : slots.Fits L) (hslot : L.HasSlot slot .i32) :
    ∃ w, slots.i32 slot = .ok w := by
  obtain ⟨v, hv, htype⟩ := h.get hslot
  cases v with
  | i32 w => exact ⟨w, by simp only [Slots.i32, hv]; rfl⟩
  | _ => cases htype

theorem Fits.gather (h : slots.Fits L) {args : List Slot} {ts : List ValueType}
    (hargs : List.Forall₂ L.HasSlot args ts) :
    ∃ vs, slots.gather args = .ok vs ∧ vs.map Value.type = ts := by
  suffices hall : ∃ vs, List.Forall₂ (fun slot v ↦ slots.get slot = .ok v) args vs ∧
      vs.map Value.type = ts by
    obtain ⟨vs, hvs, htypes⟩ := hall
    exact ⟨vs, except_mapM_eq_ok.mpr hvs, htypes⟩
  induction hargs with
  | nil => exact ⟨[], .nil, rfl⟩
  | cons hslot _ ih =>
    obtain ⟨v, hv, rfl⟩ := h.get hslot
    obtain ⟨vs, hvs, rfl⟩ := ih
    exact ⟨v :: vs, .cons hv hvs, rfl⟩

theorem map_type_initialLocals {ts : List ValueType} {args : List Value}
    (h : args.map Value.type <+: ts) : (initialLocals ts args).map Value.type = ts := by
  induction ts generalizing args with
  | nil => rfl
  | cons t ts ih =>
    cases args with
    | nil =>
      have hrest : (initialLocals ts []).map Value.type = ts := ih List.nil_prefix
      simp [initialLocals, hrest]
    | cons v args =>
      obtain ⟨rfl, htail⟩ := List.cons_prefix_cons.mp h
      simp [initialLocals, ih htail]

theorem fits_new {m : Module} {code : Code} {args : List Value} (hcode : code.Fits m)
    (hargs : args.map Value.type = code.type.params) : (new code args).Fits (code.layout m) where
  locals := map_type_initialLocals (hargs ▸ hcode.params)
  size t := by simp [new, Code.layout]
  lanes t v hv := by
    rw [new, Lanes.get_ofFn] at hv
    rw [(Array.mem_replicate.mp hv).2, Value.type_zero]

end Slots

namespace RegionsFit

variable {L : Layout} {ls : List Label} {rs : List Region}

theorem length_eq (h : RegionsFit L ls rs) : rs.length = ls.length + 1 := by
  induction h with
  | function => rfl
  | inner _ _ _ ih => simp [ih]

theorem ne_nil (h : RegionsFit L ls rs) : rs ≠ [] := by
  rintro rfl
  exact absurd h.length_eq (by simp)

/-- A branch finds the region of the construct that it names. -/
theorem regionsFrom_eq (h : RegionsFit L ls rs) {depth : Nat} {l : Label}
    (hl : ls[depth]? = some l) :
    ∃ r, Activation.regionsFrom (ls.length - depth) rs = some (r, rs.drop (depth + 1)) ∧
      RegionsFit L (ls.drop (depth + 1)) (rs.drop (depth + 1)) ∧
      r.label = (ls.drop (depth + 1)).length + 1 ∧ r.isLoop = l.isLoop ∧
      (l.isLoop = true → ∀ stmt ∈ r.body, stmt.Fits L (l :: ls.drop (depth + 1))) := by
  induction h generalizing depth with
  | function => simp at hl
  | @inner ls rs l' body rest hrest hbody houter ih =>
    cases depth with
    | zero =>
      obtain rfl := Option.some.inj hl
      exact ⟨_, if_pos rfl, houter, rfl, rfl, hbody⟩
    | succ depth =>
      have hl : ls[depth]? = some l := by simpa using hl
      have hlt := (List.getElem?_eq_some_iff.mp hl).1
      obtain ⟨r, hr, hfit⟩ := ih hl
      refine ⟨r, ?_, by simpa using hfit⟩
      rw [Activation.regionsFrom, if_neg (by simp; omega)]
      simpa using hr

end RegionsFit

theorem RegionsEnd.cons {L : Layout} {rs : List Region} (h : RegionsEnd L rs) (hne : rs ≠ [])
    (r : Region) : RegionsEnd L (r :: rs) := by
  intro r' hr'
  rw [List.getLast?_cons_of_ne_nil hne] at hr'
  exact h r' hr'

theorem RegionsEnd.drop {L : Layout} {rs : List Region} (h : RegionsEnd L rs) {n : Nat} :
    RegionsEnd L (rs.drop n) := by
  intro r hr
  refine h r ?_
  rw [List.getLast?_drop] at hr
  split at hr
  · cases hr
  · exact hr

end WasmEngine
