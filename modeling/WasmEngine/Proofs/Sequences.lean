import Mathlib.Data.List.Forall2

/-!
# Lists and arrays

Two lists that are related item by item, seen through the items at one index, a list of keys with
values, and an array that others have been added to.
-/

namespace WasmEngine

variable {α β : Type} {R : α → β → Prop} {l : List α} {l' : List β} {i : Nat}

theorem forall₂_getElem?_left {a : α} (h : List.Forall₂ R l l') (ha : l[i]? = some a) :
    ∃ b, l'[i]? = some b ∧ R a b := by
  induction h generalizing i with
  | nil => simp at ha
  | @cons x y l l' hxy h ih =>
    cases i with
    | zero =>
      obtain rfl := Option.some.inj ha
      exact ⟨y, rfl, hxy⟩
    | succ i => exact ih (by simpa using ha)

theorem forall₂_getElem?_right {b : β} (h : List.Forall₂ R l l') (hb : l'[i]? = some b) :
    ∃ a, l[i]? = some a ∧ R a b := by
  obtain ⟨a, ha, hab⟩ := forall₂_getElem?_left h.flip hb
  exact ⟨a, ha, hab⟩

theorem forall₂_getD {a : α} {b : β} (h : List.Forall₂ R l l') (hab : R a b) (i : Nat) :
    R (l[i]?.getD a) (l'[i]?.getD b) := by
  induction h generalizing i with
  | nil => exact hab
  | cons h _ ih =>
    cases i with
    | zero => exact h
    | succ i => exact ih i

theorem forall₂_exists_left {b : β} (h : List.Forall₂ R l l') (hb : b ∈ l') :
    ∃ a ∈ l, R a b := by
  obtain ⟨i, hi⟩ := List.mem_iff_getElem?.mp hb
  obtain ⟨a, ha, hab⟩ := forall₂_getElem?_right h hi
  exact ⟨a, List.mem_of_getElem? ha, hab⟩

theorem forall₂_exists_right {a : α} (h : List.Forall₂ R l l') (ha : a ∈ l) : ∃ b ∈ l', R a b :=
  forall₂_exists_left h.flip ha

/-- What a list has for a key can be looked up if no key comes twice. -/
theorem lookup_of_mem [BEq α] [LawfulBEq α] {l : List (α × β)} {a : α} {b : β}
    (hl : (l.map Prod.fst).Nodup) (h : (a, b) ∈ l) : l.lookup a = some b := by
  obtain ⟨l₁, l₂, rfl⟩ := List.append_of_mem h
  refine List.lookup_eq_some_iff.mpr ⟨l₁, l₂, rfl, fun p hp ↦ ?_⟩
  rw [List.map_append, List.map_cons] at hl
  have hne : p.1 ≠ a := fun heq ↦
    (List.nodup_append.mp hl).2.2 p.1 (List.mem_map_of_mem hp) a List.mem_cons_self heq
  simpa using hne.symm

variable {a b : Array α} {x : α}

theorem getElem?_of_prefix (h : a.toList <+: b.toList) (hx : a[i]? = some x) : b[i]? = some x := by
  rw [← Array.getElem?_toList] at hx ⊢
  obtain ⟨hi, rfl⟩ := List.getElem?_eq_some_iff.mp hx
  exact List.prefix_iff_getElem?.mp h i hi

theorem take_size_of_prefix (h : a.toList <+: b.toList) : b.take a.size = a := by
  apply Array.toList_inj.mp
  rw [Array.take_eq_extract, Array.toList_extract, List.extract_eq_take_drop, List.drop_zero,
    Nat.sub_zero]
  exact (List.prefix_iff_eq_take.mp h).symm

theorem size_le_of_prefix (h : a.toList <+: b.toList) : a.size ≤ b.size := h.length_le

theorem size_le_of_forall {a : Array α} {b : Array β}
    (h : ∀ (i : Nat) (x : α), a[i]? = some x → ∃ y, b[i]? = some y) : a.size ≤ b.size := by
  refine Nat.le_of_not_lt fun hlt ↦ ?_
  obtain ⟨y, hy⟩ := h b.size a[b.size] (Array.getElem?_eq_getElem hlt)
  exact absurd hy (by simp)

theorem forall₂_push {b : Array β} {y : β} (h : List.Forall₂ R l b.toList) (hxy : R x y) :
    List.Forall₂ R (l ++ [x]) (b.push y).toList := by
  rw [Array.toList_push]
  exact List.rel_append h (.cons hxy .nil)

theorem prefix_push (a : Array α) (x : α) : a.toList <+: (a.push x).toList :=
  ⟨[x], Array.toList_push.symm⟩

end WasmEngine
