import WasmEngine.Proofs.DeclaredLimits

/-!
# Segments

Once an instance is linked, its segments are written, and by then nothing can go wrong any more:
each has a place in the first table or memory of the instance, so no part of it is dropped. What the
table or memory holds afterwards is said here slot by slot. A slot has what the last segment that
reaches it puts there, and what it had before if none does. No other item of the store changes.

How a segment is written says nothing about what is out of bounds. So there is a second way to write
them, which gives up at the first slot that is not there, and the two come to the same.
-/

namespace WasmEngine

variable {α : Type}

/-- A write from an index on has something for slot `k`. -/
def Reaches (w : Nat × List α) (k : Nat) : Prop := w.1 ≤ k ∧ k < w.1 + w.2.length

/-- Writes, each from an index on, were made one after the other. Slots have what the last write
that reaches them puts there. -/
structure Overlaid (ws : List (Nat × List α)) (old new : Array α) : Prop where
  size : new.size = old.size
  last : ∀ {before after : List (Nat × List α)} {w : Nat × List α} {k : Nat} {b : α},
    ws = before ++ w :: after → w.1 ≤ k → w.2[k - w.1]? = some b →
    (∀ w' ∈ after, ¬Reaches w' k) → new[k]? = some b
  other : ∀ {k : Nat}, (∀ w ∈ ws, ¬Reaches w k) → new[k]? = old[k]?

/-- Put functions into slots one by one, as long as each is there. -/
def Table.put? (x : Table) (index : Nat) : List Nat → Option Table
  | [] => some x
  | f :: funcs => do (← (x.set index (some f)).toOption).put? (index + 1) funcs

namespace SegmentPlan

def putElements? (s : Store) (p : Nat × Nat × List Nat) : Option Store := do
  let x ← s.tables[p.1]?
  return s.setTable p.1 (← x.put? p.2.1 p.2.2)

def putData? (s : Store) (p : Nat × Nat × List UInt8) : Option Store := do
  let x ← s.memories[p.1]?
  if x.holds p.2.1 p.2.2.length then return s.setMemory p.1 (x.write p.2.1 p.2.2) else none

/-- Write all segments in order, but give up if anything is missing that one of them goes to. -/
def putAll? (plan : SegmentPlan) (s : Store) : Option Store := do
  plan.data.foldlM putData? (← plan.elements.foldlM putElements? s)

end SegmentPlan

/-! ## Slots -/

section Slots

variable {a : Array α} {index k : Nat} {bs : List α} {b : α} {ws : List (Nat × List α)}

theorem overlay_of_not_reaches (h : ¬Reaches (index, bs) k) : (overlay a index bs)[k]? = a[k]? := by
  induction bs generalizing a index with
  | nil => rfl
  | cons c bs ih =>
    simp only [Reaches, List.length_cons] at h ih
    rw [overlay, ih (by omega), Array.getElem?_setIfInBounds_ne (by omega)]

theorem overlay_of_reaches (hroom : index + bs.length ≤ a.size) (hk : index ≤ k)
    (hb : bs[k - index]? = some b) : (overlay a index bs)[k]? = some b := by
  induction bs generalizing a index with
  | nil => simp at hb
  | cons c bs ih =>
    rw [List.length_cons] at hroom
    rw [overlay]
    obtain rfl | hlt := Nat.eq_or_lt_of_le hk
    · have hout : ¬Reaches (index + 1, bs) index := fun h ↦ Nat.not_succ_le_self _ h.1
      rw [overlay_of_not_reaches hout, Array.getElem?_setIfInBounds_self_of_lt (by omega)]
      simpa using hb
    · have hshift : k - index = (k - (index + 1)) + 1 := by omega
      rw [hshift, List.getElem?_cons_succ] at hb
      exact ih (by rw [Array.size_setIfInBounds]; omega) hlt hb

theorem foldl_overlay_of_not_reaches (h : ∀ w ∈ ws, ¬Reaches w k) :
    (ws.foldl (fun a w ↦ overlay a w.1 w.2) a)[k]? = a[k]? := by
  induction ws generalizing a with
  | nil => rfl
  | cons w ws ih =>
    obtain ⟨hw, hws⟩ := List.forall_mem_cons.mp h
    rw [List.foldl_cons, ih hws, overlay_of_not_reaches hw]

theorem size_foldl_overlay (a : Array α) (ws : List (Nat × List α)) :
    (ws.foldl (fun a w ↦ overlay a w.1 w.2) a).size = a.size := by
  induction ws generalizing a with
  | nil => rfl
  | cons w ws ih => rw [List.foldl_cons, ih, size_overlay]

/-- Overlays, one after the other, of writes that have room. -/
theorem overlaid_foldl (hroom : ∀ w ∈ ws, w.1 + w.2.length ≤ a.size) :
    Overlaid ws a (ws.foldl (fun a w ↦ overlay a w.1 w.2) a) where
  size := size_foldl_overlay a ws
  last := by
    rintro before after w k b rfl hk hb hafter
    rw [List.foldl_append, List.foldl_cons, foldl_overlay_of_not_reaches hafter]
    refine overlay_of_reaches ?_ hk hb
    rw [size_foldl_overlay]
    exact hroom w (by simp)
  other h := foldl_overlay_of_not_reaches h

end Slots

/-! ## Items -/

section Items

variable {β : Type} {f : β → α → α} {ps : List (Nat × β)} {xs : Array α} {addr : Nat}

theorem getElem?_foldl_modify (h : ∀ p ∈ ps, p.1 = addr) :
    (ps.foldl (fun xs p ↦ xs.modify p.1 (f p.2)) xs)[addr]? =
      xs[addr]?.map fun x ↦ ps.foldl (fun x p ↦ f p.2 x) x := by
  induction ps generalizing xs with
  | nil => simp
  | cons p ps ih =>
    obtain ⟨rfl, hps⟩ := List.forall_mem_cons.mp h
    rw [List.foldl_cons, ih hps, Array.getElem?_modify, if_pos rfl, Option.map_map]
    rfl

theorem getElem?_foldl_modify_of_ne (h : ∀ p ∈ ps, p.1 ≠ addr) :
    (ps.foldl (fun xs p ↦ xs.modify p.1 (f p.2)) xs)[addr]? = xs[addr]? := by
  induction ps generalizing xs with
  | nil => rfl
  | cons p ps ih =>
    obtain ⟨hp, hps⟩ := List.forall_mem_cons.mp h
    rw [List.foldl_cons, ih hps, Array.getElem?_modify, if_neg hp]

end Items

namespace SegmentPlan

theorem foldl_writeData_tables (ps : List (Nat × Nat × List UInt8)) (s : Store) :
    (ps.foldl writeData s).tables = s.tables := by
  induction ps generalizing s with
  | nil => rfl
  | cons p ps ih => exact ih (writeData s p)

theorem apply_tables (plan : SegmentPlan) (s : Store) :
    (plan.apply s).tables =
      plan.elements.foldl (fun xs p ↦ xs.modify p.1 (·.write p.2.1 p.2.2)) s.tables := by
  rw [apply, foldl_writeData_tables]
  refine (List.foldl_hom Store.tables fun u p ↦ ?_).symm
  rfl

theorem foldl_writeElements_memories (ps : List (Nat × Nat × List Nat)) (s : Store) :
    (ps.foldl writeElements s).memories = s.memories := by
  induction ps generalizing s with
  | nil => rfl
  | cons p ps ih => exact ih (writeElements s p)

theorem apply_memories (plan : SegmentPlan) (s : Store) :
    (plan.apply s).memories =
      plan.data.foldl (fun xs p ↦ xs.modify p.1 (·.write p.2.1 p.2.2)) s.memories := by
  rw [apply, ← foldl_writeElements_memories plan.elements s]
  refine (List.foldl_hom Store.memories fun u p ↦ ?_).symm
  rfl

/-! ## Nothing is dropped -/

def ElementsFit (s : Store) (p : Nat × Nat × List Nat) : Prop :=
  ∃ x, s.tables[p.1]? = some x ∧ p.2.1 + p.2.2.length ≤ x.size

def DataFit (s : Store) (p : Nat × Nat × List UInt8) : Prop :=
  ∃ x, s.memories[p.1]? = some x ∧ p.2.1 + p.2.2.length ≤ x.bytes.size

theorem put?_eq_write {x : Table} {index : Nat} {funcs : List Nat}
    (h : index + funcs.length ≤ x.size) : x.put? index funcs = some (x.write index funcs) := by
  induction funcs generalizing x index with
  | nil => rfl
  | cons f funcs ih =>
    rw [List.length_cons] at h
    have hset : x.set index (some f) =
        .ok { x with slots := x.slots.setIfInBounds index (some f) } := if_pos (by omega)
    rw [Table.put?, hset]
    refine ih ?_
    rw [Table.size, Array.size_setIfInBounds, ← Table.size]
    omega

theorem putElements?_eq {s : Store} {p : Nat × Nat × List Nat} (h : ElementsFit s p) :
    putElements? s p = some (writeElements s p) := by
  obtain ⟨x, hx, hroom⟩ := h
  simp only [putElements?, hx, Option.bind_eq_bind, Option.bind_some, put?_eq_write hroom,
    Store.setTable, setIfInBounds_eq_modify (g := (·.write p.2.1 p.2.2)) hx]
  rfl

theorem putData?_eq {s : Store} {p : Nat × Nat × List UInt8} (h : DataFit s p) :
    putData? s p = some (writeData s p) := by
  obtain ⟨x, hx, hroom⟩ := h
  have hholds : x.holds p.2.1 p.2.2.length = true := decide_eq_true hroom
  simp only [putData?, hx, Option.bind_eq_bind, Option.bind_some, hholds, if_true,
    Store.setMemory, setIfInBounds_eq_modify (g := (·.write p.2.1 p.2.2)) hx]
  rfl

theorem ElementsFit.write {s : Store} {q : Nat × Nat × List Nat} (h : ElementsFit s q)
    (p : Nat × Nat × List Nat) : ElementsFit (writeElements s p) q := by
  obtain ⟨x, hx, hroom⟩ := h
  simp only [ElementsFit, writeElements, Array.getElem?_modify, hx, Option.map_some]
  split
  · exact ⟨_, rfl, by rwa [Table.write, Table.size, size_overlay]⟩
  · exact ⟨x, rfl, hroom⟩

theorem DataFit.write {s : Store} {q : Nat × Nat × List UInt8} (h : DataFit s q)
    (p : Nat × Nat × List UInt8) : DataFit (writeData s p) q := by
  obtain ⟨x, hx, hroom⟩ := h
  simp only [DataFit, writeData, Array.getElem?_modify, hx, Option.map_some]
  split
  · exact ⟨_, rfl, by rwa [Memory.write, size_overlay]⟩
  · exact ⟨x, rfl, hroom⟩

/-- Updates that are possible at first stay possible, so a check before each of them never fails. -/
theorem foldlM_eq_some {σ : Type} {write : σ → α → σ} {put? : σ → α → Option σ}
    {Fits : σ → α → Prop} (hput : ∀ {s p}, Fits s p → put? s p = some (write s p))
    (hwrite : ∀ {s q}, Fits s q → ∀ p, Fits (write s p) q) {ps : List α} {s : σ}
    (h : ∀ p ∈ ps, Fits s p) : ps.foldlM put? s = some (ps.foldl write s) := by
  induction ps generalizing s with
  | nil => rfl
  | cons p ps ih =>
    obtain ⟨hp, hps⟩ := List.forall_mem_cons.mp h
    rw [List.foldlM_cons, hput hp, List.foldl_cons]
    exact ih fun q hq ↦ hwrite (hps q hq) p

theorem putAll?_eq {plan : SegmentPlan} {s : Store}
    (helements : ∀ p ∈ plan.elements, ElementsFit s p) (hdata : ∀ p ∈ plan.data, DataFit s p) :
    plan.putAll? s = some (plan.apply s) := by
  have hdata' : ∀ p ∈ plan.data, DataFit (plan.elements.foldl writeElements s) p := by
    intro p hp
    obtain ⟨x, hx, hroom⟩ := hdata p hp
    exact ⟨x, by rwa [foldl_writeElements_memories], hroom⟩
  rw [putAll?, foldlM_eq_some putElements?_eq ElementsFit.write helements]
  exact foldlM_eq_some putData?_eq DataFit.write hdata'

end SegmentPlan

theorem Table.foldl_write (x : Table) (ps : List (Nat × Nat × List Nat)) :
    ps.foldl (fun x p ↦ x.write p.2.1 p.2.2) x = { x with
      slots := (ps.map fun p ↦ (p.2.1, p.2.2.map some)).foldl (fun a w ↦ overlay a w.1 w.2)
        x.slots } := by
  induction ps generalizing x with
  | nil => rfl
  | cons p ps ih => exact ih (x.write p.2.1 p.2.2)

theorem Memory.foldl_write (x : Memory) (ps : List (Nat × Nat × List UInt8)) :
    ps.foldl (fun x p ↦ x.write p.2.1 p.2.2) x = { x with
      bytes := (ps.map Prod.snd).foldl (fun a w ↦ overlay a w.1 w.2) x.bytes } := by
  induction ps generalizing x with
  | nil => rfl
  | cons p ps ih => exact ih (x.write p.2.1 p.2.2)

/-! ## Linked instances -/

namespace Link

/-- The segments of an instance were written, and nothing else happened. -/
structure Initialized (t : Store) (i : Instance) (plan : SegmentPlan) (t' : Store) : Prop where
  table : ∀ {addr : Nat}, i.tables[0]? = some addr → ∃ x slots, t.tables[addr]? = some x ∧
    t'.tables[addr]? = some { x with slots } ∧
    Overlaid (plan.elements.map fun p ↦ (p.2.1, p.2.2.map some)) x.slots slots
  memory : ∀ {addr : Nat}, i.memories[0]? = some addr → ∃ x bytes, t.memories[addr]? = some x ∧
    t'.memories[addr]? = some { x with bytes } ∧
    Overlaid (plan.data.map Prod.snd) x.bytes bytes
  otherTables : ∀ {addr : Nat}, i.tables[0]? ≠ some addr → t'.tables[addr]? = t.tables[addr]?
  otherMemories : ∀ {addr : Nat}, i.memories[0]? ≠ some addr →
    t'.memories[addr]? = t.memories[addr]?
  rest : ∃ tables memories, t' = { t with tables, memories }

variable {t : Store} {i : Instance} {plan : SegmentPlan} {addr : Nat}

theorem Covers.elementsFit (h : Covers t i plan) :
    ∀ p ∈ plan.elements, i.tables[0]? = some p.1 ∧ SegmentPlan.ElementsFit t p := by
  intro p hp
  obtain ⟨seg, -, -, htable, hroom, -⟩ := forall₂_exists_left h.elements hp
  exact ⟨htable, hroom⟩

theorem Covers.dataFit (h : Covers t i plan) :
    ∀ p ∈ plan.data, i.memories[0]? = some p.1 ∧ SegmentPlan.DataFit t p := by
  intro p hp
  obtain ⟨seg, -, -, hmemory, hroom, -⟩ := forall₂_exists_left h.data hp
  exact ⟨hmemory, hroom⟩

theorem Covers.putAll?_eq (h : Covers t i plan) : plan.putAll? t = some (plan.apply t) :=
  SegmentPlan.putAll?_eq (fun p hp ↦ (h.elementsFit p hp).2) fun p hp ↦ (h.dataFit p hp).2

theorem Covers.table (h : Covers t i plan) {x : Table} (haddr : i.tables[0]? = some addr)
    (hx : t.tables[addr]? = some x) :
    ∃ slots, (plan.apply t).tables[addr]? = some { x with slots } ∧
      Overlaid (plan.elements.map fun p ↦ (p.2.1, p.2.2.map some)) x.slots slots := by
  have htarget : ∀ p ∈ plan.elements, p.1 = addr := fun p hp ↦
    Option.some.inj ((h.elementsFit p hp).1.symm.trans haddr)
  refine ⟨_, ?_, overlaid_foldl ?_⟩
  · rw [SegmentPlan.apply_tables,
      getElem?_foldl_modify (f := fun q (x : Table) ↦ x.write q.1 q.2) htarget, hx, Option.map_some,
      Table.foldl_write]
  · intro w hw
    obtain ⟨p, hp, rfl⟩ := List.mem_map.mp hw
    obtain ⟨-, x', hx', hroom⟩ := h.elementsFit p hp
    rw [htarget p hp, hx] at hx'
    obtain rfl := Option.some.inj hx'
    rwa [List.length_map]

theorem Covers.memory (h : Covers t i plan) {x : Memory} (haddr : i.memories[0]? = some addr)
    (hx : t.memories[addr]? = some x) :
    ∃ bytes, (plan.apply t).memories[addr]? = some { x with bytes } ∧
      Overlaid (plan.data.map Prod.snd) x.bytes bytes := by
  have htarget : ∀ p ∈ plan.data, p.1 = addr := fun p hp ↦
    Option.some.inj ((h.dataFit p hp).1.symm.trans haddr)
  refine ⟨_, ?_, overlaid_foldl ?_⟩
  · rw [SegmentPlan.apply_memories,
      getElem?_foldl_modify (f := fun q (x : Memory) ↦ x.write q.1 q.2) htarget, hx,
      Option.map_some, Memory.foldl_write]
  · intro w hw
    obtain ⟨p, hp, rfl⟩ := List.mem_map.mp hw
    obtain ⟨-, x', hx', hroom⟩ := h.dataFit p hp
    rw [htarget p hp, hx] at hx'
    obtain rfl := Option.some.inj hx'
    exact hroom

/-- Writing the segments of a linked instance. -/
theorem Covers.initialized {inst : Nat} (h : Covers t i plan) (hi : i.Linked t inst) :
    Initialized t i plan (plan.apply t) where
  table haddr := by
    obtain ⟨_, -, hlt⟩ := forall₂_getElem?_right hi.spaces.tables (by simpa using haddr)
    have hx := Array.getElem?_eq_getElem hlt
    obtain ⟨slots, happly, hoverlaid⟩ := h.table haddr hx
    exact ⟨_, slots, hx, happly, hoverlaid⟩
  memory haddr := by
    obtain ⟨_, -, hlt⟩ := forall₂_getElem?_right hi.spaces.memories (by simpa using haddr)
    have hx := Array.getElem?_eq_getElem hlt
    obtain ⟨bytes, happly, hoverlaid⟩ := h.memory haddr hx
    exact ⟨_, bytes, hx, happly, hoverlaid⟩
  otherTables haddr := by
    rw [SegmentPlan.apply_tables]
    refine getElem?_foldl_modify_of_ne
      (f := fun (q : Nat × List Nat) (x : Table) ↦ x.write q.1 q.2) fun p hp heq ↦ ?_
    exact haddr (heq ▸ (h.elementsFit p hp).1)
  otherMemories haddr := by
    rw [SegmentPlan.apply_memories]
    refine getElem?_foldl_modify_of_ne
      (f := fun (q : Nat × List UInt8) (x : Memory) ↦ x.write q.1 q.2) fun p hp heq ↦ ?_
    exact haddr (heq ▸ (h.dataFit p hp).1)
  rest := plan.apply_eq t

theorem Covers.within_caps (h : Covers t i plan) (ht : t.Limited) :
    (∀ p ∈ plan.elements, p.2.1 + p.2.2.length ≤ t.config.maxTableElements) ∧
      ∀ p ∈ plan.data, p.2.1 + p.2.2.length ≤ t.config.maxMemoryPages * pageSize := by
  refine ⟨fun p hp ↦ ?_, fun p hp ↦ ?_⟩
  · obtain ⟨-, x, hx, hroom⟩ := h.elementsFit p hp
    have hfits := ht.tables hx
    exact Nat.le_trans hroom (Nat.le_trans hfits.within hfits.capped)
  · obtain ⟨-, x, hx, hroom⟩ := h.dataFit p hp
    have hfits := ht.memories hx
    rw [hfits.whole] at hroom
    exact Nat.le_trans hroom
      (Nat.mul_le_mul_right _ (Nat.le_trans hfits.within hfits.capped))

end Link

theorem World.Reachable.limited {w : World} (hw : w.Reachable) : w.store.Limited := by
  obtain ⟨id, config, hevolves⟩ := hw.evolves
  exact (hevolves.measured ⟨nofun, nofun⟩ nofun).1

/-- Whenever a module is linked, all of its segments are then written in full. The first table and
the first memory of the instance are overlaid with them in order, and nothing else changes. Where
the caps of the store are 32-bit numbers, no place that is written to has a higher number. -/
theorem World.Reachable.segments_written {w : World} (hw : w.Reachable) {m : Module}
    (hm : m.Decoded) {imports : Imports} {inst : Nat} {plan : SegmentPlan} {t : Store}
    (h : (Link.link m imports).run w.store = .ok (inst, plan) t) :
    ∃ i, t.instances[inst]? = some i ∧ i.module = m ∧ Link.Covers t i plan ∧
      (∃ start, (Link.prepare m imports).run w.store =
        .ok (w.store.ref inst, start) (plan.apply t)) ∧
      plan.putAll? t = some (plan.apply t) ∧
      Link.Initialized t i plan (plan.apply t) ∧
      (w.store.config.maxTableElements < UInt32.size →
        ∀ p ∈ plan.elements, p.2.1 + p.2.2.length < UInt32.size) ∧
      (w.store.config.maxMemoryPages < UInt32.size →
        ∀ p ∈ plan.data, p.2.1 + p.2.2.length < UInt64.size) := by
  have hwf := hw.sound.wellFormed
  have hlinked : Link.Linked w.store m (inst, plan) t := (Link.link_ensures hwf hm).of_ok h
  obtain ⟨i, hi, hmodule, hcovers⟩ := hlinked.inst
  obtain ⟨j, hprovides⟩ := Link.link_provides hwf hm h
  have hlimited := hw.limited.extend hprovides.items.grows.extends hprovides.items.makes
  obtain ⟨helements, hdata⟩ := hcovers.within_caps hlimited
  rw [hlinked.grows.config] at helements hdata
  refine ⟨i, hi, hmodule, hcovers, ?_, hcovers.putAll?_eq,
    hcovers.initialized (hlinked.wellFormed.instances hi), ?_, ?_⟩
  · obtain ⟨e, t', herror, -⟩ | ⟨r, t', i', hprepared⟩ := Link.prepare_cases hwf hm imports
    · rw [h] at herror
      cases herror
    · have heq := h.symm.trans hprepared.linked
      cases heq
      exact ⟨_, hprepared.run⟩
  · exact fun hcap p hp ↦ Nat.lt_of_le_of_lt (helements p hp) hcap
  · intro hcap p hp
    have hbytes := hdata p hp
    simp only [pageSize, UInt32.size, UInt64.size] at *
    omega

/-- A binary with a table of four slots, in which the second segment lies over the first and the
third, which is empty, lies at the very end. Three segments lie in the same way in a memory of one
page. -/
def segmentsBinary : List UInt8 :=
  [0, 0x61, 0x73, 0x6d, 1, 0, 0, 0,
   1, 4, 1, 0x60, 0, 0,
   3, 3, 2, 0, 0,
   4, 4, 1, 0x70, 0, 4,
   5, 3, 1, 0, 1,
   9, 19, 3, 0, 0x41, 0, 0x0b, 2, 0, 1, 0, 0x41, 1, 0x0b, 1, 0, 0, 0x41, 4, 0x0b, 0,
   10, 7, 2, 2, 0, 0x0b, 2, 0, 0x0b,
   11, 22, 3, 0, 0x41, 0, 0x0b, 3, 1, 2, 3, 0, 0x41, 1, 0x0b, 1, 9,
   0, 0x41, 0x80, 0x80, 4, 0x0b, 0]

/-- The second segment wins in the second place, and the places around it keep what the first puts
there. -/
theorem overlapping_segments_written :
    ∃ m plan t x y, Module.decode {} segmentsBinary = .ok m ∧
      (Link.link m {}).run { id := 0 } = .ok (0, plan) t ∧
      plan.elements = [(0, 0, [0, 1]), (0, 1, [0]), (0, 4, [])] ∧
      plan.data = [(0, 0, [1, 2, 3]), (0, 1, [9]), (0, 65536, [])] ∧
      plan.putAll? t = some (plan.apply t) ∧
      (plan.apply t).tables[0]? = some x ∧ x.slots[0]? = some (some 0) ∧
      x.slots[1]? = some (some 0) ∧
      (plan.apply t).memories[0]? = some y ∧ y.bytes[0]? = some 1 ∧ y.bytes[1]? = some 9 ∧
      y.bytes[2]? = some 3 := by
  have hlink : ((Module.decode {} segmentsBinary).toOption.bind fun m ↦
      (Link.link m {}).run' { id := 0 }) =
      some (0, ⟨[(0, 0, [0, 1]), (0, 1, [0]), (0, 4, [])],
        [(0, 0, [1, 2, 3]), (0, 1, [9]), (0, 65536, [])]⟩) := by
    decide +kernel
  obtain ⟨m, hdecode, hrun⟩ := Option.bind_eq_some_iff.mp hlink
  have hdecode := except_toOption_eq_some hdecode
  obtain ⟨t, ht⟩ := exists_run_of_run' hrun
  obtain ⟨i, hi, -, hcovers, -, happly, hinit, -⟩ :=
    (World.reachable_new 0 {}).segments_written ⟨{}, segmentsBinary, hdecode⟩ ht
  have htable : i.tables[0]? = some 0 := (hcovers.elementsFit (0, 0, [0, 1]) (by simp)).1
  have hmemory : i.memories[0]? = some 0 := (hcovers.dataFit (0, 0, [1, 2, 3]) (by simp)).1
  obtain ⟨x, slots, -, hx, hslots⟩ := hinit.table htable
  obtain ⟨y, bytes, -, hy, hbytes⟩ := hinit.memory hmemory
  have hdata : _ = [] ++ (0, ([1, 2, 3] : List UInt8)) :: [(1, [9]), (65536, [])] := rfl
  refine ⟨m, _, t, _, _, hdecode, ht, rfl, rfl, happly, hx, ?_, ?_, hy, ?_, ?_, ?_⟩
  · have hfirst : _ = [] ++ (0, [some 0, some 1]) :: [(1, [some 0]), (4, [])] := rfl
    exact hslots.last hfirst (Nat.le_refl 0) rfl (by simp [Reaches])
  · have hsecond : _ = [(0, [some 0, some 1])] ++ (1, [some 0]) :: [(4, [])] := rfl
    exact hslots.last hsecond (Nat.le_refl 1) rfl (by simp [Reaches])
  · exact hbytes.last hdata (Nat.le_refl 0) rfl (by simp [Reaches])
  · have hsecond : _ = [(0, ([1, 2, 3] : List UInt8))] ++ (1, [9]) :: [(65536, [])] := rfl
    exact hbytes.last hsecond (Nat.le_refl 1) rfl (by simp [Reaches])
  · exact hbytes.last hdata (Nat.zero_le 2) rfl (by simp [Reaches])

end WasmEngine
