import WasmEngine.Proofs.MemoryAccess

/-!
# Growth of memories and tables

Memories and tables are arrays that can be extended, by pages of zero bytes and by empty slots. What
is proved of both is the same, and holds after any operations on them, failed ones included. To grow
succeeds just if the new size is within the declared maximum and the cap; it then gives the old size
and moves nothing. What fails changes nothing, and nothing makes either of them smaller.

Sizes are natural numbers, so that no sum is ever reduced. Compiled code asks for growth by an
unsigned word, and gets the old size or minus one.
-/

namespace WasmEngine

open Relation

/-! ## Limits and extensions -/

/-- A size is within the declared maximum, if there is one, and the cap. -/
def Limits.Allows (l : Limits) (cap size : Nat) : Prop := size ≤ cap ∧ ∀ max ∈ l.max, size ≤ max

/-- The lower of two bounds is what both allow. -/
theorem le_effectiveLimit_iff {l : Limits} {cap size : Nat} :
    size ≤ effectiveLimit l cap ↔ l.Allows cap size := by
  rw [effectiveLimit, Nat.le_min, and_comm, Limits.Allows]
  refine and_congr_right fun hcap ↦ ?_
  cases l.max with
  | none => simp [hcap]
  | some max => simp

/-- What is made within its limits, and refused beyond them. -/
theorem made_eq_ok_iff {σ : Type} {l : Limits} {cap : Nat} {e : RangeError} {made x : σ} :
    (if l.min > effectiveLimit l cap then .error e else .ok made : Except RangeError σ) = .ok x ↔
      l.Allows cap l.min ∧ x = made := by
  rw [← ite_not, except_ite_eq_ok, Nat.not_lt, le_effectiveLimit_iff]

theorem made_eq_error_iff {σ : Type} {l : Limits} {cap : Nat} {e e' : RangeError} {made : σ} :
    (if l.min > effectiveLimit l cap then .error e else .ok made : Except RangeError σ) =
      .error e' ↔ ¬l.Allows cap l.min ∧ e' = e := by
  rw [← ite_not, except_ite_eq_error, Nat.not_lt, le_effectiveLimit_iff]

section Extended

variable {α : Type} {blank : α} {n : Nat} {old new : Array α}

/-- The second array is the first one with `n` blank places after it. -/
structure Extended (blank : α) (n : Nat) (old new : Array α) : Prop where
  size : new.size = old.size + n
  kept : ∀ k < old.size, new[k]? = old[k]?
  added : ∀ k, old.size ≤ k → k < new.size → new[k]? = some blank

/-- An extension is known from its places. -/
theorem extended_iff : Extended blank n old new ↔ new = old ++ Array.replicate n blank := by
  constructor
  · intro h
    apply Array.ext_getElem?
    intro k
    rw [Array.getElem?_append]
    split
    · rename_i hk
      exact h.kept k hk
    · rename_i hk
      rw [Array.getElem?_replicate]
      split
      · exact h.added k (Nat.le_of_not_lt hk) (by rw [h.size]; omega)
      · exact Array.getElem?_eq_none (by rw [h.size]; omega)
  · rintro rfl
    refine ⟨by simp, fun k hk ↦ Array.getElem?_append_left hk, fun k hk hlt ↦ ?_⟩
    rw [Array.size_append, Array.size_replicate] at hlt
    rw [Array.getElem?_append_right hk, Array.getElem?_replicate, if_pos (by omega)]

end Extended

/-! ## Runs of operations -/

/-- What each operation keeps to, any number of them keep to. -/
theorem foldl_related {σ ω : Type} {perform : σ → ω → σ} {R : σ → σ → Prop} (hrefl : ∀ x, R x x)
    (htrans : ∀ {x y z}, R x y → R y z → R x z) (hstep : ∀ x op, R x (perform x op)) (x : σ)
    (ops : List ω) : R x (ops.foldl perform x) := by
  induction ops generalizing x with
  | nil => exact hrefl x
  | cons op ops ih => exact htrans (hstep x op) (ih (perform x op))

theorem toOption_of_fails {ε α : Type} {x : Except ε α} (h : ∃ e, x = .error e) :
    x.toOption = none := by
  obtain ⟨e, rfl⟩ := h
  rfl

/-! ## Memories -/

namespace Memory

inductive Op where
  | load (access : Access) (addr : Nat)
  | store (access : Access) (addr : Nat) (value : BitVec 32)
  | grow (delta : Nat)

/-- The memory after an operation: the one that it gives, or if it fails the same as before. -/
def perform (m : Memory) : Op → Memory
  | .load _ _ => m
  | .store access addr value => (m.store access addr value).toOption.getD m
  | .grow delta => ((m.grow delta).toOption.map Prod.snd).getD m

def performAll (m : Memory) (ops : List Op) : Memory := ops.foldl perform m

def Op.Fails (m : Memory) : Op → Prop
  | .load access addr => ∃ e, m.load access addr = .error e
  | .store access addr value => ∃ e, m.store access addr value = .error e
  | .grow delta => ∃ e, m.grow delta = .error e

/-- The second memory is the first one with `delta` pages of zeros after it. -/
structure Grown (m : Memory) (delta : Nat) (m' : Memory) : Prop where
  max : m'.max = m.max
  limit : m'.limit = m.limit
  pages : m'.pages = m.pages + delta
  bytes : Extended 0 (delta * 65536) m.bytes m'.bytes

/-- A memory consists of whole pages, and grows just as far as it is allowed to. -/
structure GrowsExactly (l : Limits) (cap : Nat) (m : Memory) : Prop where
  whole : m.bytes.size = m.pages * 65536
  ok : ∀ delta n m', m.grow delta = .ok (n, m') ↔
    l.Allows cap (m.pages + delta) ∧ n = m.pages ∧ m.Grown delta m'
  error : ∀ delta e, m.grow delta = .error e ↔
    ¬l.Allows cap (m.pages + delta) ∧ e = .growOutOfRange m.pages delta (effectiveLimit l cap)

variable {m m' : Memory} {l : Limits} {cap delta : Nat} {op : Op}

/-- A memory is made just if its least size is allowed, and has zeros in it. -/
theorem new_eq_ok_iff :
    new l cap = .ok m ↔ l.Allows cap l.min ∧ m.max = l.max ∧ m.limit = effectiveLimit l cap ∧
      Extended 0 (l.min * 65536) #[] m.bytes := by
  rw [extended_iff, Array.empty_append]
  refine made_eq_ok_iff.trans (and_congr_right fun _ ↦ ?_)
  obtain ⟨bytes, max, limit⟩ := m
  rw [mk.injEq]
  exact and_rotate

theorem new_eq_error_iff {e : RangeError} :
    new l cap = .error e ↔
      ¬l.Allows cap l.min ∧ e = .invalidLimits l.min (effectiveLimit l cap) :=
  made_eq_error_iff

/-- A memory that has grown is known from its bytes and pages. -/
theorem grown_iff (hwhole : m.bytes.size = m.pages * pageSize) :
    m.Grown delta m' ↔
      m' = { m with bytes := m.bytes ++ Array.replicate (delta * pageSize) 0 } := by
  constructor
  · rintro ⟨hmax, hlimit, -, hbytes⟩
    obtain ⟨bytes, max, limit⟩ := m'
    obtain rfl : max = m.max := hmax
    obtain rfl : limit = m.limit := hlimit
    obtain rfl := extended_iff.mp hbytes
    rfl
  · rintro rfl
    refine ⟨rfl, rfl, pages_of_size ?_, extended_iff.mpr rfl⟩
    rw [Array.size_append, Array.size_replicate, hwhole, Nat.add_mul]

/-- A memory of whole pages grows as far as its limit says. -/
theorem growsExactly (hwhole : m.bytes.size = m.pages * pageSize)
    (hlimit : m.limit = effectiveLimit l cap) : m.GrowsExactly l cap where
  whole := hwhole
  ok delta n m' := by
    rw [← le_effectiveLimit_iff, ← hlimit, grow, except_ite_eq_ok, Prod.mk.injEq, grown_iff hwhole]
  error delta e := by
    rw [grow, except_ite_eq_error, hlimit, le_effectiveLimit_iff]

/-- An operation changes nothing, or does one of the changes that a memory undergoes. -/
theorem perform_changes : ReflGen Change m (m.perform op) := by
  cases op with
  | load access addr => exact .refl
  | store access addr value =>
    rw [perform, store]
    split
    · exact .single (.write m addr _)
    · exact .refl
  | grow delta =>
    rw [perform]
    cases h : m.grow delta with
    | error e => exact .refl
    | ok p => exact .single (.grow h)

/-- No operation moves the limit. -/
theorem perform_limit : (m.perform op).limit = m.limit := by
  cases op with
  | load access addr => rfl
  | store access addr value =>
    rw [perform, store]
    split <;> rfl
  | grow delta =>
    -- Said of any bytes, so that the kernel does not look into those that are appended.
    have hlimit (bytes : Array UInt8) : limit { m with bytes } = m.limit := rfl
    rw [perform, grow]
    split
    · exact hlimit _
    · rfl

theorem performAll_changes (m : Memory) (ops : List Op) :
    ReflTransGen Change m (m.performAll ops) :=
  foldl_related (R := ReflTransGen Change) (fun _ ↦ .refl) .trans
    (fun _ _ ↦ perform_changes.to_reflTransGen) m ops

theorem performAll_limit (m : Memory) (ops : List Op) : (m.performAll ops).limit = m.limit :=
  foldl_related (R := fun x y ↦ limit y = limit x) (fun _ ↦ rfl) (fun h h' ↦ h'.trans h)
    (fun _ _ ↦ perform_limit) m ops

/-- What fails changes nothing. -/
theorem perform_of_fails (h : op.Fails m) : m.perform op = m := by
  cases op with
  | load access addr => rfl
  | store access addr value =>
    rw [perform, toOption_of_fails h]
    rfl
  | grow delta =>
    rw [perform, toOption_of_fails h]
    rfl

theorem performAll_fits (h : new l cap = .ok m) (ops : List Op) : (m.performAll ops).Fits cap :=
  (fits_of_changes (m.performAll_changes ops) (fits_of_new h).1).1

/-- Whatever has been done to a memory since it was made, it grows as its limits say. -/
theorem performAll_growsExactly (h : new l cap = .ok m) (ops : List Op) :
    (m.performAll ops).GrowsExactly l cap := by
  obtain ⟨-, -, hlimit, -⟩ := new_eq_ok_iff.mp h
  exact growsExactly (performAll_fits h ops).whole ((m.performAll_limit ops).trans hlimit)

/-- A memory never becomes smaller. -/
theorem pages_performAll_le (h : new l cap = .ok m) (ops ops' : List Op) :
    (m.performAll ops).pages ≤ (m.performAll (ops ++ ops')).pages := by
  have hchanges := (m.performAll ops).performAll_changes ops'
  obtain ⟨-, -, hle⟩ := fits_of_changes hchanges (performAll_fits h ops)
  rwa [performAll, performAll, ← List.foldl_append] at hle

/-- A size that a cap of 32 bits allows can be told from the word that holds it. -/
theorem toNat_pages_performAll (h : new l cap = .ok m) (ops : List Op) (hcap : cap < 2 ^ 32) :
    (BitVec.ofNat 32 (m.performAll ops).pages).toNat = (m.performAll ops).pages := by
  have hfits := performAll_fits h ops
  have hle : (m.performAll ops).pages ≤ cap := hfits.within.trans hfits.capped
  rw [BitVec.toNat_ofNat, Nat.mod_eq_of_lt (hle.trans_lt hcap)]

end Memory

/-! ## Tables -/

namespace Table

inductive Op where
  | get (index : Nat)
  | set (index : Nat) (slot : Option Nat)
  | grow (delta : Nat)

/-- The table after an operation: the one that it gives, or if it fails the same as before. -/
def perform (t : Table) : Op → Table
  | .get _ => t
  | .set index slot => (t.set index slot).toOption.getD t
  | .grow delta => ((t.grow delta).toOption.map Prod.snd).getD t

def performAll (t : Table) (ops : List Op) : Table := ops.foldl perform t

def Op.Fails (t : Table) : Op → Prop
  | .get index => t.get? index = none
  | .set index slot => ∃ e, t.set index slot = .error e
  | .grow delta => ∃ e, t.grow delta = .error e

structure Grown (t : Table) (delta : Nat) (t' : Table) : Prop where
  max : t'.max = t.max
  limit : t'.limit = t.limit
  slots : Extended none delta t.slots t'.slots

structure Replaced (t : Table) (index : Nat) (slot : Option Nat) (t' : Table) : Prop where
  max : t'.max = t.max
  limit : t'.limit = t.limit
  slots : ∀ k, t'.get? k = if k = index then some slot else t.get? k

/-- A table can be written to wherever it has a slot, and grows just as far as it is allowed to. -/
structure GrowsExactly (l : Limits) (cap : Nat) (t : Table) : Prop where
  set_ok : ∀ index slot t', t.set index slot = .ok t' ↔
    index < t.size ∧ t.Replaced index slot t'
  set_error : ∀ index slot e, t.set index slot = .error e ↔
    t.size ≤ index ∧ e = .indexOutOfBounds index t.size
  ok : ∀ delta n t', t.grow delta = .ok (n, t') ↔
    l.Allows cap (t.size + delta) ∧ n = t.size ∧ t.Grown delta t'
  error : ∀ delta e, t.grow delta = .error e ↔
    ¬l.Allows cap (t.size + delta) ∧ e = .growOutOfRange t.size delta (effectiveLimit l cap)

variable {t t' : Table} {l : Limits} {cap delta : Nat} {op : Op}

/-- A table is made just if its least size is allowed, and has nothing in it. -/
theorem new_eq_ok_iff :
    new l cap = .ok t ↔ l.Allows cap l.min ∧ t.max = l.max ∧ t.limit = effectiveLimit l cap ∧
      Extended none l.min #[] t.slots := by
  rw [extended_iff, Array.empty_append]
  refine made_eq_ok_iff.trans (and_congr_right fun _ ↦ ?_)
  obtain ⟨slots, max, limit⟩ := t
  rw [mk.injEq]
  exact and_rotate

theorem new_eq_error_iff {e : RangeError} :
    new l cap = .error e ↔
      ¬l.Allows cap l.min ∧ e = .invalidLimits l.min (effectiveLimit l cap) :=
  made_eq_error_iff

theorem grown_iff :
    t.Grown delta t' ↔ t' = { t with slots := t.slots ++ Array.replicate delta none } := by
  constructor
  · rintro ⟨hmax, hlimit, hslots⟩
    obtain ⟨slots, max, limit⟩ := t'
    obtain rfl : max = t.max := hmax
    obtain rfl : limit = t.limit := hlimit
    obtain rfl := extended_iff.mp hslots
    rfl
  · rintro rfl
    exact ⟨rfl, rfl, extended_iff.mpr rfl⟩

/-- A table with another slot is known from its slots. -/
theorem replaced_iff {index : Nat} {slot : Option Nat} (h : index < t.size) :
    t.Replaced index slot t' ↔ t' = { t with slots := t.slots.setIfInBounds index slot } := by
  have hget (k : Nat) : (t.slots.setIfInBounds index slot)[k]? =
      if k = index then some slot else t.slots[k]? := by
    rw [Array.getElem?_setIfInBounds]
    split
    · rename_i heq
      rw [if_pos (show index < t.slots.size from h), if_pos heq.symm]
    · rename_i hne
      rw [if_neg fun heq ↦ hne heq.symm]
  constructor
  · rintro ⟨hmax, hlimit, hslots⟩
    obtain ⟨slots, max, limit⟩ := t'
    obtain rfl : max = t.max := hmax
    obtain rfl : limit = t.limit := hlimit
    obtain rfl := Array.ext_getElem? fun k ↦ (hslots k).trans (hget k).symm
    rfl
  · rintro rfl
    exact ⟨rfl, rfl, hget⟩

/-- A table grows as far as its limit says. -/
theorem growsExactly (hlimit : t.limit = effectiveLimit l cap) : t.GrowsExactly l cap where
  set_ok index slot t' := by
    rw [set, except_ite_eq_ok]
    exact and_congr_right fun h ↦ (replaced_iff h).symm
  set_error index slot e := by
    rw [set, except_ite_eq_error, Nat.not_lt]
  ok delta n t' := by
    rw [← le_effectiveLimit_iff, ← hlimit, grow, except_ite_eq_ok, Prod.mk.injEq, grown_iff]
  error delta e := by
    rw [grow, except_ite_eq_error, hlimit, le_effectiveLimit_iff]

/-- An operation changes nothing, or does one of the changes that a table undergoes. -/
theorem perform_changes : ReflGen Change t (t.perform op) := by
  cases op with
  | get index => exact .refl
  | set index slot =>
    rw [perform]
    cases h : t.set index slot with
    | error e => exact .refl
    | ok t' => exact .single (.set h)
  | grow delta =>
    rw [perform]
    cases h : t.grow delta with
    | error e => exact .refl
    | ok p => exact .single (.grow h)

theorem perform_limit : (t.perform op).limit = t.limit := by
  cases op with
  | get index => rfl
  | set index slot =>
    rw [perform, set]
    split <;> rfl
  | grow delta =>
    rw [perform, grow]
    split <;> rfl

theorem performAll_changes (t : Table) (ops : List Op) :
    ReflTransGen Change t (t.performAll ops) :=
  foldl_related (R := ReflTransGen Change) (fun _ ↦ .refl) .trans
    (fun _ _ ↦ perform_changes.to_reflTransGen) t ops

theorem performAll_limit (t : Table) (ops : List Op) : (t.performAll ops).limit = t.limit :=
  foldl_related (R := fun x y ↦ limit y = limit x) (fun _ ↦ rfl) (fun h h' ↦ h'.trans h)
    (fun _ _ ↦ perform_limit) t ops

theorem perform_of_fails (h : op.Fails t) : t.perform op = t := by
  cases op with
  | get index => rfl
  | set index slot =>
    rw [perform, toOption_of_fails h]
    rfl
  | grow delta =>
    rw [perform, toOption_of_fails h]
    rfl

/-- Whatever has been done to a table since it was made, it grows as its limits say. -/
theorem performAll_growsExactly (h : new l cap = .ok t) (ops : List Op) :
    (t.performAll ops).GrowsExactly l cap := by
  obtain ⟨-, -, hlimit, -⟩ := new_eq_ok_iff.mp h
  exact growsExactly ((t.performAll_limit ops).trans hlimit)

/-- A table never becomes smaller. -/
theorem size_performAll_le (h : new l cap = .ok t) (ops ops' : List Op) :
    (t.performAll ops).size ≤ (t.performAll (ops ++ ops')).size := by
  obtain ⟨hfits, -⟩ := fits_of_changes (t.performAll_changes ops) (fits_of_new h).1
  obtain ⟨-, -, hle⟩ := fits_of_changes ((t.performAll ops).performAll_changes ops') hfits
  rwa [performAll, performAll, ← List.foldl_append] at hle

end Table

/-! ## Growth in compiled code -/

namespace Store.FirstMemory

variable {s : Store} {inst x delta n : Nat} {m m' : Memory}

/-- Code that grows a memory gets the old size. -/
theorem run_memoryGrow_of_ok (h : s.FirstMemory inst x m) (hgrow : m.grow delta = .ok (n, m')) :
    (Exec.memoryGrow inst delta).run s = .ok (BitVec.ofNat 32 n) (s.setMemory x m') := by
  simp only [Exec.memoryGrow, EStateM.run_bind, h.run_memoryAddress, h.run_memoryAt, hgrow]
  rfl

/-- Code that cannot grow a memory gets minus one, and does not trap. -/
theorem run_memoryGrow_of_error {e : RangeError} (h : s.FirstMemory inst x m)
    (hgrow : m.grow delta = .error e) : (Exec.memoryGrow inst delta).run s = .ok (-1) s := by
  simp [Exec.memoryGrow, h.run_memoryAddress, h.run_memoryAt, hgrow]

end Store.FirstMemory

theorem Activation.run_exec_memoryGrow {s s' : Store} {a : Activation} {dst src : Slot}
    {d w : BitVec 32} (hd : a.slots.i32 src = .ok d)
    (hgrow : (Exec.memoryGrow a.inst d.toNat).run s = .ok w s') :
    (a.exec (.memoryGrow dst src)).run s =
      (do return .next (← a.set dst (.i32 w)) : Exec (Action Activation Suspended)).run s' := by
  simp only [exec, EStateM.run_bind, run_i32 hd, hgrow]

/-! ## Failures in a store -/

namespace Store

/-- An embedder that fails to write to a memory or a table, or to grow it, leaves the store as it
was. -/
structure Atomic (s : Store) : Prop where
  memoryWrite : ∀ r addr bytes, (s.answer (.memoryWrite r addr bytes)).1 ≠ .ok true →
    (s.answer (.memoryWrite r addr bytes)).2 = s
  memoryGrow : ∀ r delta e, (s.answer (.memoryGrow r delta)).1 = .error e →
    (s.answer (.memoryGrow r delta)).2 = s
  tableSet : ∀ r index f e, (s.answer (.tableSet r index f)).1 = .error e →
    (s.answer (.tableSet r index f)).2 = s
  tableGrow : ∀ r delta e, (s.answer (.tableGrow r delta)).1 = .error e →
    (s.answer (.tableGrow r delta)).2 = s

theorem orUnchanged_of_error {α ε : Type} {s : Store} {x : Except ε (α × Store)} {e : ε}
    (h : (s.orUnchanged x).1 = .error e) : (s.orUnchanged x).2 = s := by
  obtain ⟨a, t, -, heq⟩ | ⟨e', heq⟩ := s.orUnchanged_cases x
  · rw [heq] at h
    cases h
  · rw [heq]

theorem atomic (s : Store) : s.Atomic where
  memoryWrite r addr bytes h := by
    change (s.orUnchanged (s.memoryWrite r addr bytes)).1 ≠ .ok true at h
    change (s.orUnchanged (s.memoryWrite r addr bytes)).2 = s
    obtain ⟨b, t, hwrite, heq⟩ | ⟨e, heq⟩ := s.orUnchanged_cases (s.memoryWrite r addr bytes)
    · rw [heq] at h ⊢
      simp only [Store.memoryWrite, except_bind_eq_ok, Prod.exists] at hwrite
      obtain ⟨a, m, -, hwrite⟩ := hwrite
      split at hwrite
      · cases hwrite
        exact absurd rfl h
      · cases hwrite
        rfl
    · rw [heq]
  memoryGrow _ _ _ h := orUnchanged_of_error h
  tableSet _ _ _ _ h := orUnchanged_of_error h
  tableGrow _ _ _ h := orUnchanged_of_error h

end Store

/-! ## Exact growth -/

/-- Memories are made just if their least size is allowed, with zeros in them, and from then on grow
just as far as is allowed, whatever else has been done to them or has failed. What fails changes
nothing, and a size never becomes less. Compiled code that grows a memory gets its old size, or
minus one and no change. -/
structure Memory.ExactGrowth (l : Limits) (cap : Nat) : Prop where
  made : ∀ m, new l cap = .ok m ↔ l.Allows cap l.min ∧ m.max = l.max ∧
    m.limit = effectiveLimit l cap ∧ Extended 0 (l.min * 65536) #[] m.bytes
  refused : ∀ e, new l cap = .error e ↔
    ¬l.Allows cap l.min ∧ e = .invalidLimits l.min (effectiveLimit l cap)
  grows : ∀ {m}, new l cap = .ok m → ∀ ops, (m.performAll ops).GrowsExactly l cap
  failed : ∀ {m}, new l cap = .ok m → ∀ ops (op : Op), op.Fails (m.performAll ops) →
    m.performAll (ops ++ [op]) = m.performAll ops
  grown : ∀ {m}, new l cap = .ok m → ∀ ops ops',
    (m.performAll ops).pages ≤ (m.performAll (ops ++ ops')).pages
  word : ∀ {m}, new l cap = .ok m → ∀ ops, cap < 2 ^ 32 →
    (BitVec.ofNat 32 (m.performAll ops).pages).toNat = (m.performAll ops).pages
  code_ok : ∀ {m}, new l cap = .ok m → ∀ ops (s : Store) (a : Activation) (x : Nat)
    (dst src : Slot) (d : BitVec 32), s.FirstMemory a.inst x (m.performAll ops) →
    a.slots.i32 src = .ok d → l.Allows cap ((m.performAll ops).pages + d.toNat) →
    ∃ m', (m.performAll ops).Grown d.toNat m' ∧
      (a.exec (.memoryGrow dst src)).run s =
        (do return .next (← a.set dst (.i32 (BitVec.ofNat 32 (m.performAll ops).pages))) :
          Exec (Action Activation Suspended)).run (s.setMemory x m')
  code_error : ∀ {m}, new l cap = .ok m → ∀ ops (s : Store) (a : Activation) (x : Nat)
    (dst src : Slot) (d : BitVec 32), s.FirstMemory a.inst x (m.performAll ops) →
    a.slots.i32 src = .ok d → ¬l.Allows cap ((m.performAll ops).pages + d.toNat) →
    (a.exec (.memoryGrow dst src)).run s =
      (do return .next (← a.set dst (.i32 (-1))) : Exec (Action Activation Suspended)).run s

/-- The same of tables, which no instruction grows. -/
structure Table.ExactGrowth (l : Limits) (cap : Nat) : Prop where
  made : ∀ t, new l cap = .ok t ↔ l.Allows cap l.min ∧ t.max = l.max ∧
    t.limit = effectiveLimit l cap ∧ Extended none l.min #[] t.slots
  refused : ∀ e, new l cap = .error e ↔
    ¬l.Allows cap l.min ∧ e = .invalidLimits l.min (effectiveLimit l cap)
  grows : ∀ {t}, new l cap = .ok t → ∀ ops, (t.performAll ops).GrowsExactly l cap
  failed : ∀ {t}, new l cap = .ok t → ∀ ops (op : Op), op.Fails (t.performAll ops) →
    t.performAll (ops ++ [op]) = t.performAll ops
  grown : ∀ {t}, new l cap = .ok t → ∀ ops ops',
    (t.performAll ops).size ≤ (t.performAll (ops ++ ops')).size

theorem Memory.exactGrowth (l : Limits) (cap : Nat) : ExactGrowth l cap where
  made _ := new_eq_ok_iff
  refused _ := new_eq_error_iff
  grows := performAll_growsExactly
  failed _ ops op hfails := by
    rw [performAll, List.foldl_append]
    exact perform_of_fails hfails
  grown := pages_performAll_le
  word := toNat_pages_performAll
  code_ok hm ops s a x dst src d hs hd hallows := by
    have hgrows := performAll_growsExactly hm ops
    cases hgrow : (performAll _ ops).grow d.toNat with
    | error e => exact absurd hallows ((hgrows.error _ _).mp hgrow).1
    | ok p =>
      obtain ⟨-, hn, hgrown⟩ := (hgrows.ok _ _ _).mp hgrow
      refine ⟨p.2, hgrown, ?_⟩
      rw [← hn]
      exact Activation.run_exec_memoryGrow hd (hs.run_memoryGrow_of_ok hgrow)
  code_error hm ops s a x dst src d hs hd hnot := by
    have hgrow := ((performAll_growsExactly hm ops).error d.toNat _).mpr ⟨hnot, rfl⟩
    exact Activation.run_exec_memoryGrow hd (hs.run_memoryGrow_of_error hgrow)

theorem Table.exactGrowth (l : Limits) (cap : Nat) : ExactGrowth l cap where
  made _ := new_eq_ok_iff
  refused _ := new_eq_error_iff
  grows := performAll_growsExactly
  failed _ ops op hfails := by
    rw [performAll, List.foldl_append]
    exact perform_of_fails hfails
  grown := size_performAll_le

/-- Memories and tables grow just as far as their limits and the cap allow, after whatever has been
done to them, and an embedder that fails to change one of them leaves the store as it was. -/
theorem growth_exact (l : Limits) (cap : Nat) :
    Memory.ExactGrowth l cap ∧ Table.ExactGrowth l cap ∧ ∀ s : Store, s.Atomic :=
  ⟨Memory.exactGrowth l cap, Table.exactGrowth l cap, Store.atomic⟩

/-- An empty memory that failed to grow by two pages can still grow by one, but not by minus one,
which is a large delta. A table keeps a slot that was set when it fails to grow and then grows. -/
theorem growth_exact_after_failures :
    (∃ m m', Memory.new ⟨0, some 2⟩ 1 = .ok m ∧ m.performAll [.grow 2, .store .word 0 7] = m ∧
      m.Grown 1 m' ∧ m.grow 1 = .ok (0, m') ∧
      (Activation.exec ⟨0, ⟨#[.i32 (-1), .i32 5], .ofFn fun _ ↦ #[]⟩, [], none⟩
        (.memoryGrow (.local 1) (.local 0))).run
          { id := 0, memories := #[m], instances := #[{ module := default, memories := #[0] }] } =
        .ok (.next ⟨0, ⟨#[.i32 (-1), .i32 (-1)], .ofFn fun _ ↦ #[]⟩, [], none⟩)
          { id := 0, memories := #[m],
            instances := #[{ module := default, memories := #[0] }] }) ∧
    ∃ t, Table.new ⟨1, some 3⟩ 2 = .ok t ∧
      Table.Op.Fails (t.performAll [.set 0 (some 4)]) (.grow 2) ∧
      t.performAll [.set 0 (some 4), .grow 2, .grow 1] = ⟨#[some 4, none], some 3, 2⟩ := by
  have hnew : Memory.new ⟨0, some 2⟩ 1 = .ok ⟨#[], some 2, 1⟩ := rfl
  obtain ⟨hmemory, -, -⟩ := growth_exact ⟨0, some 2⟩ 1
  have hops : Memory.performAll ⟨#[], some 2, 1⟩ [.grow 2, .store .word 0 7] =
      ⟨#[], some 2, 1⟩ := by decide +kernel
  have hgrows := hmemory.grows hnew [.grow 2, .store .word 0 7]
  have hcode := hmemory.code_error hnew [.grow 2, .store .word 0 7]
  rw [hops] at hgrows hcode
  obtain ⟨-, htable, -⟩ := growth_exact ⟨1, some 3⟩ 2
  have hnew' : Table.new ⟨1, some 3⟩ 2 = .ok ⟨#[none], some 3, 2⟩ := rfl
  have hfails := htable.failed hnew' [.set 0 (some 4)]
  have hgrown : Memory.Grown ⟨#[], some 2, 1⟩ 1 _ := (Memory.grown_iff hgrows.whole).mpr rfl
  have hallows : Limits.Allows ⟨0, some 2⟩ 1 (0 + 1) := le_effectiveLimit_iff.mp (by decide)
  have hgrow := (hgrows.ok 1 0 _).mpr ⟨hallows, rfl, hgrown⟩
  refine ⟨⟨_, _, hnew, hops, hgrown, hgrow, ?_⟩, _, hnew', ⟨_, rfl⟩, ?_⟩
  · refine hcode _ _ 0 (.local 1) (.local 0) (-1) ⟨_, rfl, rfl, rfl⟩ rfl ?_
    rw [← le_effectiveLimit_iff]
    decide
  · have hrest : Table.performAll ⟨#[none], some 3, 2⟩ [.set 0 (some 4), .grow 2, .grow 1] =
        (Table.performAll ⟨#[none], some 3, 2⟩ ([.set 0 (some 4)] ++ [.grow 2])).perform
          (.grow 1) := rfl
    rw [hrest, hfails (.grow 2) ⟨_, rfl⟩]
    rfl

end WasmEngine
