import WasmEngine.Type.Encoding
import WasmEngine.Proofs.Effects

/-!
# What readers give

A reader that succeeds has gone forward in its input and gives something it has checked.
`Reader.Yields` says both at once, and is built up along a reader as the reader is put together.
-/

namespace WasmEngine

namespace Cursor

def Before (c c' : Cursor) : Prop := ∃ n ≤ c.remaining, c' = c.advance n

theorem Before.refl (c : Cursor) : c.Before c := ⟨0, Nat.zero_le _, by simp [advance]⟩

/-- To advance twice is to advance by the sum. -/
theorem advance_advance (c : Cursor) (m n : Nat) : (c.advance m).advance n = c.advance (m + n) := by
  simp only [advance, List.drop_drop, Nat.add_assoc]

/-- A reader that comes later starts where the one before it stopped. -/
theorem Before.trans {c c' c'' : Cursor} (h : c.Before c') (h' : c'.Before c'') :
    c.Before c'' := by
  obtain ⟨m, hm, rfl⟩ := h
  obtain ⟨n, hn, rfl⟩ := h'
  have hlength : (c.advance m).remaining = c.remaining - m := List.length_drop
  exact ⟨m + n, by omega, advance_advance c m n⟩

end Cursor

namespace Reader

variable {α β : Type}

/-- Asking for the offset gives it and moves nothing. -/
theorem run_offset_eq_ok {c c' : Cursor} {n : Nat} :
    offset.run c = .ok n c' ↔ c.offset = n ∧ c = c' := by
  simp only [offset, run_bind_eq_ok, run_get_eq_ok, run_pure_eq_ok]
  constructor
  · rintro ⟨_, _, ⟨rfl, rfl⟩, rfl, rfl⟩
    exact ⟨rfl, rfl⟩
  · rintro ⟨rfl, rfl⟩
    exact ⟨c, c, ⟨rfl, rfl⟩, rfl, rfl⟩

/-- Reading a part of the input leaves the cursor behind that part, wherever the inner reader
stopped. -/
theorem run_within_eq_ok {inner c c' : Cursor} {r : Reader α} {a : α} :
    (within inner r).run c = .ok a c' ↔ c = c' ∧ ∃ c₁, r.run inner = .ok a c₁ := by
  unfold within EStateM.run
  cases h : r inner <;> simp [and_comm]

/-- A success of the reader leaves it further on in its input, with a result that satisfies
`P`. -/
def Yields (r : Reader α) (P : α → Prop) : Prop :=
  ∀ c a c', r.run c = .ok a c' → c.Before c' ∧ P a

namespace Yields

variable {P : α → Prop} {Q : β → Prop}

theorem pure {a : α} (h : P a) : Yields (pure a) P := by
  intro c b c' hrun
  obtain ⟨rfl, rfl⟩ := run_pure_eq_ok.mp hrun
  exact ⟨.refl c, h⟩

/-- What the first reader yields is known to the second, and the cursor only moves forwards. -/
theorem bind {r : Reader α} {f : α → Reader β} (hr : Yields r P)
    (hf : ∀ a, P a → Yields (f a) Q) : Yields (r >>= f) Q := by
  intro c b c'' hrun
  obtain ⟨a, c', hfirst, hrest⟩ := run_bind_eq_ok.mp hrun
  obtain ⟨hbefore, ha⟩ := hr c a c' hfirst
  obtain ⟨hbefore', hb⟩ := hf a ha c' b c'' hrest
  exact ⟨hbefore.trans hbefore', hb⟩

/-- A reader that fails yields nothing, so that anything can be said of it. -/
theorem throw {e : DecodeError} : Yields (throw e) P :=
  fun _ _ _ hrun ↦ (run_throw_eq_ok.mp hrun).elim

theorem failAt {pos : Nat} {fault : Fault} : Yields (failAt pos fault) P := throw

/-- Each branch may use what was tested. -/
theorem ite {c : Prop} [Decidable c] {r r' : Reader α} (hr : c → Yields r P)
    (hr' : ¬c → Yields r' P) : Yields (if c then r else r') P := by
  split
  · rename_i h
    exact hr h
  · rename_i h
    exact hr' h

/-- A check that fails under the condition `c`, and then the rest. -/
theorem guard {c : Prop} [Decidable c] {pos : Nat} {fault : Fault} {f : Unit → Reader β}
    (hf : ¬c → Yields (f ()) Q) :
    Yields (if c then Reader.failAt pos fault >>= f else f ()) Q :=
  ite (fun _ ↦ bind (P := fun _ ↦ False) failAt fun _ h ↦ h.elim) hf

/-- A weaker fact of what is read. -/
theorem mono {P' : α → Prop} {r : Reader α} (hr : Yields r P) (h : ∀ a, P a → P' a) :
    Yields r P' :=
  fun c a c' hrun ↦ ⟨(hr c a c' hrun).1, h a (hr c a c' hrun).2⟩

theorem get : Yields get fun _ ↦ True := by
  intro c _ _ hrun
  obtain ⟨rfl, rfl⟩ := run_get_eq_ok.mp hrun
  exact ⟨.refl c, trivial⟩

theorem offset : Yields offset fun _ ↦ True := bind get fun _ _ ↦ pure trivial

/-- A byte is read from an input that has one. -/
theorem byte : Yields byte fun _ ↦ True := by
  rintro ⟨pos, rest⟩ a c' hrun
  cases rest with
  | nil => cases hrun
  | cons b rest =>
    cases hrun
    exact ⟨⟨1, by simp [Cursor.remaining], rfl⟩, trivial⟩

/-- A string of bytes is as long as was asked for. -/
theorem bytes (n : Nat) : Yields (bytes n) fun bs ↦ bs.length = n := by
  intro c bs c' hrun
  change (if n ≤ c.remaining then EStateM.Result.ok (c.rest.take n) (c.advance n)
    else endOfInput c) = .ok bs c' at hrun
  split at hrun
  · rename_i hn
    cases hrun
    exact ⟨⟨n, hn, rfl⟩, List.length_take_of_le hn⟩
  · cases hrun

theorem sub (n : Nat) : Yields (sub n) fun _ ↦ True :=
  bind get fun _ _ ↦ bind (bytes n) fun _ _ ↦ pure trivial

theorem fixed (n : Nat) : Yields (fixed n) fun _ ↦ True :=
  bind (bytes n) fun _ _ ↦ pure trivial

/-- Of items that are read one after the other, each has what one item has. -/
theorem repeated {item : Reader α} (hitem : Yields item P) (n : Nat) :
    Yields (repeated item n) fun as ↦ ∀ a ∈ as, P a := by
  induction n with
  | zero => exact pure (by simp)
  | succ n ih =>
    refine bind hitem fun a ha ↦ bind ih fun as has ↦ pure ?_
    exact List.forall_mem_cons.mpr ⟨ha, has⟩

end Yields

/-! ## Numbers, names and types -/

/-- An integer only moves the cursor forwards, byte by byte. -/
theorem unsignedTail_yields (start n : Nat) : Yields (unsignedTail start n) fun _ ↦ True := by
  induction n with
  | zero => exact .bind .byte fun b _ ↦ .ite (fun _ ↦ .pure trivial) fun _ ↦ .failAt
  | succ n ih =>
    exact .bind .byte fun b _ ↦
      .ite (fun _ ↦ .bind ih fun _ _ ↦ .pure trivial) fun _ ↦ .pure trivial

theorem varuint32_yields : Yields varuint32 fun _ ↦ True :=
  .bind .offset fun start _ ↦ unsignedTail_yields start 4

theorem signedTail_yields (start n : Nat) : Yields (signedTail start n) fun _ ↦ True := by
  induction n with
  | zero => exact .bind .byte fun b _ ↦ .ite (fun _ ↦ .pure trivial) fun _ ↦ .failAt
  | succ n ih =>
    exact .bind .byte fun b _ ↦
      .ite (fun _ ↦ .bind ih fun _ _ ↦ .pure trivial) fun _ ↦ .pure trivial

theorem varint32_yields : Yields varint32 fun _ ↦ True :=
  .bind .offset fun start _ ↦ signedTail_yields start 4

theorem varuint1_yields : Yields varuint1 fun _ ↦ True := by
  refine .bind .offset fun _ _ ↦ .bind varuint32_yields fun n _ ↦ ?_
  split
  · exact .pure trivial
  · exact .pure trivial
  · exact .failAt

theorem varint7_yields : Yields varint7 fun _ ↦ True :=
  .bind .offset fun _ _ ↦ .bind varint32_yields fun _ _ ↦
    .ite (fun _ ↦ .pure trivial) fun _ ↦ .failAt

/-- An integer of 64 bits is never read. -/
theorem varint64_yields {P : α → Prop} : Yields varint64 P := .bind .offset fun _ _ ↦ .failAt

/-- All items of a vector have what one item has. -/
theorem vector_yields {item : Reader α} {P : α → Prop} (hitem : Yields item P) :
    Yields (vector item) fun as ↦ ∀ a ∈ as, P a :=
  .bind varuint32_yields fun n _ ↦ hitem.repeated n

theorem byteString_yields : Yields byteString fun _ ↦ True :=
  .bind varuint32_yields fun n _ ↦ (Yields.bytes n).mono fun _ _ ↦ trivial

theorem name_yields : Yields name fun _ ↦ True := by
  refine .bind .offset fun _ _ ↦ .bind byteString_yields fun bs _ ↦ ?_
  split
  · exact .pure trivial
  · exact .failAt

theorem valueType_yields : Yields valueType fun _ ↦ True := by
  refine .bind .offset fun _ _ ↦ .bind varint7_yields fun _ _ ↦ ?_
  split
  · exact .pure trivial
  · exact .failAt

theorem elemType_yields : Yields elemType fun _ ↦ True :=
  .bind .offset fun _ _ ↦ .bind varint7_yields fun _ _ ↦
    .ite (fun _ ↦ .pure trivial) fun _ ↦ .failAt

theorem externKind_yields : Yields externKind fun _ ↦ True := by
  refine .bind .offset fun _ _ ↦ .bind .byte fun b _ ↦ ?_
  split
  · exact .pure trivial
  · exact .pure trivial
  · exact .pure trivial
  · exact .pure trivial
  · exact .failAt

theorem limits_yields : Yields limits fun _ ↦ True :=
  .bind .offset fun _ _ ↦ .bind varuint1_yields fun _ _ ↦
    .bind varuint32_yields fun _ _ ↦
      .ite (fun _ ↦ .bind varuint32_yields fun _ _ ↦ .guard fun _ ↦ .pure trivial)
        fun _ ↦ .pure trivial

theorem funcType_yields : Yields funcType fun _ ↦ True :=
  .bind .offset fun _ _ ↦ .bind varint7_yields fun _ _ ↦ .guard fun _ ↦
    .bind (vector_yields valueType_yields) fun _ _ ↦ .bind varuint1_yields fun _ _ ↦
      .ite (fun _ ↦ .bind valueType_yields fun _ _ ↦ .pure trivial) fun _ ↦ .pure trivial

theorem tableType_yields : Yields tableType fun _ ↦ True :=
  .bind elemType_yields fun _ _ ↦ limits_yields

theorem memoryType_yields : Yields memoryType fun _ ↦ True :=
  .bind .offset fun _ _ ↦ .bind limits_yields fun _ _ ↦ .guard fun _ ↦ .pure trivial

theorem globalType_yields : Yields globalType fun _ ↦ True :=
  .bind valueType_yields fun _ _ ↦ .bind varuint1_yields fun _ _ ↦ .pure trivial

end Reader

end WasmEngine
