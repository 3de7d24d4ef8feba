import WasmEngine.Module.Section
import WasmEngine.Proofs.Grammar

/-!
# Locality

A reader knows its input through a cursor only. What it gives depends on the bytes that it passes
over, of which there is at least one, and not on what follows them. When it fails, it has not gone
back or beyond the end, and the offsets that it names lie between the place where it started and the
end of its input. `Reader.Lawful` says all of this. A reader of vectors has it from the reader of
the items, however many of them are announced.

What is kept along a reader is `Reader.Anchored`: the same without the byte that is passed over, and
with errors that may name any offset from a fixed one on. The byte comes for free. A reader that
passes over nothing and looks at nothing else would also succeed at the end of the input, where in
fact all of them fail.
-/

namespace WasmEngine

namespace DecodeError

variable {lo hi : Nat} {e : DecodeError}

def offsets : DecodeError → List Nat
  | .located pos (.sectionOverrun _ expectedEnd) => [pos, expectedEnd]
  | .located pos _ => [pos]
  | _ => []

/-- The error names an offset, and none outside the bounds. -/
def Within (lo hi : Nat) (e : DecodeError) : Prop :=
  e.offsets ≠ [] ∧ ∀ pos ∈ e.offsets, lo ≤ pos ∧ pos ≤ hi

/-- An error that names one offset is in bounds if this offset is. -/
theorem within_located {pos : Nat} {fault : Fault} (hlo : lo ≤ pos) (hhi : pos ≤ hi)
    (hfault : offsets (.located pos fault) = [pos]) : Within lo hi (.located pos fault) := by
  rw [Within, hfault]
  exact ⟨List.cons_ne_nil pos [], List.forall_mem_singleton.mpr ⟨hlo, hhi⟩⟩

/-- The lower bound may be lowered. -/
theorem Within.mono {lo' : Nat} (h : e.Within lo' hi) (hle : lo ≤ lo') : e.Within lo hi :=
  ⟨h.1, fun pos hpos ↦ ⟨Nat.le_trans hle (h.2 pos hpos).1, (h.2 pos hpos).2⟩⟩

end DecodeError

/-! ## Cursors -/

namespace Cursor

def stop (c : Cursor) : Nat := c.offset + c.remaining

variable {c c' : Cursor}

theorem offset_le_stop (c : Cursor) : c.offset ≤ c.stop := Nat.le_add_right _ _

theorem Before.offset_le (h : c.Before c') : c.offset ≤ c'.offset := by
  obtain ⟨n, -, rfl⟩ := h
  exact Nat.le_add_right _ _

/-- Reading does not move the end of the input. -/
theorem Before.stop_eq (h : c.Before c') : c'.stop = c.stop := by
  obtain ⟨n, hn, rfl⟩ := h
  simp only [stop, advance, remaining, List.length_drop] at hn ⊢
  omega

/-- What is passed over lies between two places of one input. -/
theorem Spans.before {bs : List UInt8} (h : c.Spans bs c') : c.Before c' :=
  ⟨bs.length, h.length_le, h.eq_advance⟩

end Cursor

namespace Reader

theorem run_sub (n : Nat) (c : Cursor) :
    (sub n).run c = (bytes n >>= fun _ ↦ pure (c.bounded n)).run c := rfl

/-- A part of the input is cut off just if there are enough bytes. -/
theorem run_sub_eq_ok {n : Nat} {c inner c' : Cursor} :
    (sub n).run c = .ok inner c' ↔ n ≤ c.remaining ∧ inner = c.bounded n ∧ c' = c.advance n := by
  rw [run_sub, EStateM.run_bind]
  by_cases hn : n ≤ c.remaining
  · have hbytes : (bytes n).run c = .ok (c.rest.take n) (c.advance n) := if_pos hn
    simp [hbytes, hn, eq_comm]
  · have hbytes : (bytes n).run c = .error (.located c.offset .unexpectedEnd) c := if_neg hn
    simp [hbytes, hn]

end Reader

namespace Cursor

variable {outer inner : Cursor}

/-- Cursors that come from `outer` by reading on and by splitting off frames, in any order and to
any depth. -/
inductive Nested (outer : Cursor) : Cursor → Prop
  | whole : Nested outer outer
  | further {c c' : Cursor} (h : Nested outer c) (hbefore : c.Before c') : Nested outer c'
  | frame {c inner c' : Cursor} {n : Nat} (h : Nested outer c)
      (hsub : (Reader.sub n).run c = .ok inner c') : Nested outer inner

/-- A nested cursor shows a part of the outer input, at the offset where it stands in it. -/
theorem Nested.window (h : outer.Nested inner) :
    ∃ k n, k + n ≤ outer.remaining ∧ inner = (outer.advance k).bounded n := by
  induction h with
  | whole => exact ⟨0, outer.remaining, by omega, by simp [advance, bounded, remaining]⟩
  | further _ hbefore ih =>
    obtain ⟨k, n, hle, rfl⟩ := ih
    obtain ⟨d, hd, rfl⟩ := hbefore
    have hlength : ((outer.advance k).bounded n).remaining = n := by
      simp only [remaining, bounded, advance, List.length_take, List.length_drop] at hle ⊢
      omega
    refine ⟨k + d, n - d, by omega, ?_⟩
    simp [advance, bounded, List.drop_take, List.drop_drop, Nat.add_assoc]
  | @frame _ _ _ d _ hsub ih =>
    obtain ⟨k, n, hle, rfl⟩ := ih
    obtain ⟨-, rfl, -⟩ := Reader.run_sub_eq_ok.mp hsub
    refine ⟨k, min d n, by omega, ?_⟩
    simp [bounded, List.take_take]

/-- A part ends no later than the whole. -/
theorem Nested.stop_le (h : outer.Nested inner) : inner.stop ≤ outer.stop := by
  obtain ⟨k, n, hle, rfl⟩ := h.window
  simp only [stop, remaining, bounded, advance, List.length_take, List.length_drop] at hle ⊢
  omega

end Cursor

/-! ## Laws -/

namespace Reader

open Cursor

variable {α β : Type} {start n : Nat} {r : Reader α}

/-- At the offset `pos` the reader takes `bs` to give `a`, whatever follows. -/
def Gives (r : Reader α) (pos : Nat) (bs : List UInt8) (a : α) : Prop :=
  ∀ rest, r.run ⟨pos, bs ++ rest⟩ = .ok a ⟨pos + bs.length, rest⟩

/-- A success passes over one byte at least, and nothing but what is passed over matters to it. A
failure stays within the input, and so do the offsets that it names. -/
structure Lawful (r : Reader α) : Prop where
  ok {c : Cursor} {a : α} {c' : Cursor} : r.run c = .ok a c' →
    ∃ bs, bs ≠ [] ∧ c.Spans bs c' ∧ r.Gives c.offset bs a
  error {c : Cursor} {e : DecodeError} {c' : Cursor} : r.run c = .error e c' →
    c.Before c' ∧ e.Within c.offset c.stop

/-- The reader takes `n` bytes, whatever they are, and does not move if there are fewer. -/
structure AllOrNothing (n : Nat) (r : Reader α) : Prop where
  all (pos : Nat) {bs : List UInt8} : bs.length = n → ∃ a, r.Gives pos bs a
  nothing {c : Cursor} : c.remaining < n →
    r.run c = .error (.located c.offset .unexpectedEnd) c

/-- From `start` on, what the reader gives depends on what it passes over, and an error names
offsets from `start` to the end of the input. -/
def Anchored (start : Nat) (r : Reader α) : Prop :=
  ∀ c, start ≤ c.offset → Ensures r c (fun a c' ↦ ∃ bs, c.Spans bs c' ∧ r.Gives c.offset bs a)
    fun e c' ↦ c.Before c' ∧ e.Within start c.stop

/-- What two readers take, one after the other. -/
theorem Gives.bind {f : α → Reader β} {pos : Nat} {bs bs' : List UInt8} {a : α} {b : β}
    (hr : r.Gives pos bs a) (hf : (f a).Gives (pos + bs.length) bs' b) :
    (r >>= f).Gives pos (bs ++ bs') b := by
  intro rest
  rw [List.append_assoc, List.length_append, ← Nat.add_assoc]
  exact run_bind_eq_ok.mpr ⟨a, _, hr _, hf rest⟩

namespace Anchored

/-- A reader that reads nothing gives its value anywhere. -/
theorem pure (a : α) : Anchored start (pure a) :=
  fun _ _ ↦ .pure ⟨[], spans_nil.mpr rfl, fun _ ↦ rfl⟩

/-- The bytes that two readers pass over lie one behind the other, and an error of the second is in
bounds of the first as well. -/
theorem bind {f : α → Reader β} (hr : Anchored start r) (hf : ∀ a, Anchored start (f a)) :
    Anchored start (r >>= f) := by
  intro c hstart
  refine .bind (hr c hstart) fun a c' hok ↦ ?_
  obtain ⟨bs, hspans, hgives⟩ := hok
  have hbefore := hspans.before
  refine (hf a c' (Nat.le_trans hstart hbefore.offset_le)).mono ?_ ?_
  · rintro b c'' ⟨bs', hspans', hgives'⟩
    rw [hspans.2] at hgives'
    exact ⟨bs ++ bs', spans_append.mpr ⟨c', hspans, hspans'⟩, hgives.bind hgives'⟩
  · rintro e c'' ⟨hbefore', hwithin⟩
    rw [hbefore.stop_eq] at hwithin
    exact ⟨hbefore.trans hbefore', hwithin⟩

/-- The offset of the cursor is the place where errors may be reported from here on. -/
theorem offset_bind {f : Nat → Reader α} (hf : ∀ pos, Anchored pos (f pos)) :
    Anchored start (offset >>= f) := by
  intro c hstart
  refine (hf c.offset c (Nat.le_refl _)).mono (fun _ _ h ↦ h) ?_
  rintro e c' ⟨hbefore, hwithin⟩
  exact ⟨hbefore, hwithin.mono hstart⟩

/-- An error at the anchor is in bounds. -/
theorem failAt {fault : Fault} (hfault : DecodeError.offsets (.located start fault) = [start]) :
    Anchored start (failAt start fault : Reader α) :=
  fun c hstart ↦ .throw ⟨.refl c,
    DecodeError.within_located (Nat.le_refl _) (Nat.le_trans hstart c.offset_le_stop) hfault⟩

theorem ite {p : Prop} [Decidable p] {r' : Reader α} (hr : Anchored start r)
    (hr' : Anchored start r') : Anchored start (if p then r else r') := by
  split
  · exact hr
  · exact hr'

/-- A check that fails under the condition `p`, and then the rest. -/
theorem guard {p : Prop} [Decidable p] {fault : Fault} {f : Unit → Reader α}
    (hfault : DecodeError.offsets (.located start fault) = [start])
    (hf : Anchored start (f ())) :
    Anchored start (if p then Reader.failAt start fault >>= f else f ()) :=
  ite (bind (failAt hfault) fun _ ↦ hf) hf

/-- Items one after the other, by induction on how many are to come. -/
theorem repeated (hr : Anchored start r) (n : Nat) : Anchored start (repeated r n) := by
  induction n with
  | zero => exact pure []
  | succ n ih => exact bind hr fun a ↦ bind ih fun as ↦ pure (a :: as)

end Anchored

namespace Lawful

/-- A lawful reader can be part of one that started before it. -/
theorem anchored (h : Lawful r) (start : Nat) : Anchored start r := by
  intro c hstart
  refine (Ensures.ran r c).mono ?_ ?_
  · intro a c' hrun
    obtain ⟨bs, -, hspans, hgives⟩ := h.ok hrun
    exact ⟨bs, hspans, hgives⟩
  · intro e c' hrun
    obtain ⟨hbefore, hwithin⟩ := h.error hrun
    exact ⟨hbefore, hwithin.mono hstart⟩

/-- A reader that fails at the end of its input has to pass over something to succeed. -/
theorem of_anchored (h : ∀ start, Anchored start r)
    (hempty : ∀ pos, ∃ e c', r.run ⟨pos, []⟩ = .error e c') : Lawful r where
  ok {c a c'} hrun := by
    obtain ⟨bs, hspans, hgives⟩ := (h c.offset c (Nat.le_refl _)).of_ok hrun
    refine ⟨bs, ?_, hspans, hgives⟩
    -- With nothing passed over, what follows may also be nothing.
    rintro rfl
    obtain ⟨e, c'', herror⟩ := hempty c.offset
    cases herror.symm.trans (hgives [])
  error {c _ _} hrun := (h c.offset c (Nat.le_refl _)).of_error hrun

/-- A lawful reader has to pass over a byte, which an empty input does not have. -/
theorem fails_at_end (h : Lawful r) (pos : Nat) : ∃ e c', r.run ⟨pos, []⟩ = .error e c' := by
  cases hrun : r.run ⟨pos, []⟩ with
  | ok a c =>
    obtain ⟨bs, hne, hspans, -⟩ := h.ok hrun
    exact absurd (List.append_eq_nil_iff.mp hspans.1.symm).1 hne
  | error e c => exact ⟨e, c, rfl⟩

/-- What is read first passes over something, whatever is read after it. -/
theorem bind {f : α → Reader β} (hr : Lawful r) (hf : ∀ start a, Anchored start (f a)) :
    Lawful (r >>= f) := by
  refine of_anchored (fun start ↦ (hr.anchored start).bind (hf start)) fun pos ↦ ?_
  obtain ⟨e, c', herror⟩ := hr.fails_at_end pos
  exact ⟨e, c', by rw [EStateM.run_bind, herror]⟩

/-- Readers that remember where they start, to report errors there. -/
theorem offset_bind {f : Nat → α → Reader β} (hr : Lawful r)
    (hf : ∀ pos a, Anchored pos (f pos a)) :
    Lawful (offset >>= fun pos ↦ r >>= f pos) := by
  refine of_anchored (fun start ↦ .offset_bind fun pos ↦ (hr.anchored pos).bind (hf pos))
    fun pos ↦ ?_
  have hrun : (offset >>= fun pos ↦ r >>= f pos).run ⟨pos, []⟩ =
    (r >>= f pos).run ⟨pos, []⟩ := rfl
  obtain ⟨e, c', herror⟩ := hr.fails_at_end pos
  exact ⟨e, c', by rw [hrun, EStateM.run_bind, herror]⟩

end Lawful

/-! ## Blocks of bytes -/

namespace AllOrNothing

/-- A reader that takes all or nothing has two endings only. -/
theorem ensures (h : AllOrNothing n r) (c : Cursor) :
    Ensures r c (fun a c' ↦ ∃ bs, bs.length = n ∧ c.Spans bs c' ∧ r.Gives c.offset bs a)
      fun e c' ↦ e = .located c.offset .unexpectedEnd ∧ c' = c := by
  by_cases hn : n ≤ c.remaining
  · have hlength : (c.rest.take n).length = n := List.length_take_of_le hn
    obtain ⟨a, hgives⟩ := h.all c.offset hlength
    have hrun := hgives (c.rest.drop n)
    rw [List.take_append_drop] at hrun
    rw [Ensures, hrun]
    exact ⟨c.rest.take n, hlength, ⟨(List.take_append_drop n c.rest).symm, rfl⟩, hgives⟩
  · rw [Ensures, h.nothing (Nat.lt_of_not_le hn)]
    exact ⟨rfl, rfl⟩

theorem anchored (h : AllOrNothing n r) (start : Nat) : Anchored start r := by
  intro c hstart
  refine (h.ensures c).mono ?_ ?_
  · rintro a c' ⟨bs, -, hspans, hgives⟩
    exact ⟨bs, hspans, hgives⟩
  · rintro e c' ⟨rfl, rfl⟩
    exact ⟨.refl c', DecodeError.within_located hstart c'.offset_le_stop rfl⟩

/-- A reader of a fixed number of bytes is lawful if it takes any at all. -/
theorem lawful (h : AllOrNothing n r) (hn : 1 ≤ n) : Lawful r :=
  .of_anchored h.anchored fun _ ↦ ⟨_, _, h.nothing hn⟩

theorem map (h : AllOrNothing n r) (f : α → β) : AllOrNothing n (do return f (← r)) where
  all pos {bs} hbs := by
    obtain ⟨a, hgives⟩ := h.all pos hbs
    refine ⟨f a, fun rest ↦ ?_⟩
    rw [EStateM.run_bind, hgives rest]
    rfl
  nothing hc := by
    rw [EStateM.run_bind, h.nothing hc]

theorem byte : AllOrNothing 1 byte where
  all pos {bs} hbs := by
    obtain ⟨b, rfl⟩ := List.length_eq_one_iff.mp hbs
    exact ⟨b, fun _ ↦ rfl⟩
  nothing {c} hc := by
    obtain ⟨pos, rest⟩ := c
    obtain rfl := List.length_eq_zero_iff.mp (Nat.lt_one_iff.mp hc)
    rfl

theorem bytes (n : Nat) : AllOrNothing n (bytes n) where
  all pos {bs} hbs := by
    subst hbs
    exact ⟨bs, fun rest ↦ (Reads.bytes _ _ _ _).mpr ⟨bs, ⟨rfl, rfl⟩, rfl, rfl⟩⟩
  nothing hc := if_neg (Nat.not_le_of_lt hc)

theorem fixed (n : Nat) : AllOrNothing n (fixed n) := (bytes n).map littleEndian

theorem skip (n : Nat) : AllOrNothing n (skip n) := (bytes n).map fun _ ↦ ()

/-- A part of the input is cut off as a whole or not at all. -/
theorem sub (n : Nat) : AllOrNothing n (sub n) where
  all pos {bs} hbs := by
    subst hbs
    refine ⟨⟨pos, bs⟩, fun rest ↦ run_sub_eq_ok.mpr ⟨?_, ?_, ?_⟩⟩
    · simp [remaining]
    · simp [bounded]
    · simp [advance]
  nothing hc := by
    rw [run_sub, EStateM.run_bind, (bytes n).nothing hc]

end AllOrNothing

/-! ## Numbers, names and types -/

theorem byte_lawful : Lawful byte := AllOrNothing.byte.lawful (Nat.le_refl 1)

/-- An integer is anchored at its start, where a malformed one is reported. -/
theorem unsignedTail_anchored (start n : Nat) : Anchored start (unsignedTail start n) := by
  have hbyte := byte_lawful.anchored start
  induction n with
  | zero => exact .bind hbyte fun _ ↦ .ite (.pure _) (.failAt rfl)
  | succ n ih => exact .bind hbyte fun _ ↦ .ite (.bind ih fun _ ↦ .pure _) (.pure _)

theorem signedTail_anchored (start n : Nat) : Anchored start (signedTail start n) := by
  have hbyte := byte_lawful.anchored start
  induction n with
  | zero => exact .bind hbyte fun _ ↦ .ite (.pure _) (.failAt rfl)
  | succ n ih => exact .bind hbyte fun _ ↦ .ite (.bind ih fun _ ↦ .pure _) (.pure _)

/-- An integer has one byte at least. -/
theorem varuint32_lawful : Lawful varuint32 :=
  .of_anchored (fun _ ↦ .offset_bind fun pos ↦ unsignedTail_anchored pos 4) fun _ ↦ ⟨_, _, rfl⟩

theorem varint32_lawful : Lawful varint32 :=
  .of_anchored (fun _ ↦ .offset_bind fun pos ↦ signedTail_anchored pos 4) fun _ ↦ ⟨_, _, rfl⟩

theorem varuint1_lawful : Lawful varuint1 := by
  refine .offset_bind varuint32_lawful fun _ n ↦ ?_
  split
  · exact .pure false
  · exact .pure true
  · exact .failAt rfl

theorem varuint7_lawful : Lawful varuint7 :=
  .offset_bind varuint32_lawful fun _ _ ↦ .ite (.pure _) (.failAt rfl)

theorem varint7_lawful : Lawful varint7 :=
  .offset_bind varint32_lawful fun _ _ ↦ .ite (.pure _) (.failAt rfl)

/-- A reader that always fails is lawful if its error is in bounds. -/
theorem varint64_lawful : Lawful (varint64 : Reader α) :=
  .of_anchored (fun _ ↦ .offset_bind fun _ ↦ .failAt rfl) fun _ ↦ ⟨_, _, rfl⟩

/-- A count of items that are not there does no harm. -/
theorem vector_lawful {item : Reader α} (hitem : Lawful item) : Lawful (vector item) :=
  varuint32_lawful.bind fun start n ↦ (hitem.anchored start).repeated n

/-- The length comes first, so that an empty string has a byte as well. -/
theorem byteString_lawful : Lawful byteString :=
  varuint32_lawful.bind fun start n ↦ (AllOrNothing.bytes n).anchored start

/-- A name that is not UTF-8 is reported inside the name. -/
theorem name_lawful : Lawful name := by
  refine .offset_bind byteString_lawful fun _ bs ↦ ?_
  split
  · exact .pure _
  · exact .failAt rfl

theorem valueType_lawful : Lawful valueType := by
  refine .offset_bind varint7_lawful fun _ tag ↦ ?_
  split
  · exact .pure _
  · exact .failAt rfl

theorem blockType_lawful : Lawful blockType := by
  refine .offset_bind varint7_lawful fun _ tag ↦ .ite (.pure none) ?_
  split
  · exact .pure _
  · exact .failAt rfl

theorem elemType_lawful : Lawful elemType :=
  .offset_bind varint7_lawful fun _ _ ↦ .ite (.pure ()) (.failAt rfl)

theorem externKind_lawful : Lawful externKind := by
  refine .offset_bind byte_lawful fun _ b ↦ ?_
  split
  · exact .pure _
  · exact .pure _
  · exact .pure _
  · exact .pure _
  · exact .failAt rfl

/-- Limits are reported where they start. -/
theorem limits_lawful : Lawful limits :=
  .offset_bind varuint1_lawful fun start _ ↦ .bind (varuint32_lawful.anchored start) fun _ ↦
    .ite (.bind (varuint32_lawful.anchored start) fun _ ↦ .guard rfl (.pure _)) (.pure _)

theorem funcType_lawful : Lawful funcType :=
  .offset_bind varint7_lawful fun start _ ↦ .guard rfl <|
    .bind ((vector_lawful valueType_lawful).anchored start) fun _ ↦
      .bind (varuint1_lawful.anchored start) fun _ ↦
        .ite (.bind (valueType_lawful.anchored start) fun _ ↦ .pure _) (.pure _)

theorem tableType_lawful : Lawful tableType :=
  elemType_lawful.bind fun start _ ↦ limits_lawful.anchored start

theorem memoryType_lawful : Lawful memoryType :=
  .offset_bind limits_lawful fun _ _ ↦ .guard rfl (.pure _)

theorem globalType_lawful : Lawful globalType :=
  valueType_lawful.bind fun start _ ↦ .bind (varuint1_lawful.anchored start) fun _ ↦ .pure _

/-- An instruction that may not stand in an initializer is reported where the initializer starts. -/
theorem initializer_anchored (start : Nat) : Anchored start (initializer start) := by
  refine .bind (byte_lawful.anchored start) fun opcode ↦ ?_
  split
  · exact .bind (varint32_lawful.anchored start) fun _ ↦ .pure _
  · exact varint64_lawful.anchored start
  · exact .bind ((AllOrNothing.fixed 4).anchored start) fun _ ↦ .pure _
  · exact .bind ((AllOrNothing.fixed 8).anchored start) fun _ ↦ .pure _
  · exact .bind (varuint32_lawful.anchored start) fun _ ↦ .pure _
  · exact .failAt rfl

theorem constExpr_lawful : Lawful constExpr := by
  refine .of_anchored (fun _ ↦ .offset_bind fun start ↦ ?_) fun _ ↦ ⟨_, _, rfl⟩
  exact .bind (initializer_anchored start) fun _ ↦ .bind (byte_lawful.anchored start) fun _ ↦
    .guard rfl (.pure _)

/-- A header has two bytes at least, and depends on nothing behind them. -/
theorem sectionHeader_lawful : Lawful sectionHeader := by
  refine .offset_bind varuint7_lawful fun start number ↦ ?_
  split
  · exact .failAt rfl
  · exact .bind (varuint32_lawful.anchored start) fun _ ↦ .offset_bind fun _ ↦ .pure _

/-- The readers that all others are made of: blocks of bytes, numbers, names, types, initializers,
headers of sections, and vectors of whatever has a lawful reader. -/
inductive Basic : {α : Type} → Reader α → Prop
  | byte : Basic byte
  | bytes {n : Nat} (hn : 1 ≤ n) : Basic (bytes n)
  | fixed {n : Nat} (hn : 1 ≤ n) : Basic (fixed n)
  | varuint1 : Basic varuint1
  | varuint7 : Basic varuint7
  | varuint32 : Basic varuint32
  | varint7 : Basic varint7
  | varint32 : Basic varint32
  | varint64 {α : Type} : Basic (varint64 : Reader α)
  | byteString : Basic byteString
  | name : Basic name
  | valueType : Basic valueType
  | blockType : Basic blockType
  | elemType : Basic elemType
  | externKind : Basic externKind
  | limits : Basic limits
  | funcType : Basic funcType
  | tableType : Basic tableType
  | memoryType : Basic memoryType
  | globalType : Basic globalType
  | constExpr : Basic constExpr
  | sectionHeader : Basic sectionHeader
  | vector {α : Type} {item : Reader α} (hitem : Lawful item) : Basic (vector item)

/-- All readers of the binary layer are lawful, and so are vectors of what they read, by induction
on how they are built. -/
theorem Basic.lawful (h : Basic r) : Lawful r := by
  cases h with
  | byte => exact byte_lawful
  | bytes hn => exact (AllOrNothing.bytes _).lawful hn
  | fixed hn => exact (AllOrNothing.fixed _).lawful hn
  | varuint1 => exact varuint1_lawful
  | varuint7 => exact varuint7_lawful
  | varuint32 => exact varuint32_lawful
  | varint7 => exact varint7_lawful
  | varint32 => exact varint32_lawful
  | varint64 => exact varint64_lawful
  | byteString => exact byteString_lawful
  | name => exact name_lawful
  | valueType => exact valueType_lawful
  | blockType => exact blockType_lawful
  | elemType => exact elemType_lawful
  | externKind => exact externKind_lawful
  | limits => exact limits_lawful
  | funcType => exact funcType_lawful
  | tableType => exact tableType_lawful
  | memoryType => exact memoryType_lawful
  | globalType => exact globalType_lawful
  | constExpr => exact constExpr_lawful
  | sectionHeader => exact sectionHeader_lawful
  | vector hitem => exact vector_lawful hitem

end Reader

end WasmEngine
