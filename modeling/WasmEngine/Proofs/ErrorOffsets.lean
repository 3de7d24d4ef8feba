import WasmEngine.Module.Encoding
import WasmEngine.Proofs.Positions

/-!
# Offsets in errors

No error about a binary names an offset behind its end. Readers of numbers, names and types are
lawful, so what they report lies in the input that they are given. Entries of sections report
offsets that were taken from the cursor before, also where the check comes much later: the indices
of functions are all read before the first of them is looked up. A function body is read through a
frame, which ends where the binary does at the latest. The one error with two offsets is about a
section that was read too far, and its declared end lies before the place that was reached.
-/

namespace WasmEngine

/-- An error that names no offset is in bounds. -/
theorem DecodeError.below_unlocated {hi : Nat} {e : DecodeError} (h : e.offsets = []) :
    e.Below hi := by
  intro pos hpos
  rw [h] at hpos
  exact absurd hpos List.not_mem_nil

namespace Reader

variable {α : Type} {hi : Nat}

/-! ## Readers that stop at the end -/

namespace Confined

theorem throw {e : DecodeError} (he : e.Below hi) : Confined hi (throw e : Reader α) :=
  fun _ _ ↦ .throw he

/-- A check that fails under the condition `p`, and then the rest. -/
theorem guard {p : Prop} [Decidable p] {e : DecodeError} {f : Unit → Reader α}
    (he : p → e.Below hi) (hf : Confined hi (f ())) :
    Confined hi (if p then MonadExcept.throw e >>= f else f ()) :=
  fun c hc ↦ .ite (fun hp ↦ .throw_bind (he hp)) fun _ ↦ hf c hc

/-- Entries that each go on from what the one before it made, by induction on how many are to come.
-/
theorem entries {entry : α → Reader α} (hentry : ∀ a, Confined hi (entry a)) (n : Nat) (a : α) :
    Confined hi (entries entry n a) := by
  induction n generalizing a with
  | zero => exact .pure a
  | succ n ih => exact .bind (hentry a) ih

theorem counted {entry : α → Reader α} (hentry : ∀ a, Confined hi (entry a)) (a : α) :
    Confined hi (counted entry a) :=
  .bind varuint32_lawful.confined fun n ↦ .entries hentry n a

/-- A check of all items, each at a place that was passed before. -/
theorem forM {f : α → Reader PUnit} {as : List α} (hf : ∀ a ∈ as, Confined hi (f a)) :
    Confined hi (as.forM f) := by
  induction as with
  | nil => exact .pure _
  | cons a as ih =>
    exact .bind (hf a List.mem_cons_self) fun _ ↦ ih fun b hb ↦ hf b (List.mem_cons_of_mem a hb)

/-- A frame ends where the input does, or before. -/
theorem sub_bind {n : Nat} {f : Cursor → Reader α}
    (hf : ∀ inner : Cursor, inner.stop ≤ hi → Confined hi (f inner)) :
    Confined hi (sub n >>= f) := by
  rintro c rfl
  have hsub := ((AllOrNothing.sub n).confined c rfl).and (.ran _ c)
  refine .bind (hsub.mono (fun _ _ h ↦ h) fun _ _ h ↦ h.1) fun inner c' hok ↦ ?_
  obtain ⟨hstop, hrun⟩ := hok
  exact hf inner (Cursor.Nested.frame .whole hrun).stop_le c' hstop

/-- A part ends no later than the whole, so that errors inside it are in bounds. -/
theorem within {r : Reader α} {inner : Cursor} (hr : Confined inner.stop r)
    (hinner : inner.stop ≤ hi) : Confined hi (within inner r) := by
  intro c hc
  have hbody := hr inner rfl
  unfold Ensures at hbody ⊢
  simp only [Reader.within, EStateM.run] at hbody ⊢
  cases hrun : r inner with
  | ok a c' => exact hc
  | error e c' =>
    rw [hrun] at hbody
    exact fun pos hpos ↦ Nat.le_trans (hbody pos hpos) hinner

end Confined

/-- What is known of each item, when it is read, is known of all of them in the end. -/
theorem repeated_ensures {item : Reader α} {P : α → Prop}
    (hitem : ∀ c : Cursor, c.stop = hi →
      Ensures item c (fun a c' ↦ c'.stop = hi ∧ P a) fun e _ ↦ e.Below hi)
    (n : Nat) {c : Cursor} (hc : c.stop = hi) :
    Ensures (repeated item n) c (fun as c' ↦ c'.stop = hi ∧ ∀ a ∈ as, P a)
      fun e _ ↦ e.Below hi := by
  induction n generalizing c with
  | zero => exact .pure ⟨hc, by simp⟩
  | succ n ih =>
    refine .bind (hitem c hc) fun a c' ha ↦ .bind (ih ha.1) fun as c'' has ↦ .pure ⟨has.1, ?_⟩
    exact List.forall_mem_cons.mpr ⟨ha.2, has.2⟩

end Reader

/-! ## Sections -/

namespace Module

open Reader DecodeError

variable {config : Config} {m : Module} {pos hi : Nat}

/-- A look-up that fails is reported at a place that was passed before. -/
theorem requireType_confined (hpos : pos ≤ hi) (index : Nat) :
    Confined hi (m.requireType pos index) := by
  unfold requireType
  split
  · exact .pure _
  · exact .failAt hpos rfl

theorem requireFunc_confined (hpos : pos ≤ hi) (index : Nat) :
    Confined hi (m.requireFunc pos index) := by
  unfold requireFunc
  split
  · exact .pure _
  · exact .failAt hpos rfl

theorem checkSingletons_confined (hpos : pos ≤ hi) : Confined hi (m.checkSingletons pos) := by
  unfold checkSingletons
  exact .guard (fun _ ↦ below_located hpos rfl) (.ite (.failAt hpos rfl) (.pure _))

theorem checkConstExpr_confined (hpos : pos ≤ hi) (e : ConstExpr) (t : ValueType) :
    Confined hi (m.checkConstExpr pos e t) := by
  have htype : Confined hi (m.constExprType pos e) := by
    cases e with
    | value v => exact .pure v.type
    | globalGet index =>
      simp only [constExprType]
      refine .guard (fun _ ↦ below_located hpos rfl) ?_
      split
      · exact .pure _
      · exact .failAt hpos rfl
  exact .bind htype fun _ ↦ .ite (.failAt hpos rfl) (.pure _)

/-- An import is reported where it starts. -/
theorem importDesc_confined (hpos : pos ≤ hi) : Confined hi (m.importDesc pos) := by
  refine .bind externKind_lawful.confined fun kind ↦ ?_
  split
  · exact .bind varuint32_lawful.confined fun index ↦
      .bind (requireType_confined hpos index) fun _ ↦ .pure _
  · exact .bind tableType_lawful.confined fun _ ↦ .pure _
  · exact .bind memoryType_lawful.confined fun _ ↦ .pure _
  · exact .bind globalType_lawful.confined fun _ ↦ .pure _

theorem importEntry_confined (m : Module) : Confined hi m.importEntry :=
  .offset_bind fun _ hstart ↦ .bind name_lawful.confined fun _ ↦ .bind name_lawful.confined fun _ ↦
    .bind (importDesc_confined hstart) fun _ ↦
      .bind (checkSingletons_confined hstart) fun _ ↦ .pure _

/-- The offsets of the indices are kept until all have been read. -/
theorem functionSection_confined : Confined hi m.functionSection := by
  intro c hc
  have hindex (c : Cursor) (hc : c.stop = hi) : Ensures (do
      let pos ← offset
      let index ← varuint32
      return (pos, index)) c (fun p c' ↦ c'.stop = hi ∧ p.1 ≤ hi) fun e _ ↦ e.Below hi := by
    have hpos : c.offset ≤ hi := hc ▸ c.offset_le_stop
    have hread : Ensures (do return (c.offset, ← varuint32)) c
        (fun p c' ↦ c'.stop = hi ∧ p.1 ≤ hi) fun e _ ↦ e.Below hi :=
      .bind (varuint32_lawful.confined c hc) fun _ _ hc' ↦ .pure ⟨hc', hpos⟩
    exact hread
  have hcheck (p : Nat × Nat) (hp : p.1 ≤ hi) :
      Confined hi (do let _ ← m.requireType p.1 p.2) :=
    .bind (requireType_confined hp p.2) fun _ ↦ .pure _
  have hindices := (varuint32_lawful.confined c hc).bind fun n _ hc' ↦ repeated_ensures hindex n hc'
  refine hindices.bind fun indices c' hok ↦ ?_
  obtain ⟨hc', hpositions⟩ := hok
  exact Confined.bind (.forM fun p hp ↦ hcheck p (hpositions p hp)) (fun _ ↦ .pure _) c' hc'

theorem tableSection_confined : Confined hi m.tableSection :=
  .offset_bind fun _ hstart ↦ .bind (vector_lawful tableType_lawful).confined fun _ ↦
    .bind (checkSingletons_confined hstart) fun _ ↦ .pure _

theorem memorySection_confined : Confined hi m.memorySection :=
  .offset_bind fun _ hstart ↦ .bind (vector_lawful memoryType_lawful).confined fun _ ↦
    .bind (checkSingletons_confined hstart) fun _ ↦ .pure _

theorem globalEntry_confined (m : Module) : Confined hi m.globalEntry :=
  .bind globalType_lawful.confined fun type ↦ .offset_bind fun _ hpos ↦
    .bind constExpr_lawful.confined fun init ↦
      .bind (checkConstExpr_confined hpos init type.type) fun _ ↦ .pure _

/-- An export that is there twice is reported by name, without an offset. -/
theorem exportEntry_confined (m : Module) : Confined hi m.exportEntry :=
  .bind name_lawful.confined fun _ ↦ .offset_bind fun _ hpos ↦
    .bind externKind_lawful.confined fun _ ↦ .bind varuint32_lawful.confined fun _ ↦
      .guard (fun _ ↦ below_unlocated rfl) <|
        .guard (fun _ ↦ below_located hpos rfl) (.pure _)

theorem startSection_confined : Confined hi m.startSection :=
  .offset_bind fun _ hpos ↦ .bind varuint32_lawful.confined fun index ↦
    .bind (requireFunc_confined hpos index) fun _ ↦
      .guard (fun _ ↦ below_located hpos rfl) (.pure _)

theorem segmentTarget_confined (place : ReservedIndex) (space : IndexSpace) (available : Nat) :
    Confined hi (segmentTarget place space available) :=
  .offset_bind fun _ hpos ↦ .bind varuint32_lawful.confined fun _ ↦
    .guard (fun _ ↦ below_located hpos rfl) (.ite (.failAt hpos rfl) (.pure _))

theorem segmentOffset_confined : Confined hi m.segmentOffset :=
  .offset_bind fun _ hpos ↦ .bind constExpr_lawful.confined fun e ↦
    .bind (checkConstExpr_confined hpos e .i32) fun _ ↦ .pure _

/-- Each function of a segment is checked at its own place. -/
theorem elementEntry_confined (m : Module) : Confined hi m.elementEntry := by
  have hfunc : Confined hi (do
      let pos ← offset
      let index ← varuint32
      let _ ← m.requireFunc pos index
      return index) :=
    .offset_bind fun _ hpos ↦ .bind varuint32_lawful.confined fun index ↦
      .bind (requireFunc_confined hpos index) fun _ ↦ .pure _
  exact .bind (segmentTarget_confined _ _ _) fun _ ↦ .bind segmentOffset_confined fun _ ↦
    .bind (vector_confined hfunc) fun _ ↦ .pure _

/-- A body is compiled inside its own frame, and its errors are at offsets of the whole binary. -/
theorem codeEntry_confined (typeIndex : Nat) : Confined hi (m.codeEntry config typeIndex) := by
  refine .bind varuint32_lawful.confined fun size ↦ .sub_bind fun body hbody ↦ .within ?_ hbody
  exact .offset_bind fun _ hstart ↦ .bind (vector_confined localDecl_confined) fun decls ↦
    .bind (requireType_confined hstart typeIndex) fun type ↦ code_confined config m type decls

theorem codeSection_confined : Confined hi (m.codeSection config) := by
  have hentries (ts : List Nat) : Confined hi (m.codeEntries config ts) := by
    induction ts with
    | nil => exact .pure []
    | cons t ts ih => exact .bind (codeEntry_confined t) fun _ ↦ .bind ih fun _ ↦ .pure _
  exact .bind varuint32_lawful.confined fun _ ↦ .guard (fun _ ↦ below_unlocated rfl) <|
    .bind (hentries m.funcs) fun _ ↦ .pure _

theorem dataEntry_confined (m : Module) : Confined hi m.dataEntry :=
  .bind (segmentTarget_confined _ _ _) fun _ ↦ .bind segmentOffset_confined fun _ ↦
    .bind byteString_lawful.confined fun _ ↦ .pure _

/-- All sections report offsets inside the input. -/
theorem sectionPayload_confined (id : SectionId) : Confined hi (m.sectionPayload config id) := by
  cases id with
  | custom => exact .pure m
  | type => exact .bind (vector_lawful funcType_lawful).confined fun _ ↦ .pure _
  | imports => exact .counted importEntry_confined m
  | function => exact functionSection_confined
  | table => exact tableSection_confined
  | memory => exact memorySection_confined
  | global => exact .counted globalEntry_confined m
  | exports => exact .counted exportEntry_confined m
  | start => exact startSection_confined
  | element => exact .counted elementEntry_confined m
  | code => exact codeSection_confined
  | data => exact .counted dataEntry_confined m

end Module

/-! ## Binaries -/

namespace Reader

open DecodeError

variable {config : Config} {hi : Nat}

theorem preamble_confined : Confined hi preamble := by
  have hfixed : Confined hi (fixed 4) := (AllOrNothing.fixed 4).confined
  exact .bind hfixed fun _ ↦ .guard (fun _ ↦ below_unlocated rfl) <|
    .bind hfixed fun _ ↦ .ite (.throw (below_unlocated rfl)) (.pure _)

/-- Entries that reach beyond their section are reported where the section ends or before it. -/
theorem finishSection_confined (h : SectionHeader) : Confined hi (finishSection h) := by
  refine .offset_bind fun pos hpos ↦ .guard (fun hover ↦ ?_) <|
    .ite (AllOrNothing.skip _).confined (.pure _)
  -- Both ends are named, the declared one and the one that was reached.
  intro p hp
  obtain rfl | hp := List.mem_cons.mp hp
  · exact hpos
  · rw [List.mem_singleton.mp hp]
    exact Nat.le_trans (Nat.le_of_lt hover) hpos

theorem oneSection_confined (previous : Nat) (m : Module) :
    Confined hi (oneSection config previous m) :=
  .offset_bind fun _ hstart ↦ .bind sectionHeader_lawful.confined fun h ↦
    .ite (.bind (AllOrNothing.skip _).confined fun _ ↦ .pure _) <|
      .guard (fun _ ↦ below_located hstart rfl) <|
        .bind (Module.sectionPayload_confined h.id) fun _ ↦
          .bind (finishSection_confined h) fun _ ↦ .pure _

/-- Sections one after the other, by induction on the bytes that are left. -/
theorem allSections_confined (n previous : Nat) (m : Module) :
    Confined hi (allSections config n previous m) := by
  induction n generalizing previous m with
  | zero => exact .pure m
  | succ n ih =>
    exact .get_bind fun _ ↦ .ite (.pure m) (.bind (oneSection_confined previous m) fun r ↦
      ih r.1 r.2)

theorem module_confined : Confined hi (module config) :=
  .bind preamble_confined fun _ ↦ .get_bind fun c ↦
    .bind (allSections_confined c.remaining 0 {}) fun _ ↦
      .guard (fun _ ↦ below_unlocated rfl) (.pure _)

end Reader

/-- No error of decoding names an offset beyond the end of the binary. -/
theorem Module.decode_error_below {config : Config} {bytes : List UInt8} {e : DecodeError}
    (h : decode config bytes = .error e) : e.Below bytes.length := by
  have hconfined : Reader.Confined bytes.length (Reader.module config) := Reader.module_confined
  have hstop : (Cursor.ofBytes bytes).stop = bytes.length := Nat.zero_add _
  unfold decode at h
  split at h
  · cases h
  · rename_i e' c hrun
    obtain rfl := Except.error.inj h
    exact (hconfined _ hstop).of_error hrun

namespace Reader

/-- Readers are local, make progress and stay in range: each basic reader is lawful, on any cursor.
Blocks of any length are taken whole or not at all. Cursors over frames within frames show parts of
the outer input where they stand in it, so the offsets that are named through them are those of the
whole. Hence no error about a binary names an offset behind its end. -/
theorem binary_layer_lawful :
    (∀ {α : Type} {r : Reader α}, Basic r → Lawful r) ∧
    (AllOrNothing 1 byte ∧ ∀ n, AllOrNothing n (bytes n) ∧ AllOrNothing n (fixed n) ∧
      AllOrNothing n (skip n) ∧ AllOrNothing n (sub n)) ∧
    (∀ {outer inner : Cursor}, outer.Nested inner →
      ∃ k n, k + n ≤ outer.remaining ∧ inner = (outer.advance k).bounded n) ∧
    ∀ (config : Config) (bytes : List UInt8) (e : DecodeError),
      Module.decode config bytes = .error e → ∀ pos ∈ e.offsets, pos ≤ bytes.length :=
  ⟨fun h ↦ h.lawful,
    ⟨.byte, fun n ↦ ⟨.bytes n, .fixed n, .skip n, .sub n⟩⟩,
    fun h ↦ h.window,
    fun _ _ _ h ↦ Module.decode_error_below h⟩

/-- In a frame within a frame, two vectors are announced, and the second of them to have more items
than there are bytes. The error is at the end of the inner frame, which the outer input goes beyond.
A section that is read too far reaches the end of the binary. -/
theorem announced_items_in_range :
    Cursor.Nested ⟨3, [0xaa, 0x02, 0x01, 0x05, 0xff, 0xff, 0xff, 0xff, 0x0f, 0x07, 0x2a]⟩
      ⟨4, [0x02, 0x01, 0x05, 0xff, 0xff, 0xff, 0xff, 0x0f]⟩ ∧
    (∃ k n, k + n ≤ 11 ∧ (⟨4, [0x02, 0x01, 0x05, 0xff, 0xff, 0xff, 0xff, 0x0f]⟩ : Cursor) =
      (Cursor.advance ⟨3, [0xaa, 0x02, 0x01, 0x05, 0xff, 0xff, 0xff, 0xff, 0x0f, 0x07, 0x2a]⟩
        k).bounded n) ∧
    (vector (vector varuint7)).run ⟨4, [0x02, 0x01, 0x05, 0xff, 0xff, 0xff, 0xff, 0x0f]⟩ =
      .error (.located 12 .unexpectedEnd) ⟨12, []⟩ ∧
    DecodeError.Within 4 12 (.located 12 .unexpectedEnd) ∧
    Module.decode {} [0x00, 0x61, 0x73, 0x6d, 0x01, 0x00, 0x00, 0x00, 0x01, 0x01, 0x01, 0x60,
      0x00, 0x00] = .error (.located 14 (.sectionOverrun 1 11)) ∧
    ∀ pos ∈ [14, 11], pos ≤ 14 := by
  obtain ⟨hlawful, -, hwindow, hdecode⟩ := binary_layer_lawful
  have hframe : Cursor.Nested
      ⟨3, [0xaa, 0x02, 0x01, 0x05, 0xff, 0xff, 0xff, 0xff, 0x0f, 0x07, 0x2a]⟩
      ⟨3, [0xaa, 0x02, 0x01, 0x05, 0xff, 0xff, 0xff, 0xff, 0x0f, 0x07]⟩ :=
    .frame (n := 10) .whole rfl
  have hinner : Cursor.Nested
      ⟨3, [0xaa, 0x02, 0x01, 0x05, 0xff, 0xff, 0xff, 0xff, 0x0f, 0x07, 0x2a]⟩
      ⟨4, [0x02, 0x01, 0x05, 0xff, 0xff, 0xff, 0xff, 0x0f]⟩ :=
    .frame (n := 8) (.further hframe ⟨1, by decide, rfl⟩) rfl
  have hitems : Lawful (vector (vector varuint7)) :=
    hlawful (.vector (hlawful (.vector (hlawful .varuint7))))
  have hrun : (vector (vector varuint7)).run
      ⟨4, [0x02, 0x01, 0x05, 0xff, 0xff, 0xff, 0xff, 0x0f]⟩ =
        .error (.located 12 .unexpectedEnd) ⟨12, []⟩ := rfl
  have hoverrun : Module.decode {} [0x00, 0x61, 0x73, 0x6d, 0x01, 0x00, 0x00, 0x00, 0x01, 0x01,
      0x01, 0x60, 0x00, 0x00] = .error (.located 14 (.sectionOverrun 1 11)) := rfl
  exact ⟨hinner, hwindow hinner, hrun, (hitems.error hrun).2, hoverrun, hdecode _ _ _ hoverrun⟩

end Reader

end WasmEngine
