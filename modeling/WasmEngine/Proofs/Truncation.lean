import WasmEngine.Proofs.Framing

/-!
# Truncation

A binary that is cut short is reported to end too early just if the cut is not between two of its
sections. Readers are what makes it so: they go through their input byte by byte and look at
nothing that they do not pass over. `Reader.Streams` says this of a reader and is built up along
it. The sections of a binary are read one after the other, and the end of the input is looked for
between them only.
-/

namespace WasmEngine

/-- A list that begins what two lists make ends within the first of them, or has all of it. -/
theorem prefix_append_split {α : Type} {p xs ys : List α} (h : p <+: xs ++ ys) :
    (p <+: xs ∧ p ≠ xs) ∨ ∃ q, p = xs ++ q ∧ q <+: ys := by
  by_cases hxs : xs <+: p
  · obtain ⟨q, rfl⟩ := hxs
    exact .inr ⟨q, rfl, (List.prefix_append_right_inj xs).mp h⟩
  · have hp : p <+: xs :=
      (List.prefix_or_prefix_of_prefix h (List.prefix_append xs ys)).resolve_right hxs
    exact .inl ⟨hp, fun heq ↦ hxs (heq ▸ List.prefix_refl p)⟩

namespace Reader

open Cursor

variable {α β : Type}

/-- The reader comes to the end of the input and wants more. -/
def RunsOut (r : Reader α) (c : Cursor) : Prop :=
  ∃ pos c', r.run c = .error (.located pos .unexpectedEnd) c'

/-- At the offset `pos` the reader takes `bs` to give `a`: whatever follows these bytes does not
matter, and none of them may be missing. -/
structure Takes (r : Reader α) (pos : Nat) (bs : List UInt8) (a : α) : Prop where
  run (rest : List UInt8) : r.run ⟨pos, bs ++ rest⟩ = .ok a ⟨pos + bs.length, rest⟩
  runsOut {p : List UInt8} : p <+: bs → p ≠ bs → r.RunsOut ⟨pos, p⟩

/-- A result of the reader hangs on the bytes that it passes over, and on all of them. -/
def Streams (r : Reader α) : Prop :=
  ∀ c a c', r.run c = .ok a c' → ∃ bs, c.Spans bs c' ∧ r.Takes c.offset bs a

namespace RunsOut

variable {r : Reader α} {f : α → Reader β} {c c' : Cursor}

/-- A program runs out of input if its first part does. -/
theorem bind_left (h : r.RunsOut c) : (r >>= f).RunsOut c := by
  obtain ⟨pos, c', hrun⟩ := h
  exact ⟨pos, c', by rw [EStateM.run_bind, hrun]⟩

/-- If the first part is through, it is up to the rest. -/
theorem bind_iff {a : α} (hr : r.run c = .ok a c') :
    (r >>= f).RunsOut c ↔ (f a).RunsOut c' := by
  have hrun : (r >>= f).run c = (f a).run c' := by rw [EStateM.run_bind, hr]
  rw [RunsOut, RunsOut, hrun]

end RunsOut

namespace Takes

variable {pos : Nat} {bs bs' : List UInt8} {a : α} {b : β}

/-- A reader that moves nothing takes no bytes, and none can be missing. -/
theorem of_nil {r : Reader α} (h : ∀ rest, r.run ⟨pos, rest⟩ = .ok a ⟨pos, rest⟩) :
    r.Takes pos [] a where
  run := h
  runsOut hp hne := absurd (List.prefix_nil.mp hp) hne

/-- What two readers take, one after the other. If a byte is missing, it is one of the first or one
of the second. -/
theorem bind {r : Reader α} {f : α → Reader β} (hr : r.Takes pos bs a)
    (hf : (f a).Takes (pos + bs.length) bs' b) : (r >>= f).Takes pos (bs ++ bs') b where
  run rest := by
    rw [List.append_assoc, List.length_append, ← Nat.add_assoc]
    exact run_bind_eq_ok.mpr ⟨a, _, hr.run _, hf.run rest⟩
  runsOut hp hne := by
    obtain ⟨hp, hne⟩ | ⟨q, rfl, hq⟩ := prefix_append_split hp
    · exact (hr.runsOut hp hne).bind_left
    · exact (RunsOut.bind_iff (hr.run q)).mpr (hf.runsOut hq fun heq ↦ hne (heq ▸ rfl))

/-- A string is taken as a whole, and not if a byte of it is missing. -/
theorem bytes (pos : Nat) (bs : List UInt8) : (bytes bs.length).Takes pos bs bs where
  run rest := (Reads.bytes _ _ _ _).mpr ⟨bs, ⟨rfl, rfl⟩, rfl, rfl⟩
  runsOut {p} hp hne := by
    have hshort : ¬bs.length ≤ p.length := fun hle ↦ hne (hp.eq_of_length_le hle)
    exact ⟨pos, ⟨pos, p⟩, if_neg hshort⟩

end Takes

namespace Streams

theorem pure (a : α) : Streams (pure a) := by
  intro c b c' hrun
  obtain ⟨rfl, rfl⟩ := run_pure_eq_ok.mp hrun
  exact ⟨[], spans_nil.mpr rfl, .of_nil fun _ ↦ rfl⟩

/-- Readers stream together if each of them does. -/
theorem bind {r : Reader α} {f : α → Reader β} (hr : Streams r) (hf : ∀ a, Streams (f a)) :
    Streams (r >>= f) := by
  intro c b c'' hrun
  obtain ⟨a, c', hfirst, hrest⟩ := run_bind_eq_ok.mp hrun
  obtain ⟨bs, hspans, htakes⟩ := hr c a c' hfirst
  obtain ⟨bs', hspans', htakes'⟩ := hf a c' b c'' hrest
  rw [hspans.2] at htakes'
  exact ⟨bs ++ bs', spans_append.mpr ⟨c', hspans, hspans'⟩, htakes.bind htakes'⟩

/-- Where there is no result, nothing hangs on any bytes. -/
theorem throw (e : DecodeError) : Streams (throw e : Reader α) :=
  fun _ _ _ hrun ↦ (run_throw_eq_ok.mp hrun).elim

theorem failAt (pos : Nat) (fault : Fault) : Streams (failAt pos fault : Reader α) := throw _

/-- A test of what has been read already. -/
theorem ite {p : Prop} [Decidable p] {r r' : Reader α} (hr : Streams r) (hr' : Streams r') :
    Streams (if p then r else r') := by
  split
  · exact hr
  · exact hr'

/-- A check that fails under the condition `p`, and then the rest. -/
theorem guard {p : Prop} [Decidable p] {e : DecodeError} {f : Unit → Reader α}
    (hf : Streams (f ())) : Streams (if p then MonadExcept.throw e >>= f else f ()) :=
  ite (bind (throw e) fun _ ↦ hf) hf

theorem offset : Streams offset := by
  intro c pos c' hrun
  obtain ⟨rfl, rfl⟩ := run_offset_eq_ok.mp hrun
  exact ⟨[], spans_nil.mpr rfl, .of_nil fun _ ↦ rfl⟩

/-- A part that has been cut off is read without the input itself. -/
theorem within (inner : Cursor) (r : Reader α) : Streams (within inner r) := by
  intro c a c' hrun
  obtain ⟨rfl, c₁, hinner⟩ := run_within_eq_ok.mp hrun
  exact ⟨[], spans_nil.mpr rfl, .of_nil fun _ ↦ run_within_eq_ok.mpr ⟨rfl, c₁, hinner⟩⟩

theorem byte : Streams byte := by
  rintro ⟨pos, rest⟩ b c' hrun
  cases rest with
  | nil => cases hrun
  | cons b rest =>
    cases hrun
    refine ⟨[b], ⟨rfl, rfl⟩, fun _ ↦ rfl, fun {p} hp hne ↦ ?_⟩
    obtain rfl | ⟨q, rfl, hq⟩ := List.prefix_cons_iff.mp hp
    · exact ⟨pos, ⟨pos, []⟩, rfl⟩
    · exact absurd (List.prefix_nil.mp hq ▸ rfl) hne

theorem bytes (n : Nat) : Streams (bytes n) := by
  intro c bs c' hrun
  obtain ⟨_, ⟨rfl, rfl⟩, hspans⟩ := (Reads.bytes n c bs c').mp hrun
  exact ⟨_, hspans, .bytes _ _⟩

theorem skip (n : Nat) : Streams (skip n) := bind (bytes n) fun _ ↦ pure _

theorem fixed (n : Nat) : Streams (fixed n) := bind (bytes n) fun _ ↦ pure _

/-- Cutting off a part takes all bytes of the part. -/
theorem sub (n : Nat) : Streams (sub n) := by
  intro c inner c' hrun
  obtain ⟨_, _, hget, hrun⟩ := run_bind_eq_ok.mp hrun
  obtain ⟨rfl, rfl⟩ := run_get_eq_ok.mp hget
  obtain ⟨_, c₁, hbytes, hrun⟩ := run_bind_eq_ok.mp hrun
  obtain ⟨rfl, rfl⟩ := run_pure_eq_ok.mp hrun
  obtain ⟨bs, ⟨rfl, rfl⟩, hspans⟩ := (Reads.bytes n c _ c₁).mp hbytes
  have htakes := Takes.bytes c.offset bs
  refine ⟨bs, hspans, fun rest ↦ ?_, fun hp hne ↦ ?_⟩
  · -- The cursor over the bytes holds nothing of what comes after them.
    have hinner : bounded ⟨c.offset, bs ++ rest⟩ bs.length = c.bounded bs.length := by
      rw [bounded, bounded, hspans.1, List.take_left, List.take_left]
    exact run_bind_eq_ok.mpr ⟨_, _, rfl, run_bind_eq_ok.mpr ⟨bs, _, htakes.run rest,
      run_pure_eq_ok.mpr ⟨hinner, rfl⟩⟩⟩
  · exact (RunsOut.bind_iff rfl).mpr (htakes.runsOut hp hne).bind_left

/-- Items one after the other, by induction on how many are to come. -/
theorem repeated {item : Reader α} (hitem : Streams item) (n : Nat) :
    Streams (repeated item n) := by
  induction n with
  | zero => exact pure []
  | succ n ih => exact bind hitem fun a ↦ bind ih fun as ↦ pure (a :: as)

/-- Entries that each go on from what the one before it made. -/
theorem entries {entry : α → Reader α} (hentry : ∀ a, Streams (entry a)) (n : Nat) (a : α) :
    Streams (entries entry n a) := by
  induction n generalizing a with
  | zero => exact pure a
  | succ n ih => exact bind (hentry a) ih

theorem forM {f : α → Reader PUnit} (hf : ∀ a, Streams (f a)) (as : List α) :
    Streams (as.forM f) := by
  induction as with
  | nil => exact pure _
  | cons a as ih => exact bind (hf a) fun _ ↦ ih

/-- An exact reader takes what its grammar spells. -/
theorem takes {r : Reader α} {G : Grammar α} (hr : Streams r) (hG : Reads r G) {a : α}
    {bs : List UInt8} (h : G a bs) (pos : Nat) : r.Takes pos bs a := by
  have hrun : r.run ⟨pos, bs⟩ = .ok a ⟨pos + bs.length, []⟩ :=
    (hG _ _ _).mpr ⟨bs, h, (List.append_nil bs).symm, rfl⟩
  obtain ⟨bs', hspans, htakes⟩ := hr _ _ _ hrun
  have heq : bs = bs' := hspans.1.trans (List.append_nil bs')
  exact heq ▸ htakes

end Streams

/-! ## Numbers, names and types -/

/-- An integer ends with its own last byte, so that what follows does not matter. -/
theorem unsignedTail_streams (start n : Nat) : Streams (unsignedTail start n) := by
  induction n with
  | zero => exact .bind .byte fun _ ↦ .ite (.pure _) (.failAt _ _)
  | succ n ih => exact .bind .byte fun _ ↦ .ite (.bind ih fun _ ↦ .pure _) (.pure _)

theorem varuint32_streams : Streams varuint32 :=
  .bind .offset fun start ↦ unsignedTail_streams start 4

theorem signedTail_streams (start n : Nat) : Streams (signedTail start n) := by
  induction n with
  | zero => exact .bind .byte fun _ ↦ .ite (.pure _) (.failAt _ _)
  | succ n ih => exact .bind .byte fun _ ↦ .ite (.bind ih fun _ ↦ .pure _) (.pure _)

theorem varint32_streams : Streams varint32 :=
  .bind .offset fun start ↦ signedTail_streams start 4

/-- A flag is an integer first, and only then found to be one bit. -/
theorem varuint1_streams : Streams varuint1 := by
  refine .bind .offset fun _ ↦ .bind varuint32_streams fun n ↦ ?_
  split
  · exact .pure false
  · exact .pure true
  · exact .failAt _ _

theorem varuint7_streams : Streams varuint7 :=
  .bind .offset fun _ ↦ .bind varuint32_streams fun _ ↦ .ite (.pure _) (.failAt _ _)

theorem varint7_streams : Streams varint7 :=
  .bind .offset fun _ ↦ .bind varint32_streams fun _ ↦ .ite (.pure _) (.failAt _ _)

/-- A vector that is cut short lacks its count or an item. -/
theorem vector_streams {item : Reader α} (hitem : Streams item) : Streams (vector item) :=
  .bind varuint32_streams fun n ↦ hitem.repeated n

theorem counted_streams {entry : α → Reader α} (hentry : ∀ a, Streams (entry a)) (a : α) :
    Streams (counted entry a) :=
  .bind varuint32_streams fun n ↦ .entries hentry n a

theorem byteString_streams : Streams byteString := .bind varuint32_streams fun n ↦ .bytes n

/-- Whether a name is UTF-8 is only asked when all its bytes are there. -/
theorem name_streams : Streams name := by
  refine .bind .offset fun _ ↦ .bind byteString_streams fun bs ↦ ?_
  split
  · exact .pure _
  · exact .failAt _ _

theorem valueType_streams : Streams valueType := by
  refine .bind .offset fun _ ↦ .bind varint7_streams fun _ ↦ ?_
  split
  · exact .pure _
  · exact .failAt _ _

theorem elemType_streams : Streams elemType :=
  .bind .offset fun _ ↦ .bind varint7_streams fun _ ↦ .ite (.pure _) (.failAt _ _)

theorem externKind_streams : Streams externKind := by
  refine .bind .offset fun _ ↦ .bind .byte fun b ↦ ?_
  split
  · exact .pure _
  · exact .pure _
  · exact .pure _
  · exact .pure _
  · exact .failAt _ _

/-- Whether there is a maximum to read is settled by a byte before it. -/
theorem limits_streams : Streams limits :=
  .bind .offset fun _ ↦ .bind varuint1_streams fun _ ↦ .bind varuint32_streams fun _ ↦
    .ite (.bind varuint32_streams fun _ ↦ .guard (.pure _)) (.pure _)

theorem funcType_streams : Streams funcType :=
  .bind .offset fun _ ↦ .bind varint7_streams fun _ ↦ .guard <|
    .bind (vector_streams valueType_streams) fun _ ↦ .bind varuint1_streams fun _ ↦
      .ite (.bind valueType_streams fun _ ↦ .pure _) (.pure _)

theorem tableType_streams : Streams tableType := .bind elemType_streams fun _ ↦ limits_streams

theorem memoryType_streams : Streams memoryType :=
  .bind .offset fun _ ↦ .bind limits_streams fun _ ↦ .guard (.pure _)

theorem globalType_streams : Streams globalType :=
  .bind valueType_streams fun _ ↦ .bind varuint1_streams fun _ ↦ .pure _

/-- The opcode of an initializer says what follows. -/
theorem initializer_streams (start : Nat) : Streams (initializer start) := by
  refine .bind .byte fun opcode ↦ ?_
  split
  · exact .bind varint32_streams fun _ ↦ .pure _
  · exact .bind .offset fun _ ↦ .failAt _ _
  · exact .bind (.fixed 4) fun _ ↦ .pure _
  · exact .bind (.fixed 8) fun _ ↦ .pure _
  · exact .bind varuint32_streams fun _ ↦ .pure _
  · exact .failAt _ _

theorem constExpr_streams : Streams constExpr :=
  .bind .offset fun start ↦ .bind (initializer_streams start) fun _ ↦ .bind .byte fun _ ↦
    .guard (.pure _)

/-- A header tells the length of what follows, but does not look at it. -/
theorem sectionHeader_streams : Streams sectionHeader := by
  refine .bind .offset fun _ ↦ .bind varuint7_streams fun _ ↦ ?_
  split
  · exact .failAt _ _
  · exact .bind varuint32_streams fun _ ↦ .bind .offset fun _ ↦ .pure _

end Reader

namespace Module

open Reader

variable {config : Config} {m : Module}

/-! ## Sections -/

theorem requireType_streams (pos index : Nat) : Streams (m.requireType pos index) := by
  unfold requireType
  split
  · exact .pure _
  · exact .failAt _ _

theorem requireFunc_streams (pos index : Nat) : Streams (m.requireFunc pos index) := by
  unfold requireFunc
  split
  · exact .pure _
  · exact .failAt _ _

theorem checkSingletons_streams (pos : Nat) : Streams (m.checkSingletons pos) := by
  unfold checkSingletons
  exact .guard (.ite (.failAt _ _) (.pure _))

/-- A check of what has been read takes no bytes. -/
theorem checkConstExpr_streams (pos : Nat) (e : ConstExpr) (t : ValueType) :
    Streams (m.checkConstExpr pos e t) := by
  have htype : Streams (m.constExprType pos e) := by
    cases e with
    | value v => exact .pure v.type
    | globalGet index =>
      simp only [constExprType]
      refine .guard ?_
      split
      · exact .pure _
      · exact .failAt _ _
  exact .bind htype fun _ ↦ .ite (.failAt _ _) (.pure _)

/-- The kind of an import says what follows. -/
theorem importDesc_streams (start : Nat) : Streams (m.importDesc start) := by
  refine .bind externKind_streams fun kind ↦ ?_
  split
  · exact .bind varuint32_streams fun index ↦
      .bind (requireType_streams start index) fun _ ↦ .pure _
  · exact .bind tableType_streams fun _ ↦ .pure _
  · exact .bind memoryType_streams fun _ ↦ .pure _
  · exact .bind globalType_streams fun _ ↦ .pure _

theorem importEntry_streams (m : Module) : Streams m.importEntry :=
  .bind .offset fun start ↦ .bind name_streams fun _ ↦ .bind name_streams fun _ ↦
    .bind (importDesc_streams start) fun _ ↦ .bind (checkSingletons_streams start) fun _ ↦ .pure _

/-- All indices are read before any of them is checked. -/
theorem functionSection_streams : Streams m.functionSection := by
  have hindex : Streams (do
      let pos ← offset
      let index ← varuint32
      return (pos, index)) :=
    .bind .offset fun _ ↦ .bind varuint32_streams fun _ ↦ .pure _
  have hcheck (p : Nat × Nat) : Streams (do let _ ← m.requireType p.1 p.2) :=
    .bind (requireType_streams p.1 p.2) fun _ ↦ .pure _
  exact .bind (vector_streams hindex) fun indices ↦ .bind (.forM hcheck indices) fun _ ↦ .pure _

theorem tableSection_streams : Streams m.tableSection :=
  .bind .offset fun start ↦ .bind (vector_streams tableType_streams) fun _ ↦
    .bind (checkSingletons_streams start) fun _ ↦ .pure _

theorem memorySection_streams : Streams m.memorySection :=
  .bind .offset fun start ↦ .bind (vector_streams memoryType_streams) fun _ ↦
    .bind (checkSingletons_streams start) fun _ ↦ .pure _

theorem globalEntry_streams (m : Module) : Streams m.globalEntry :=
  .bind globalType_streams fun type ↦ .bind .offset fun pos ↦ .bind constExpr_streams fun init ↦
    .bind (checkConstExpr_streams pos init type.type) fun _ ↦ .pure _

/-- An entry is read as a whole before it is checked. -/
theorem exportEntry_streams (m : Module) : Streams m.exportEntry :=
  .bind name_streams fun _ ↦ .bind .offset fun _ ↦ .bind externKind_streams fun _ ↦
    .bind varuint32_streams fun _ ↦ .guard (.guard (.pure _))

theorem startSection_streams : Streams m.startSection :=
  .bind .offset fun pos ↦ .bind varuint32_streams fun index ↦
    .bind (requireFunc_streams pos index) fun _ ↦ .guard (.pure _)

theorem segmentTarget_streams (place : ReservedIndex) (space : IndexSpace) (available : Nat) :
    Streams (segmentTarget place space available) :=
  .bind .offset fun _ ↦ .bind varuint32_streams fun _ ↦ .guard (.ite (.failAt _ _) (.pure _))

theorem segmentOffset_streams : Streams m.segmentOffset :=
  .bind .offset fun pos ↦ .bind constExpr_streams fun e ↦
    .bind (checkConstExpr_streams pos e .i32) fun _ ↦ .pure _

/-- A segment ends with its last function. -/
theorem elementEntry_streams (m : Module) : Streams m.elementEntry := by
  have hfunc : Streams (do
      let pos ← offset
      let index ← varuint32
      let _ ← m.requireFunc pos index
      return index) :=
    .bind .offset fun pos ↦ .bind varuint32_streams fun index ↦
      .bind (requireFunc_streams pos index) fun _ ↦ .pure _
  exact .bind (segmentTarget_streams _ _ _) fun _ ↦ .bind segmentOffset_streams fun _ ↦
    .bind (vector_streams hfunc) fun _ ↦ .pure _

/-- What the bytes of a body mean is not looked at before all of them are there. -/
theorem codeEntry_streams (typeIndex : Nat) : Streams (m.codeEntry config typeIndex) :=
  .bind varuint32_streams fun size ↦ .bind (.sub size) fun body ↦ .within body _

/-- Bodies have frames of their own, each of them as long as its size says. -/
theorem codeSection_streams : Streams (m.codeSection config) := by
  have hentries (ts : List Nat) : Streams (m.codeEntries config ts) := by
    induction ts with
    | nil => exact .pure []
    | cons t ts ih => exact .bind (codeEntry_streams t) fun _ ↦ .bind ih fun _ ↦ .pure _
  exact .bind varuint32_streams fun _ ↦ .guard (.bind (hentries m.funcs) fun _ ↦ .pure _)

theorem dataEntry_streams (m : Module) : Streams m.dataEntry :=
  .bind (segmentTarget_streams _ _ _) fun _ ↦ .bind segmentOffset_streams fun _ ↦
    .bind byteString_streams fun _ ↦ .pure _

/-- No section looks beyond its last entry. -/
theorem sectionPayload_streams (id : SectionId) : Streams (m.sectionPayload config id) := by
  cases id with
  | custom => exact .pure m
  | type => exact .bind (vector_streams funcType_streams) fun _ ↦ .pure _
  | imports => exact counted_streams importEntry_streams m
  | function => exact functionSection_streams
  | table => exact tableSection_streams
  | memory => exact memorySection_streams
  | global => exact counted_streams globalEntry_streams m
  | exports => exact counted_streams exportEntry_streams m
  | start => exact startSection_streams
  | element => exact counted_streams elementEntry_streams m
  | code => exact codeSection_streams
  | data => exact counted_streams dataEntry_streams m

theorem upTo_empty : ({} : Module).upTo 0 = {} := rfl

end Module

namespace Reader

variable {config : Config}

theorem preamble_streams : Streams preamble :=
  .bind (.fixed 4) fun _ ↦ .guard (.bind (.fixed 4) fun _ ↦ .ite (.throw _) (.pure _))

/-- What is left of a section is skipped, and must be there. -/
theorem finishSection_streams (h : SectionHeader) : Streams (finishSection h) :=
  .bind .offset fun _ ↦ .guard (.ite (.skip _) (.pure _))

/-- A section with its header is one piece of the input. -/
theorem oneSection_streams (previous : Nat) (m : Module) :
    Streams (oneSection config previous m) :=
  .bind .offset fun _ ↦ .bind sectionHeader_streams fun h ↦
    .ite (.bind (.skip _) fun _ ↦ .pure _) <| .guard <|
      .bind (Module.sectionPayload_streams h.id) fun _ ↦
        .bind (finishSection_streams h) fun _ ↦ .pure _

/-! ## Cuts -/

/-- A section that makes a module is taken as a whole. -/
theorem SectionMakes.takes {previous p : Nat} {m₀ m : Module} {f : SectionFrame}
    (h : SectionMakes config previous m₀ f p m) (hm₀ : m₀.upTo previous = m₀) (pos : Nat) :
    (oneSection config previous m₀).Takes pos f.bytes (p, m) :=
  (oneSection_streams previous m₀).takes (oneSection_reads hm₀) ⟨f, rfl, h⟩ pos

/-- The first sections of a binary make a module by themselves. -/
theorem SectionsMake.take {previous : Nat} {m₀ m : Module} {fs : List SectionFrame}
    (h : SectionsMake config previous m₀ fs m) (k : Nat) :
    ∃ m', SectionsMake config previous m₀ (fs.take k) m' := by
  induction h generalizing k with
  | done => exact ⟨_, by rw [List.take_nil]; exact .done⟩
  | next hmakes _ ih =>
    cases k with
    | zero => exact ⟨_, .done⟩
    | succ k =>
      obtain ⟨m', hmake⟩ := ih k
      exact ⟨m', .next hmakes hmake⟩

/-- Before the end of the input there is a section to be read. -/
theorem run_allSections_succ {n previous : Nat} {m : Module} {c : Cursor} (hne : c.rest ≠ []) :
    (allSections config (n + 1) previous m).run c =
      (oneSection config previous m >>= fun r ↦ allSections config n r.1 r.2).run c := by
  have hisEnd : ¬c.isEnd = true := fun h ↦ hne (List.isEmpty_iff.mp h)
  simp only [allSections, EStateM.run_bind, EStateM.run_get, if_neg hisEnd]

/-- As long as there is input, another section is read. -/
theorem runsOut_allSections {n previous : Nat} {m : Module} {c : Cursor} (hne : c.rest ≠ []) :
    (allSections config (n + 1) previous m).RunsOut c ↔
      (oneSection config previous m >>= fun r ↦ allSections config n r.1 r.2).RunsOut c := by
  rw [RunsOut, RunsOut, run_allSections_succ hne]

/-- Sections that are cut elsewhere than between two of them end too early. -/
theorem SectionsMake.runsOut {previous : Nat} {m₀ m : Module} {fs : List SectionFrame}
    (h : SectionsMake config previous m₀ fs m) (hm₀ : m₀.upTo previous = m₀) {p : List UInt8}
    (hp : p <+: fs.flatMap SectionFrame.bytes)
    (hcut : ∀ k, p ≠ (fs.take k).flatMap SectionFrame.bytes) {n : Nat} (hn : p.length ≤ n)
    (pos : Nat) : (allSections config n previous m₀).RunsOut ⟨pos, p⟩ := by
  induction h generalizing p n pos with
  | done => exact absurd (List.prefix_nil.mp hp) (hcut 0)
  | @next previous p' m₀ m₁ m f fs hmakes hmake ih =>
    have hne : p ≠ [] := hcut 0
    cases n with
    | zero => exact absurd (List.length_eq_zero_iff.mp (Nat.le_zero.mp hn)) hne
    | succ n =>
      have htakes := hmakes.takes hm₀ pos
      rw [runsOut_allSections hne]
      obtain ⟨hp, hne⟩ | ⟨q, rfl, hq⟩ := prefix_append_split hp
      · exact (htakes.runsOut hp hne).bind_left
      · refine (RunsOut.bind_iff (htakes.run q)).mpr (ih (hmakes.upTo_eq hm₀) hq ?_ ?_ _)
        · intro k heq
          exact hcut (k + 1) (congrArg (f.bytes ++ ·) heq)
        · have hpos := List.length_pos_of_ne_nil f.bytes_ne_nil
          rw [List.length_append] at hn
          omega

theorem preamble_takes : preamble.Takes 0 preambleBytes () :=
  preamble_streams.takes preamble_reads rfl 0

/-- A binary that is cut inside a section runs out of input there. The sections before the cut are
read as before, by induction on them. -/
theorem module_runsOut {m : Module} {fs : List SectionFrame} (h : SectionsMake config 0 {} fs m)
    {p : List UInt8} (hp : p <+: binaryOf fs) (hcut : ∀ k, p ≠ binaryOf (fs.take k)) :
    (module config).RunsOut (.ofBytes p) := by
  obtain ⟨hp, hne⟩ | ⟨q, rfl, hq⟩ := prefix_append_split hp
  · exact (preamble_takes.runsOut hp hne).bind_left
  · have hcut' (k : Nat) : q ≠ (fs.take k).flatMap SectionFrame.bytes :=
      fun heq ↦ hcut k (congrArg (preambleBytes ++ ·) heq)
    have hsections :=
      h.runsOut Module.upTo_empty hq hcut' (Nat.le_refl _) (0 + preambleBytes.length)
    exact (RunsOut.bind_iff (preamble_takes.run q)).mpr
      ((RunsOut.bind_iff rfl).mpr hsections.bind_left)

/-- At the end of its sections a binary may lack bodies, but it does not end too early. -/
theorem module_not_runsOut {m : Module} {fs : List SectionFrame}
    (h : SectionsMake config 0 {} fs m) : ¬(module config).RunsOut (.ofBytes (binaryOf fs)) := by
  intro hend
  let c : Cursor := ⟨0 + preambleBytes.length, fs.flatMap SectionFrame.bytes⟩
  let c' : Cursor := ⟨c.offset + (fs.flatMap SectionFrame.bytes).length, []⟩
  have hsections : (allSections config c.remaining 0 {}).run c = .ok m c' :=
    (allSections_reads Module.upTo_empty (Nat.le_refl _)).mpr
      ⟨rfl, fs, ⟨(List.append_nil _).symm, rfl⟩, h⟩
  have hend := (RunsOut.bind_iff rfl).mp ((RunsOut.bind_iff (preamble_takes.run _)).mp hend)
  obtain ⟨pos, c'', hrun⟩ := (RunsOut.bind_iff hsections).mp hend
  rw [run_ite] at hrun
  split at hrun
  · cases hrun
  · cases hrun

end Reader

namespace Module

open Reader

/-- An unexpected end is reported just if a reader wants more than there is. -/
theorem decode_eq_unexpectedEnd_iff {config : Config} {bytes : List UInt8} :
    (∃ pos, decode config bytes = .error (.located pos .unexpectedEnd)) ↔
      (Reader.module config).RunsOut (.ofBytes bytes) := by
  unfold decode RunsOut
  cases (Reader.module config).run (.ofBytes bytes) <;> simp

/-- A binary that is cut short is reported to end too early just if the cut is neither at the end
of the preamble nor at the end of a section. -/
theorem decode_truncated_iff {config : Config} {bytes : List UInt8} {m : Module}
    (hdecode : decode config bytes = .ok m) : ∃ fs, bytes = binaryOf fs ∧ ∀ p, p <+: bytes →
      ((∃ pos, decode config p = .error (.located pos .unexpectedEnd)) ↔
        ∀ k, p ≠ binaryOf (fs.take k)) := by
  obtain ⟨⟨fs, rfl, hspelled⟩, hwellFormed⟩ := decode_eq_ok_iff.mp hdecode
  obtain ⟨hspelled, -⟩ := spelledFrom_zero_iff.mpr ⟨hspelled, hwellFormed⟩
  have hmake : SectionsMake config 0 {} fs m :=
    (sectionsMake_iff (Nat.zero_le _) upTo_empty).mpr ⟨rfl, hspelled⟩
  refine ⟨fs, rfl, fun p hp ↦ ?_⟩
  rw [decode_eq_unexpectedEnd_iff]
  constructor
  · rintro hend k rfl
    obtain ⟨m', hmake'⟩ := hmake.take k
    exact module_not_runsOut hmake' hend
  · intro hcut
    exact module_runsOut hmake hp hcut

end Module

/-- A module with one function that is cut within its last section. -/
theorem plainBinary_decode_truncated : (∃ m, Module.decode {} plainBinary = .ok m) ∧
    plainBinary.take 20 <+: plainBinary ∧ ∃ pos,
      Module.decode {} (plainBinary.take 20) = .error (.located pos .unexpectedEnd) := by
  have hp : plainBinary.take 20 <+: plainBinary := List.take_prefix 20 plainBinary
  have hdecodes : (Module.decode {} plainBinary).toOption.isSome = true := by decide +kernel
  obtain ⟨m, hm⟩ := Option.isSome_iff_exists.mp hdecodes
  have hdecode : Module.decode {} plainBinary = .ok m := except_toOption_eq_some hm
  obtain ⟨fs, hbytes, hcut⟩ := Module.decode_truncated_iff hdecode
  obtain rfl := binaryOf_injective hbytes
  refine ⟨⟨m, hdecode⟩, hp, (hcut _ hp).mpr fun k heq ↦ ?_⟩
  -- The ends of the preamble and of the sections are after 8, 14, 18 and 24 bytes.
  have hlength := congrArg List.length heq
  match k with
  | 0 => cases hlength
  | 1 => cases hlength
  | 2 => cases hlength
  | k + 3 =>
    simp only [List.take_succ_cons, List.take_nil] at hlength
    cases hlength

end WasmEngine
