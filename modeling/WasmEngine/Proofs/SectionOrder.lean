import WasmEngine.Proofs.Faults
import WasmEngine.Proofs.Truncation

/-!
# The order of sections

Sections other than custom ones come in ascending order of their numbers. A binary is reported to
break that order just if one of its sections does and each section before that one decodes, whether
in its frame alone or in the whole binary: a reader looks at no bytes beyond those it takes, and one
that takes more than its frame holds is stopped at the end of the frame. The report is about the
first such section. It is not mistaken for another error, as nothing else that is read can report
it.
-/

namespace WasmEngine

/-! ## Sections that come too late -/

/-- The last of the sections that is not custom. -/
def lastRanked (fs : List SectionFrame) : Option SectionId :=
  (fs.filter (·.id ≠ .custom)).getLast?.map (·.id)

/-- After these sections the section comes too late. -/
def Belated (before : List SectionFrame) (f : SectionFrame) : Prop :=
  f.id ≠ .custom ∧ ∃ p ∈ lastRanked before, f.id.number ≤ p.number

def rankOf : Option SectionId → Nat
  | some id => id.number
  | none => 0

variable {config : Config} {before after fs : List SectionFrame} {f g : SectionFrame}
  {m m' : Module}

theorem lastRanked_concat : lastRanked (before ++ [f]) =
    if f.id = .custom then lastRanked before else some f.id := by
  unfold lastRanked
  by_cases hid : f.id = .custom <;> simp [List.filter_append, hid]

theorem belated_iff : Belated before f ↔
    f.id ≠ .custom ∧ f.id.number ≤ rankOf (lastRanked before) := by
  unfold Belated
  apply and_congr_right
  intro hid
  have hpos : f.id.number ≠ 0 := mt SectionId.number_eq_zero.mp hid
  cases lastRanked before with
  | none => simp [rankOf, hpos]
  | some p => simp [rankOf]

/-! ## Sections on their own -/

/-- After `start` bytes of a binary, the section makes one module of another. Its payload is read as
if the binary ended with it. -/
def SectionFrame.DecodesTo (config : Config) (start : Nat) (m : Module) (f : SectionFrame)
    (m' : Module) : Prop :=
  ∃ c, (m.sectionPayload config f.id).run
    ⟨start + (f.number ++ f.length).length, f.payload⟩ = .ok m' c

/-- Each of the sections decodes inside its frame, and together they make the module. -/
inductive FramesDecode (config : Config) : List SectionFrame → Module → Prop
  | nil : FramesDecode config [] {}
  | concat {fs : List SectionFrame} {f : SectionFrame} {m m' : Module}
      (h : FramesDecode config fs m)
      (hf : f.DecodesTo config (binaryOf fs).length m m') : FramesDecode config (fs ++ [f]) m'

theorem binaryOf_concat : binaryOf (before ++ [f]) = binaryOf before ++ f.bytes := by
  simp [binaryOf]

theorem FramesDecode.of_append (h : FramesDecode config fs m) (hfs : fs = before ++ after) :
    ∃ m', FramesDecode config before m' := by
  induction h generalizing after with
  | nil =>
    obtain ⟨rfl, -⟩ := List.append_eq_nil_iff.mp hfs.symm
    exact ⟨{}, .nil⟩
  | @concat fs f m m' h hf ih =>
    obtain rfl | ⟨after, g, rfl⟩ := after.eq_nil_or_concat
    · rw [List.append_nil] at hfs
      exact ⟨m', hfs ▸ .concat h hf⟩
    · rw [List.concat_eq_append, ← List.append_assoc] at hfs
      exact ih (List.append_inj_left' hfs rfl)

/-- The section comes too late, after sections that all decode. -/
def Misplaced (config : Config) (before : List SectionFrame) (f : SectionFrame) : Prop :=
  Belated before f ∧ ∃ m, FramesDecode config before m

/-- Of the sections that come too late one is the first. -/
theorem exists_first_misplaced (hfs : fs = before ++ f :: after) (h : Misplaced config before f) :
    ∃ before f after, fs = before ++ f :: after ∧ Misplaced config before f ∧
      ∀ b g a, before = b ++ g :: a → ¬Misplaced config b g := by
  induction hlength : before.length using Nat.strongRecOn generalizing before f after with
  | _ n ih =>
    by_cases hfirst : ∀ b g a, before = b ++ g :: a → ¬Misplaced config b g
    · exact ⟨before, f, after, hfs, h, hfirst⟩
    · push Not at hfirst
      obtain ⟨b, g, a, rfl, hg⟩ := hfirst
      rw [List.append_assoc] at hfs
      exact ih b.length (by simp [← hlength]) hfs hg rfl

namespace Reader

/-! ## One section -/

variable {previous pos : Nat} {rest : List UInt8}

theorem run_oneSection_frame : (oneSection config previous m).run ⟨pos, f.bytes ++ rest⟩ =
    if f.id = .custom then .ok (previous, m) ⟨pos + f.bytes.length, rest⟩
    else if f.id.number ≤ previous then
      .error (.located pos (.sectionOrder f.id.number previous))
        ⟨pos + (f.number ++ f.length).length, f.payload ++ rest⟩
    else (do
      let m ← m.sectionPayload config f.id
      finishSection ⟨f.id, f.payload.length, pos + (f.number ++ f.length).length⟩
      return (f.id.number, m)).run ⟨pos + (f.number ++ f.length).length, f.payload ++ rest⟩ := by
  have hheader : sectionHeader.run ⟨pos, f.bytes ++ rest⟩ =
      .ok ⟨f.id, f.payload.length, pos + (f.number ++ f.length).length⟩
        ⟨pos + (f.number ++ f.length).length, f.payload ++ rest⟩ := by
    refine run_sectionHeader_eq_ok.mpr
      ⟨f.number, f.length, f.number_spelled, f.length_spelled, ⟨?_, rfl⟩, rfl⟩
    simp [SectionFrame.bytes]
  have hskip : (skip f.payload.length).run
      ⟨pos + (f.number ++ f.length).length, f.payload ++ rest⟩ =
        .ok () ⟨pos + f.bytes.length, rest⟩ := by
    refine (skip_reads _ _ _ _).mpr ⟨f.payload, rfl, rfl, ?_⟩
    simp [SectionFrame.bytes, Nat.add_assoc]
  have hoffset : offset.run ⟨pos, f.bytes ++ rest⟩ = .ok pos ⟨pos, f.bytes ++ rest⟩ := rfl
  simp only [oneSection, EStateM.run_bind, hoffset, hheader, run_ite, hskip, EStateM.run_pure]
  rfl

/-- A section that decodes in its frame is read alike with more sections behind it. -/
theorem run_oneSection_of_decodesTo (hf : f.DecodesTo config pos m m')
    (horder : f.id ≠ .custom → previous < f.id.number) :
    (oneSection config previous m).run ⟨pos, f.bytes ++ rest⟩ =
      .ok (if f.id = .custom then previous else f.id.number, m') ⟨pos + f.bytes.length, rest⟩ := by
  obtain ⟨c, hrun⟩ := hf
  rw [run_oneSection_frame]
  by_cases hid : f.id = .custom
  · rw [hid] at hrun
    obtain ⟨rfl, -⟩ := run_pure_eq_ok.mp hrun
    rw [if_pos hid, if_pos hid]
  · rw [if_neg hid, if_neg hid, if_neg (Nat.not_le.mpr (horder hid))]
    obtain ⟨bs, hspans, htakes⟩ := Module.sectionPayload_streams f.id _ _ _ hrun
    have hpayload : f.payload = bs ++ c.rest := hspans.1
    have hread := htakes.run (c.rest ++ rest)
    rw [← List.append_assoc, ← hpayload] at hread
    have hfinish : (finishSection ⟨f.id, f.payload.length, pos + (f.number ++ f.length).length⟩).run
        ⟨pos + (f.number ++ f.length).length + bs.length, c.rest ++ rest⟩ =
          .ok () ⟨pos + f.bytes.length, rest⟩ := by
      have hspans : Cursor.Spans ⟨pos + (f.number ++ f.length).length, f.payload ++ rest⟩ bs
          ⟨pos + (f.number ++ f.length).length + bs.length, c.rest ++ rest⟩ :=
        ⟨by rw [hpayload, List.append_assoc], rfl⟩
      refine (run_finishSection_eq_ok rfl hspans).mpr ⟨c.rest, ⟨rfl, ?_⟩, ?_⟩
      · simp only [SectionFrame.bytes, hpayload, List.length_append]
        omega
      · rw [← hpayload]
    exact run_bind_eq_ok.mpr ⟨m', _, hread, run_bind_eq_ok.mpr ⟨(), _, hfinish, rfl⟩⟩

/-- A section that does not decode in its frame does not do so with more sections behind it, and the
error is not about the order. -/
theorem run_oneSection_of_not_decodesTo (hf : ∀ m', ¬f.DecodesTo config pos m m')
    (hid : f.id ≠ .custom) (horder : previous < f.id.number) (rest : List UInt8) :
    ∃ e c, (oneSection config previous m).run ⟨pos, f.bytes ++ rest⟩ = .error e c ∧
      ∀ q id p, e ≠ .located q (.sectionOrder id p) := by
  rw [run_oneSection_frame, if_neg hid, if_neg (Nat.not_le.mpr horder), EStateM.run_bind]
  cases hrun : (m.sectionPayload config f.id).run
      ⟨pos + (f.number ++ f.length).length, f.payload ++ rest⟩ with
  | error e c =>
    have hinner := (Module.sectionPayload_inner f.id _).of_error hrun
    refine ⟨e, c, rfl, ?_⟩
    rintro q id p rfl
    cases hinner
  | ok m' c =>
    obtain ⟨bs, ⟨hbytes, hoffset⟩, htakes⟩ := Module.sectionPayload_streams f.id _ _ _ hrun
    -- Had the reader stopped inside the frame, the section would decode there.
    have hbeyond : f.payload.length < bs.length := by
      by_contra hle
      have hinside : bs <+: f.payload :=
        List.prefix_of_prefix_length_le ⟨c.rest, hbytes.symm⟩ (List.prefix_append _ _)
          (Nat.not_lt.mp hle)
      obtain ⟨pad, hpad⟩ := hinside
      exact hf m' ⟨_, hpad ▸ htakes.run pad⟩
    let header : SectionHeader := ⟨f.id, f.payload.length, pos + (f.number ++ f.length).length⟩
    have hoverrun : c.offset > header.endOffset := by
      rw [hoffset]
      exact Nat.add_lt_add_left hbeyond _
    have hfinish : (finishSection header).run c =
        .error (.located c.offset (.sectionOverrun f.id.number header.endOffset)) c := by
      have hrun : offset.run c = .ok c.offset c := rfl
      simp only [finishSection, EStateM.run_bind, hrun, run_ite, if_pos hoverrun]
      rfl
    have hsection : (do finishSection header; return (f.id.number, m')).run c =
        .error (.located c.offset (.sectionOverrun f.id.number header.endOffset)) c := by
      rw [EStateM.run_bind, hfinish]
    refine ⟨_, c, hsection, ?_⟩
    intro q id p heq
    cases heq

/-! ## All sections -/

theorem run_allSections_frame (config : Config) (previous pos : Nat) (m : Module) {n : Nat}
    (hn : ((f :: after).flatMap SectionFrame.bytes).length ≤ n) :
    ∃ n', (after.flatMap SectionFrame.bytes).length ≤ n' ∧
      (allSections config n previous m).run ⟨pos, (f :: after).flatMap SectionFrame.bytes⟩ =
        (oneSection config previous m >>= fun r ↦ allSections config n' r.1 r.2).run
          ⟨pos, f.bytes ++ after.flatMap SectionFrame.bytes⟩ := by
  have hpos := List.length_pos_of_ne_nil f.bytes_ne_nil
  rw [List.flatMap_cons, List.length_append] at hn
  cases n with
  | zero => omega
  | succ n =>
    have hne : f.bytes ++ after.flatMap SectionFrame.bytes ≠ [] := by simp [f.bytes_ne_nil]
    exact ⟨n, by omega, run_allSections_succ hne⟩

/-- A section in order that decodes brings the reader to the next one. -/
theorem run_allSections_of_decodesTo (hf : f.DecodesTo config (binaryOf before).length m m')
    (horder : ¬Belated before f) {n : Nat}
    (hn : ((f :: after).flatMap SectionFrame.bytes).length ≤ n) :
    ∃ n', (after.flatMap SectionFrame.bytes).length ≤ n' ∧
      (allSections config n (rankOf (lastRanked before)) m).run
          ⟨(binaryOf before).length, (f :: after).flatMap SectionFrame.bytes⟩ =
        (allSections config n' (rankOf (lastRanked (before ++ [f]))) m').run
          ⟨(binaryOf (before ++ [f])).length, after.flatMap SectionFrame.bytes⟩ := by
  obtain ⟨n', hn', hrun⟩ := run_allSections_frame config (rankOf (lastRanked before))
    (binaryOf before).length m hn
  have hlater (hid : f.id ≠ .custom) : rankOf (lastRanked before) < f.id.number := by
    by_contra hle
    exact horder (belated_iff.mpr ⟨hid, Nat.not_lt.mp hle⟩)
  have hrank : rankOf (lastRanked (before ++ [f])) =
      if f.id = .custom then rankOf (lastRanked before) else f.id.number := by
    rw [lastRanked_concat]
    split <;> rfl
  refine ⟨n', hn', ?_⟩
  rw [hrun, EStateM.run_bind, run_oneSection_of_decodesTo hf hlater, hrank, binaryOf_concat,
    List.length_append]

theorem run_allSections_of_belated (config : Config) (m : Module) (hf : Belated before f) {n : Nat}
    (hn : ((f :: after).flatMap SectionFrame.bytes).length ≤ n) :
    ∃ c, (allSections config n (rankOf (lastRanked before)) m).run
        ⟨(binaryOf before).length, (f :: after).flatMap SectionFrame.bytes⟩ =
      .error (.located (binaryOf before).length
        (.sectionOrder f.id.number (rankOf (lastRanked before)))) c := by
  obtain ⟨n', -, hrun⟩ := run_allSections_frame config (rankOf (lastRanked before))
    (binaryOf before).length m hn
  obtain ⟨hid, hle⟩ := belated_iff.mp hf
  exact ⟨_, by rw [hrun, EStateM.run_bind, run_oneSection_frame, if_neg hid, if_pos hle]⟩

/-- Sections in order that decode bring the reader to those behind them. -/
theorem run_allSections_of_framesDecode (h : FramesDecode config before m)
    (horder : ∀ b f a, before = b ++ f :: a → ¬Belated b f) {n : Nat}
    (hn : ((before ++ after).flatMap SectionFrame.bytes).length ≤ n) :
    ∃ n', (after.flatMap SectionFrame.bytes).length ≤ n' ∧
      (allSections config n 0 {}).run
          ⟨preambleBytes.length, (before ++ after).flatMap SectionFrame.bytes⟩ =
        (allSections config n' (rankOf (lastRanked before)) m).run
          ⟨(binaryOf before).length, after.flatMap SectionFrame.bytes⟩ := by
  induction h generalizing after with
  | nil => exact ⟨n, hn, rfl⟩
  | @concat before f m m' h hf ih =>
    rw [List.append_assoc] at hn ⊢
    have hbefore (b g a) (heq : before = b ++ g :: a) : ¬Belated b g :=
      horder b g (a ++ [f]) (by rw [heq, List.append_assoc]; rfl)
    obtain ⟨n₁, hn₁, hrun₁⟩ := ih hbefore hn
    obtain ⟨n₂, hn₂, hrun₂⟩ := run_allSections_of_decodesTo hf (horder before f [] rfl) hn₁
    exact ⟨n₂, hn₂, hrun₁.trans hrun₂⟩

/-- The order is reported to be broken only where it is. -/
theorem exists_misplaced_of_run (h : FramesDecode config before m) {n q id p : Nat} {c : Cursor}
    (hn : (after.flatMap SectionFrame.bytes).length ≤ n)
    (hrun : (allSections config n (rankOf (lastRanked before)) m).run
      ⟨(binaryOf before).length, after.flatMap SectionFrame.bytes⟩ =
        .error (.located q (.sectionOrder id p)) c) :
    ∃ b f a, before ++ after = b ++ f :: a ∧ Misplaced config b f := by
  induction after generalizing before m n with
  | nil =>
    have hend : (allSections config n (rankOf (lastRanked before)) m).run
        ⟨(binaryOf before).length, []⟩ = .ok m ⟨(binaryOf before).length, []⟩ := by
      cases n <;> rfl
    cases hend.symm.trans hrun
  | cons f after ih =>
    by_cases hf : Belated before f
    · exact ⟨before, f, after, rfl, hf, m, h⟩
    · by_cases hdecodes : ∃ m', f.DecodesTo config (binaryOf before).length m m'
      · obtain ⟨m', hm'⟩ := hdecodes
        obtain ⟨n', hn', hnext⟩ := run_allSections_of_decodesTo hm' hf hn
        obtain ⟨b, g, a, heq, hg⟩ := ih (.concat h hm') hn' (hnext.symm.trans hrun)
        exact ⟨b, g, a, by rw [← heq, List.append_assoc]; rfl, hg⟩
      · -- The section is not custom, as its payload fails to decode.
        have hid : f.id ≠ .custom := fun hid ↦ hdecodes ⟨m, _, by rw [hid]; rfl⟩
        have hlater : rankOf (lastRanked before) < f.id.number :=
          Nat.lt_of_not_le fun hle ↦ hf (belated_iff.mpr ⟨hid, hle⟩)
        obtain ⟨n', -, hnext⟩ := run_allSections_frame config (rankOf (lastRanked before))
          (binaryOf before).length m hn
        obtain ⟨e, c', herror, hother⟩ := run_oneSection_of_not_decodesTo
          (not_exists.mp hdecodes) hid hlater (after.flatMap SectionFrame.bytes)
        rw [hnext, EStateM.run_bind, herror] at hrun
        cases hrun
        exact absurd rfl (hother q id p)

end Reader

namespace Module

open Reader

/-- Errors with an offset come from the sections. -/
theorem decode_binaryOf_eq_located_iff {pos : Nat} {fault : Fault} :
    decode config (binaryOf fs) = .error (.located pos fault) ↔
      ∃ c, (allSections config (fs.flatMap SectionFrame.bytes).length 0 {}).run
        ⟨preambleBytes.length, fs.flatMap SectionFrame.bytes⟩ = .error (.located pos fault) c := by
  have hpreamble : preamble.run (.ofBytes (binaryOf fs)) =
      .ok () ⟨preambleBytes.length, fs.flatMap SectionFrame.bytes⟩ := by
    rw [← Nat.zero_add preambleBytes.length]
    exact preamble_takes.run _
  have hremaining : Cursor.remaining ⟨preambleBytes.length, fs.flatMap SectionFrame.bytes⟩ =
      (fs.flatMap SectionFrame.bytes).length := rfl
  simp only [decode, Reader.module, EStateM.run_bind, hpreamble, EStateM.run_get, hremaining]
  cases (allSections config (fs.flatMap SectionFrame.bytes).length 0 {}).run
      ⟨preambleBytes.length, fs.flatMap SectionFrame.bytes⟩ with
  | ok m c =>
    by_cases hcode : m.funcs.length ≠ m.code.length
    · simp only [if_pos hcode, EStateM.run_bind, run_throw_eq_error]
      simp
    · simp [if_neg hcode]
  | error e c => simp

/-- A binary of well-framed sections is reported to have a section out of order just if it has one
behind sections that all decode. The report is about the first of them: it gives the offset of its
header, its number, and the number of the section that should have come later. The sections of a
binary that is accepted are in order. -/
theorem decode_eq_sectionOrder_iff (config : Config) :
    (∀ fs, (∃ pos id previous,
        decode config (binaryOf fs) = .error (.located pos (.sectionOrder id previous))) ↔
      ∃ before f after, fs = before ++ f :: after ∧ Misplaced config before f) ∧
    (∀ before f after p, Misplaced config before f → lastRanked before = some p →
      (∀ b g a, before = b ++ g :: a → ¬Misplaced config b g) →
      decode config (binaryOf (before ++ f :: after)) =
        .error (.located (binaryOf before).length (.sectionOrder f.id.number p.number))) ∧
    ∀ bytes m, decode config bytes = .ok m → ∃ fs, bytes = binaryOf fs ∧
      (fs.filter (·.id ≠ .custom)).Pairwise (·.id.number < ·.id.number) := by
  have hfirst (before f after p) (h : Misplaced config before f) (hp : lastRanked before = some p)
      (hfirst : ∀ b g a, before = b ++ g :: a → ¬Misplaced config b g) :
      decode config (binaryOf (before ++ f :: after)) =
        .error (.located (binaryOf before).length (.sectionOrder f.id.number p.number)) := by
    obtain ⟨hf, m, hm⟩ := h
    have horder (b g a) (heq : before = b ++ g :: a) : ¬Belated b g := by
      intro hg
      exact hfirst b g a heq ⟨hg, hm.of_append heq⟩
    obtain ⟨n, hn, hrun⟩ := run_allSections_of_framesDecode hm horder
      (Nat.le_refl ((before ++ f :: after).flatMap SectionFrame.bytes).length)
    obtain ⟨c, herror⟩ := run_allSections_of_belated config m hf hn
    rw [decode_binaryOf_eq_located_iff]
    exact ⟨c, by rw [hrun, herror, hp]; rfl⟩
  refine ⟨fun fs ↦ ⟨?_, ?_⟩, hfirst, ?_⟩
  · rintro ⟨pos, id, previous, hdecode⟩
    obtain ⟨c, hrun⟩ := decode_binaryOf_eq_located_iff.mp hdecode
    exact exists_misplaced_of_run .nil (Nat.le_refl _) hrun
  · rintro ⟨before, f, after, hfs, hmisplaced⟩
    obtain ⟨before, f, after, rfl, hf, hnone⟩ := exists_first_misplaced hfs hmisplaced
    obtain ⟨p, hp, -⟩ := hf.1.2
    exact ⟨_, _, _, hfirst before f after p hf hp hnone⟩
  · intro bytes m hdecode
    obtain ⟨⟨fs, hbytes, hspelled⟩, -⟩ := decode_eq_ok_iff.mp hdecode
    exact ⟨fs, hbytes, hspelled.ordered⟩

/-- Types again, after functions and a custom section. -/
theorem repeated_types_misplaced :
    Misplaced {} [unitType, oneFunction, customFrame] unitType ∧
    decode {} (binaryOf [unitType, oneFunction, customFrame, unitType, emptyBody]) =
      .error (.located 21 (.sectionOrder 1 3)) := by
  have htypes :
      FramesDecode {} ([] ++ [unitType]) { (default : Module) with types := [⟨[], []⟩] } :=
    .concat .nil ⟨_, rfl⟩
  have hfuncs : FramesDecode {} ([unitType] ++ [oneFunction])
      { (default : Module) with types := [⟨[], []⟩], funcs := [0] } := .concat htypes ⟨_, rfl⟩
  have hcustom : FramesDecode {} ([unitType, oneFunction] ++ [customFrame])
      { (default : Module) with types := [⟨[], []⟩], funcs := [0] } := .concat hfuncs ⟨_, rfl⟩
  have hmisplaced : Misplaced {} [unitType, oneFunction, customFrame] unitType :=
    ⟨⟨by decide, .function, rfl, by decide⟩, _, hcustom⟩
  refine ⟨hmisplaced, (decode_eq_sectionOrder_iff {}).2.1 _ unitType [emptyBody] .function
    hmisplaced rfl ?_⟩
  rintro b g a heq ⟨⟨hid, p, hp, hle⟩, -⟩
  match b with
  | [] => cases hp
  | [_] =>
    cases heq
    cases hp
    exact absurd hle (by decide)
  | [_, _] =>
    cases heq
    exact hid rfl
  | _ :: _ :: _ :: b => cases (List.append_eq_nil_iff.mp (congrArg (List.drop 3) heq).symm).2

end Module

end WasmEngine
