import Mathlib.Logic.Relation
import WasmEngine.Proofs.Binary

/-!
# Framing

Much of a binary is there for readers to find their way and says nothing about the module: custom
sections, padding at the end of a section or of a function body, and the spelling of lengths. An
edit of a binary that concerns only these leaves the module as it is.

What an edit does is said of the frames of a binary. A binary has at most one division into frames,
because a reader that is exact for a grammar stops where what the grammar spells stops.
-/

namespace WasmEngine

open Relation

/-! ## Edits -/

/-- One section in the place of another of the same kind. Lengths that change are spelled anew, in
any way there is. -/
inductive SectionFrame.Edit : SectionFrame → SectionFrame → Prop
  /-- The number or the length of the section is spelled in another way. -/
  | respell {f f' : SectionFrame} (hid : f'.id = f.id) (hpayload : f'.payload = f.payload) :
      Edit f f'
  /-- Bytes are appended to a section. -/
  | pad {f f' : SectionFrame} (hcustom : f.id ≠ .custom) (hid : f'.id = f.id) (extra : List UInt8)
      (hpayload : f'.payload = f.payload ++ extra) : Edit f f'
  /-- Of the function bodies, the one after `before` gets bytes appended or its size spelled in
  another way. -/
  | body {f f' : SectionFrame} (hcode : f.id = .code) (hid : f'.id = f.id) {n : Nat}
      {count bodies size content size' extra rest : List UInt8} {before : List (List UInt8)}
      (hcount : Grammar.unsigned n count) (hbefore : Grammar.items Grammar.byteString before bodies)
      (hlt : before.length < n) (hsize : Grammar.unsigned content.length size)
      (hsize' : Grammar.unsigned (content ++ extra).length size')
      (hpayload : f.payload = count ++ (bodies ++ (size ++ content ++ rest)))
      (hpayload' : f'.payload = count ++ (bodies ++ (size' ++ (content ++ extra) ++ rest))) :
      Edit f f'

/-- An edit of a list of sections: a custom section comes or goes, or one section is edited. -/
inductive FramesEdit : List SectionFrame → List SectionFrame → Prop
  | insert {fs gs : List SectionFrame} {f : SectionFrame} (hf : f.id = .custom) :
      FramesEdit (fs ++ gs) (fs ++ f :: gs)
  | delete {fs gs : List SectionFrame} {f : SectionFrame} (hf : f.id = .custom) :
      FramesEdit (fs ++ f :: gs) (fs ++ gs)
  | edit {fs gs : List SectionFrame} {f f' : SectionFrame} (h : f.Edit f') :
      FramesEdit (fs ++ f :: gs) (fs ++ f' :: gs)

/-- The binary that consists of the given sections. -/
def binaryOf (fs : List SectionFrame) : List UInt8 :=
  preambleBytes ++ fs.flatMap SectionFrame.bytes

def FramingEdit (bytes bytes' : List UInt8) : Prop :=
  ∃ fs fs', bytes = binaryOf fs ∧ bytes' = binaryOf fs' ∧ FramesEdit fs fs'

theorem FramesEdit.framing {fs fs' : List SectionFrame} (h : FramesEdit fs fs') :
    FramingEdit (binaryOf fs) (binaryOf fs') :=
  ⟨fs, fs', rfl, rfl, h⟩

/-! ## Sections of a binary -/

/-- What a grammar with an exact reader spells at the beginning of some bytes is unique. -/
theorem Reader.Reads.unique {α : Type} {r : Reader α} {G : Grammar α} (h : Reads r G) {a a' : α}
    {bs bs' rest rest' : List UInt8} (ha : G a bs) (ha' : G a' bs')
    (heq : bs ++ rest = bs' ++ rest') : a = a' ∧ bs = bs' ∧ rest = rest' := by
  have hrun := (h ⟨0, bs ++ rest⟩ a ⟨0 + bs.length, rest⟩).mpr ⟨bs, ha, rfl, rfl⟩
  have hrun' := (h ⟨0, bs ++ rest⟩ a' ⟨0 + bs'.length, rest'⟩).mpr ⟨bs', ha', heq, rfl⟩
  injection hrun.symm.trans hrun' with hvalue hcursor
  injection hcursor with _ hrest
  subst hrest
  exact ⟨hvalue, List.append_cancel_right heq, rfl⟩

namespace SectionFrame

theorem unique {f g : SectionFrame} {rest rest' : List UInt8}
    (h : f.bytes ++ rest = g.bytes ++ rest') : f = g ∧ rest = rest' := by
  obtain ⟨id, number, length, payload, hnumber, hlength⟩ := f
  obtain ⟨id', number', length', payload', hnumber', hlength'⟩ := g
  simp only [bytes, List.append_assoc] at h
  obtain ⟨hid, rfl, hframe⟩ := Reader.varuint32_reads.unique hnumber hnumber' h
  obtain rfl := SectionId.number_injective hid
  obtain ⟨hsize, rfl, hcontent⟩ := Reader.varuint32_reads.unique hlength hlength' hframe
  obtain ⟨rfl, rfl⟩ := List.append_inj hcontent hsize
  exact ⟨rfl, rfl⟩

theorem flatMap_bytes_injective {fs gs : List SectionFrame}
    (h : fs.flatMap bytes = gs.flatMap bytes) : fs = gs := by
  induction fs generalizing gs with
  | nil =>
    cases gs with
    | nil => rfl
    | cons g gs => exact absurd (List.append_eq_nil_iff.mp h.symm).1 g.bytes_ne_nil
  | cons f fs ih =>
    cases gs with
    | nil => exact absurd (List.append_eq_nil_iff.mp h).1 f.bytes_ne_nil
    | cons g gs =>
      obtain ⟨rfl, hrest⟩ := unique h
      rw [ih hrest]

end SectionFrame

theorem binaryOf_injective {fs gs : List SectionFrame} (h : binaryOf fs = binaryOf gs) : fs = gs :=
  SectionFrame.flatMap_bytes_injective (List.append_cancel_left h)

namespace Module

variable {config : Config} {m : Module}

/-! ## Function bodies -/

theorem byteString_of_body {code : Code} {bs : List UInt8} (h : Grammar.body config m code bs) :
    ∃ content, Grammar.byteString content bs := by
  obtain ⟨size, locals, instrs, pad, -, -, rfl, hsize, -⟩ := h
  exact ⟨_, size, rfl, hsize⟩

/-- A body stays the same function with more bytes at its end. -/
theorem body_append {code : Code} {bs size content size' extra : List UInt8}
    (h : Grammar.body config m code bs) (hbs : bs = size ++ content)
    (hsize : Grammar.unsigned content.length size)
    (hsize' : Grammar.unsigned (content ++ extra).length size') :
    Grammar.body config m code (size' ++ (content ++ extra)) := by
  obtain ⟨size₀, locals, instrs, pad, decls, is, heq, hsize₀, hdecls, his, hcompiled⟩ := h
  rw [hbs] at heq
  obtain ⟨-, rfl, rfl⟩ := Reader.varuint32_reads.unique hsize hsize₀ heq
  refine ⟨size', locals, instrs, pad ++ extra, decls, is, ?_, ?_, hdecls, his, hcompiled⟩
  · simp only [List.append_assoc]
  · simpa only [List.append_assoc] using hsize'

/-- Of bodies one after the other, any one can be given more bytes. -/
theorem items_append {before : List (List UInt8)} {bodies : List UInt8}
    (hbefore : Grammar.items Grammar.byteString before bodies) {codes : List Code}
    {bs pad size content size' extra rest : List UInt8}
    (hcodes : Grammar.items (Grammar.body config m) codes bs) (hlt : before.length < codes.length)
    (hsize : Grammar.unsigned content.length size)
    (hsize' : Grammar.unsigned (content ++ extra).length size')
    (heq : bs ++ pad = bodies ++ (size ++ content ++ rest)) :
    ∃ bs', Grammar.items (Grammar.body config m) codes bs' ∧
      bodies ++ (size' ++ (content ++ extra) ++ rest) = bs' ++ pad := by
  induction hbefore generalizing codes bs with
  | nil =>
    cases hcodes with
    | nil => cases hlt
    | @cons code codes first others hcode hcodes =>
      obtain ⟨content₀, hfirst⟩ := byteString_of_body hcode
      rw [List.append_assoc, List.nil_append] at heq
      obtain ⟨-, rfl, rfl⟩ := Reader.byteString_reads.unique hfirst ⟨size, rfl, hsize⟩ heq
      exact ⟨_, .cons (body_append hcode rfl hsize hsize') hcodes, by simp⟩
  | @cons content' before body bodies hbody _ ih =>
    cases hcodes with
    | nil => cases hlt
    | @cons code codes first others hcode hcodes =>
      obtain ⟨content₀, hfirst⟩ := byteString_of_body hcode
      rw [List.append_assoc, List.append_assoc] at heq
      obtain ⟨-, rfl, hothers⟩ := Reader.byteString_reads.unique hfirst hbody heq
      obtain ⟨bs', hcodes', heq'⟩ := ih hcodes (Nat.lt_of_succ_lt_succ hlt) hothers
      refine ⟨first ++ bs', .cons hcode hcodes', ?_⟩
      rw [List.append_assoc, heq', List.append_assoc]

/-! ## Edited sections -/

theorem FrameSpells.edit {f f' : SectionFrame} (h : f.Edit f') (hf : m.FrameSpells config f) :
    m.FrameSpells config f' := by
  obtain ⟨enc, pad, hpayload₀, henc⟩ := hf
  cases h with
  | respell hid hpayload => exact ⟨enc, pad, hpayload.trans hpayload₀, hid ▸ henc⟩
  | pad hcustom hid extra hpayload =>
    exact ⟨enc, pad ++ extra, by rw [hpayload, hpayload₀, List.append_assoc], hid ▸ henc⟩
  | body hcode hid hcount hbefore hlt hsize hsize' hpayload hpayload' =>
    rw [hcode] at henc
    obtain ⟨count₀, bs, rfl, hcount₀, hcodes⟩ := henc
    rw [hpayload₀, List.append_assoc] at hpayload
    obtain ⟨rfl, rfl, heq⟩ := Reader.varuint32_reads.unique hcount₀ hcount hpayload
    obtain ⟨bs', hcodes', heq'⟩ := items_append hbefore hcodes hlt hsize hsize' heq
    refine ⟨count₀ ++ bs', pad, by rw [hpayload', heq', List.append_assoc], ?_⟩
    rw [hid, hcode]
    exact ⟨count₀, bs', rfl, hcount₀, hcodes'⟩

theorem frameSpells_custom {f : SectionFrame} (hf : f.id = .custom) : m.FrameSpells config f := by
  refine ⟨f.payload, [], by simp, ?_⟩
  rw [hf]
  trivial

/-- As to which sections there are, only those count that are not custom ones. -/
theorem SpelledBy.congr {fs fs' : List SectionFrame} (h : m.SpelledBy config fs)
    (hids : (fs'.map (·.id)).filter (· ≠ .custom) = (fs.map (·.id)).filter (· ≠ .custom))
    (hpayloads : ∀ f ∈ fs', m.FrameSpells config f) : m.SpelledBy config fs' where
  ordered := by
    have hiff (l : List SectionFrame) :
        (l.filter (·.id ≠ .custom)).Pairwise (·.id.number < ·.id.number) ↔
          ((l.map (·.id)).filter (· ≠ .custom)).Pairwise (·.number < ·.number) := by
      rw [List.filter_map, List.pairwise_map]
      rfl
    rw [hiff, hids, ← hiff]
    exact h.ordered
  payloads := hpayloads
  absent := by
    intro id hid
    by_cases hcustom : id = .custom
    · rw [hcustom]
      trivial
    · refine h.absent id fun f hf heq ↦ ?_
      have hmem : id ∈ (fs.map (·.id)).filter (· ≠ .custom) :=
        List.mem_filter.mpr ⟨List.mem_map.mpr ⟨f, hf, heq⟩, by simpa using hcustom⟩
      rw [← hids] at hmem
      obtain ⟨f', hf', heq'⟩ := List.mem_map.mp (List.mem_filter.mp hmem).1
      exact hid f' hf' heq'

theorem SpelledBy.edit {fs fs' : List SectionFrame} (h : FramesEdit fs fs')
    (hfs : m.SpelledBy config fs) : m.SpelledBy config fs' := by
  have hpayloads := hfs.payloads
  cases h with
  | @insert fs gs f hf =>
    refine hfs.congr (by simp [hf]) ?_
    rw [List.forall_mem_append] at hpayloads ⊢
    exact ⟨hpayloads.1, List.forall_mem_cons.mpr ⟨frameSpells_custom hf, hpayloads.2⟩⟩
  | @delete fs gs f hf =>
    refine hfs.congr (by simp [hf]) ?_
    rw [List.forall_mem_append, List.forall_mem_cons] at hpayloads
    exact List.forall_mem_append.mpr ⟨hpayloads.1, hpayloads.2.2⟩
  | @edit fs gs f f' h =>
    have hid : f'.id = f.id := by cases h <;> assumption
    refine hfs.congr (by simp [hid]) ?_
    rw [List.forall_mem_append, List.forall_mem_cons] at hpayloads ⊢
    exact ⟨hpayloads.1, hpayloads.2.1.edit h, hpayloads.2.2⟩

/-- One edit of its framing leaves a binary what it is. -/
theorem decode_of_edit {bytes bytes' : List UInt8} (h : FramingEdit bytes bytes')
    (hdecode : decode config bytes = .ok m) : decode config bytes' = .ok m := by
  obtain ⟨fs, fs', rfl, rfl, hedit⟩ := h
  obtain ⟨⟨gs, hbytes, hspelled⟩, hwellFormed⟩ := decode_eq_ok_iff.mp hdecode
  obtain rfl := binaryOf_injective hbytes
  exact decode_eq_ok_iff.mpr ⟨⟨fs', rfl, hspelled.edit hedit⟩, hwellFormed⟩

/-- Whatever is done to the framing of a binary, it is decoded to the same module. -/
theorem decode_ignores_framing {bytes bytes' : List UInt8} (hdecode : decode config bytes = .ok m)
    (hedits : ReflTransGen FramingEdit bytes bytes') : decode config bytes' = .ok m := by
  induction hedits with
  | refl => exact hdecode
  | tail _ hedit ih => exact decode_of_edit hedit ih

end Module

/-! ## A binary with and without padding -/

/-- A number below 128 is spelled by one byte. -/
theorem Grammar.unsigned_ofNat {n : Nat} (h : n < 128) : unsigned n [UInt8.ofNat n] := by
  have hbyte : (UInt8.ofNat n).toNat = n := by
    rw [UInt8.toNat_ofNat', Nat.mod_eq_of_lt (by omega)]
  refine ⟨[], UInt8.ofNat n, rfl, by simp, ?_, .inl (by decide), ?_⟩
  · exact Reader.continues_eq_false.mpr (by omega)
  · simp [base128, hbyte]

/-- A section with its number and its length in one byte each. -/
def SectionFrame.short (id : SectionId) (payload : List UInt8) (h : payload.length < 128) :
    SectionFrame where
  id := id
  number := [UInt8.ofNat id.number]
  length := [UInt8.ofNat payload.length]
  payload := payload
  number_spelled := Grammar.unsigned_ofNat (Nat.lt_of_le_of_lt id.number_le (by decide))
  length_spelled := Grammar.unsigned_ofNat h

def unitType : SectionFrame := .short .type [1, 0x60, 0, 0] (by decide)

/-- The frame `unitType` with its length in two bytes. -/
def unitType' : SectionFrame :=
  { unitType with
    length := [0x84, 0]
    length_spelled :=
      ⟨[0x84], 0, rfl, List.forall_mem_singleton.mpr rfl, by decide, .inl (by decide), by decide⟩ }

def oneFunction : SectionFrame := .short .function [1, 0] (by decide)

def emptyBody : SectionFrame := .short .code [1, 2, 0, 0x0b] (by decide)

/-- The frame `emptyBody` with a byte after the end of the function. -/
def emptyBody' : SectionFrame := .short .code [1, 3, 0, 0x0b, 0xff] (by decide)

def customFrame : SectionFrame := .short .custom [9] (by decide)

/-- A module with one function that does nothing. -/
def plainBinary : List UInt8 := binaryOf [unitType, oneFunction, emptyBody]

/-- The module of `plainBinary` with a longer length, a custom section and padding. -/
def paddedBinary : List UInt8 := binaryOf [unitType', customFrame, oneFunction, emptyBody']

theorem plainBinary_edits : ReflTransGen FramingEdit plainBinary paddedBinary := by
  have hrespell : FramesEdit [unitType, oneFunction, emptyBody]
      [unitType', oneFunction, emptyBody] :=
    @FramesEdit.edit [] _ _ _ (.respell rfl rfl)
  have hinsert : FramesEdit [unitType', oneFunction, emptyBody]
      [unitType', customFrame, oneFunction, emptyBody] :=
    @FramesEdit.insert [unitType'] _ _ rfl
  have hone : Grammar.unsigned 1 [1] := Grammar.unsigned_ofNat (by decide)
  have htwo : Grammar.unsigned 2 [2] := Grammar.unsigned_ofNat (by decide)
  have hthree : Grammar.unsigned 3 [3] := Grammar.unsigned_ofNat (by decide)
  have hpad : emptyBody.Edit emptyBody' :=
    @SectionFrame.Edit.body _ _ rfl rfl 1 [1] [] [2] [0, 0x0b] [3] [0xff] [] [] hone .nil
      (by decide) htwo hthree rfl rfl
  have hbody : FramesEdit [unitType', customFrame, oneFunction, emptyBody]
      [unitType', customFrame, oneFunction, emptyBody'] :=
    @FramesEdit.edit [unitType', customFrame, oneFunction] [] _ _ hpad
  exact .tail (.tail (.single hrespell.framing) hinsert.framing) hbody.framing

/-- Longer lengths, a custom section and padding behind a body leave the module as it was. -/
theorem paddedBinary_decode_ignores_framing : ∃ m, Module.decode {} plainBinary = .ok m ∧
    ReflTransGen FramingEdit plainBinary paddedBinary ∧ Module.decode {} paddedBinary = .ok m := by
  have hdecodes : (Module.decode {} plainBinary).toOption.isSome = true := by decide +kernel
  obtain ⟨m, hm⟩ := Option.isSome_iff_exists.mp hdecodes
  have hdecode : Module.decode {} plainBinary = .ok m := except_toOption_eq_some hm
  exact ⟨m, hdecode, plainBinary_edits, Module.decode_ignores_framing hdecode plainBinary_edits⟩

end WasmEngine
