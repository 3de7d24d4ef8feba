import WasmEngine.Proofs.SectionGrammar

/-!
# The grammar of modules

A binary is a preamble and framed sections. Read from left to right, the sections make a module
component by component, each checked against what has been made so far. Seen as a whole, the binary
spells each component of the module it makes in the frame of its section, and the module is well
formed. The two views agree: a section is read against the final module cut off at its number, and
neither what it spells nor what it is checked for looks beyond that.
-/

namespace WasmEngine

/-- A section in a binary, with the bytes that spell its number and the length of its payload. -/
structure SectionFrame where
  id : SectionId
  number : List UInt8
  length : List UInt8
  payload : List UInt8
  number_spelled : Grammar.unsigned id.number number
  length_spelled : Grammar.unsigned payload.length length

namespace SectionFrame

def bytes (f : SectionFrame) : List UInt8 := f.number ++ (f.length ++ f.payload)

theorem bytes_ne_nil (f : SectionFrame) : f.bytes ≠ [] := by
  obtain ⟨init, last, hnumber, -⟩ := f.number_spelled
  simp [bytes, hnumber]

end SectionFrame

theorem SectionId.number_injective {id id' : SectionId} (h : id.number = id'.number) :
    id = id' := by
  have hofNumber := congrArg ofNumber h
  rwa [ofNumber_number, ofNumber_number, Option.some.injEq] at hofNumber

theorem SectionId.number_of_ofNumber {n : Nat} {id : SectionId} (h : ofNumber n = some id) :
    id.number = n := by
  unfold ofNumber at h
  split at h <;> cases h <;> rfl

theorem SectionId.number_eq_zero {id : SectionId} : id.number = 0 ↔ id = .custom :=
  ⟨fun h ↦ number_injective h, fun h ↦ h ▸ rfl⟩

theorem SectionId.number_le (id : SectionId) : id.number ≤ 11 := by
  cases id <;> decide

theorem SectionId.exists_number {n : Nat} (hn : n ≤ 11) : ∃ id : SectionId, id.number = n := by
  have hofNumber : ∀ n ≤ 11, ((ofNumber n).map number) = some n := by decide
  obtain ⟨id, -, hid⟩ := Option.map_eq_some_iff.mp (hofNumber n hn)
  exact ⟨id, hid⟩

/-! ## One section -/

/-- What a frame holds is what its section adds, and padding. -/
def Module.FrameSpells (config : Config) (m : Module) (f : SectionFrame) : Prop :=
  ∃ enc pad, f.payload = enc ++ pad ∧ m.Payload config f.id enc

namespace Reader

open Cursor WasmEngine.Module

variable {config : Config} {c c' : Cursor} {m m₀ : Module}

theorem skip_reads (n : Nat) : Reads (skip n) fun _ bs ↦ bs.length = n := by
  refine ((Reads.bytes n).map fun _ ↦ ()).congr fun u bs ↦ ?_
  constructor
  · rintro ⟨_, -, rfl, hlength⟩
    exact hlength
  · intro hlength
    exact ⟨bs, rfl, rfl, hlength⟩

theorem run_sectionHeader_eq_ok {hd : SectionHeader} : sectionHeader.run c = .ok hd c' ↔
    ∃ number length, Grammar.unsigned hd.id.number number ∧ Grammar.unsigned hd.length length ∧
      c.Spans (number ++ length) c' ∧ hd.payload = c'.offset := by
  simp only [sectionHeader, run_bind_eq_ok, run_offset_eq_ok, varuint7_reads _ _ _]
  constructor
  · rintro ⟨_, _, ⟨-, rfl⟩, n, c₁, ⟨number, ⟨-, hnumber⟩, hspans⟩, h⟩
    split at h
    · exact (run_throw_eq_ok.mp h).elim
    · rename_i id hid
      simp only [run_bind_eq_ok, run_offset_eq_ok, run_pure_eq_ok, varuint32_reads _ _ _] at h
      obtain ⟨n', _, ⟨length, hlength, hspans'⟩, _, _, ⟨rfl, rfl⟩, rfl, rfl⟩ := h
      rw [← SectionId.number_of_ofNumber hid] at hnumber
      exact ⟨number, length, hnumber, hlength, spans_append.mpr ⟨c₁, hspans, hspans'⟩, rfl⟩
  · rintro ⟨number, length, hnumber, hlength, hspans, hpayload⟩
    obtain ⟨c₁, hspans, hspans'⟩ := spans_append.mp hspans
    refine ⟨_, _, ⟨rfl, rfl⟩, _, c₁, ⟨number, ⟨?_, hnumber⟩, hspans⟩, ?_⟩
    · exact Nat.lt_of_le_of_lt hd.id.number_le (by decide)
    · rw [SectionId.ofNumber_number]
      simp only [run_bind_eq_ok, run_offset_eq_ok, run_pure_eq_ok, varuint32_reads _ _ _]
      exact ⟨_, c', ⟨length, hlength, hspans'⟩, _, c', ⟨rfl, rfl⟩, by rw [← hpayload], rfl⟩

/-- A section goes on to its declared end, with any padding there. -/
theorem run_finishSection_eq_ok {hd : SectionHeader} {c₁ : Cursor} {bs : List UInt8} {u : Unit}
    (hpayload : hd.payload = c₁.offset) (hspans : c₁.Spans bs c) :
    (finishSection hd).run c = .ok u c' ↔
      ∃ pad, c.Spans pad c' ∧ (bs ++ pad).length = hd.length := by
  have hoffset : c.offset = c₁.offset + bs.length := hspans.2
  have hend : hd.endOffset = c₁.offset + hd.length := by rw [SectionHeader.endOffset, hpayload]
  simp only [finishSection, run_bind_eq_ok, run_offset_eq_ok, run_ite, List.length_append]
  constructor
  · rintro ⟨_, _, ⟨rfl, rfl⟩, h⟩
    split at h
    · simp only [failAt, run_bind_eq_ok, run_throw_eq_ok, false_and, exists_false] at h
    · split at h
      · obtain ⟨pad, hlength, hpad⟩ := (skip_reads _ _ _ _).mp h
        exact ⟨pad, hpad, by omega⟩
      · obtain ⟨-, rfl⟩ := run_pure_eq_ok.mp h
        exact ⟨[], spans_nil.mpr rfl, by rw [List.length_nil]; omega⟩
  · rintro ⟨pad, hpad, hlength⟩
    refine ⟨_, _, ⟨rfl, rfl⟩, ?_⟩
    rw [if_neg (by omega)]
    split
    · exact (skip_reads _ _ _ _).mpr ⟨pad, by omega, hpad⟩
    · obtain rfl : pad = [] := List.length_eq_zero_iff.mp (by omega)
      exact run_pure_eq_ok.mpr ⟨rfl, spans_nil.mp hpad⟩

/-- What a section makes of a module. -/
def SectionMakes (config : Config) (previous : Nat) (m₀ : Module) (f : SectionFrame) (p : Nat)
    (m : Module) : Prop :=
  (f.id = .custom ∧ p = previous ∧ m = m₀) ∨
    (previous < f.id.number ∧ p = f.id.number ∧ Extends (f.id.number - 1) m₀ m ∧
      m.Passes config f.id ∧ m.FrameSpells config f)

theorem oneSection_reads {previous : Nat} (hm₀ : m₀.upTo previous = m₀) :
    Reads (oneSection config previous m₀) fun r bs ↦
      ∃ f : SectionFrame, bs = f.bytes ∧ SectionMakes config previous m₀ f r.1 r.2 := by
  rintro c ⟨p, m⟩ c'
  simp only [oneSection, run_bind_eq_ok, run_offset_eq_ok, run_ite]
  constructor
  · rintro ⟨_, _, ⟨-, rfl⟩, hd, c₁, hheader, h⟩
    obtain ⟨number, length, hnumber, hlength, hspans, hpayload⟩ :=
      run_sectionHeader_eq_ok.mp hheader
    -- The frame, once the bytes of the payload are known.
    have hframe (payload : List UInt8) (hsize : payload.length = hd.length)
        (hspans' : c₁.Spans payload c') (hmakes : ∀ f : SectionFrame, f.id = hd.id →
          f.payload = payload → SectionMakes config previous m₀ f p m) :
        ∃ bs, (∃ f : SectionFrame, bs = f.bytes ∧ SectionMakes config previous m₀ f p m) ∧
          c.Spans bs c' := by
      let f : SectionFrame := ⟨hd.id, number, length, payload, hnumber, hsize ▸ hlength⟩
      refine ⟨f.bytes, ⟨f, rfl, hmakes f rfl rfl⟩, ?_⟩
      rw [SectionFrame.bytes, ← List.append_assoc]
      exact spans_append.mpr ⟨c₁, hspans, hspans'⟩
    split at h
    · rename_i hcustom
      simp only [run_bind_eq_ok, run_pure_eq_ok, Prod.mk.injEq] at h
      obtain ⟨_, _, hskip, ⟨rfl, rfl⟩, rfl⟩ := h
      obtain ⟨payload, hsize, hspans'⟩ := (skip_reads _ _ _ _).mp hskip
      exact hframe payload hsize hspans' fun f hid _ ↦ .inl ⟨hid.trans hcustom, rfl, rfl⟩
    · split at h
      · simp only [failAt, run_bind_eq_ok, run_throw_eq_ok, false_and, exists_false] at h
      · rename_i hlater
        rw [Nat.not_le] at hlater
        simp only [run_bind_eq_ok, run_pure_eq_ok, Prod.mk.injEq] at h
        obtain ⟨m₁, c₂, hread, _, c₃, hfinish, ⟨rfl, rfl⟩, rfl⟩ := h
        obtain ⟨enc, ⟨hext, hpass, henc⟩, hspans₁⟩ :=
          (sectionPayload_reads hm₀ hlater _ _ _).mp hread
        obtain ⟨pad, hspans₂, hsize⟩ := (run_finishSection_eq_ok hpayload hspans₁).mp hfinish
        refine hframe (enc ++ pad) hsize (spans_append.mpr ⟨c₂, hspans₁, hspans₂⟩) ?_
        rintro f hid hbytes
        rw [← hid] at hlater hext hpass henc ⊢
        exact .inr ⟨hlater, rfl, hext, hpass, enc, pad, hbytes, henc⟩
  · rintro ⟨_, ⟨f, rfl, hmakes⟩, hspans⟩
    rw [SectionFrame.bytes, ← List.append_assoc] at hspans
    obtain ⟨c₁, hspans, hspans'⟩ := spans_append.mp hspans
    have hheader : sectionHeader.run c = .ok ⟨f.id, f.payload.length, c₁.offset⟩ c₁ :=
      run_sectionHeader_eq_ok.mpr
        ⟨f.number, f.length, f.number_spelled, f.length_spelled, hspans, rfl⟩
    refine ⟨_, _, ⟨rfl, rfl⟩, _, c₁, hheader, ?_⟩
    obtain ⟨hcustom, rfl, rfl⟩ | ⟨hlater, rfl, hext, hpass, enc, pad, hbytes, henc⟩ := hmakes
    · rw [if_pos hcustom]
      exact run_bind_eq_ok.mpr ⟨(), c', (skip_reads _ _ _ _).mpr ⟨_, rfl, hspans'⟩, rfl⟩
    · have hcustom : f.id ≠ .custom := by
        intro hcustom
        rw [hcustom] at hlater
        exact Nat.not_lt_zero _ hlater
      rw [hbytes] at hspans'
      obtain ⟨c₂, hspans₁, hspans₂⟩ := spans_append.mp hspans'
      have hread := (sectionPayload_reads hm₀ hlater _ _ _).mpr
        ⟨enc, ⟨hext, hpass, henc⟩, hspans₁⟩
      have hfinish : (finishSection ⟨f.id, f.payload.length, c₁.offset⟩).run c₂ = .ok () c' :=
        (run_finishSection_eq_ok rfl hspans₁).mpr ⟨pad, hspans₂, by rw [hbytes]⟩
      rw [if_neg hcustom, if_neg (Nat.not_le_of_lt hlater)]
      exact run_bind_eq_ok.mpr ⟨m, c₂, hread, run_bind_eq_ok.mpr ⟨(), c', hfinish, rfl⟩⟩

/-! ## All sections -/

/-- Sections one after the other make a module of another. -/
inductive SectionsMake (config : Config) : Nat → Module → List SectionFrame → Module → Prop
  | done {previous : Nat} {m : Module} : SectionsMake config previous m [] m
  | next {previous p : Nat} {m₀ m₁ m : Module} {f : SectionFrame} {fs : List SectionFrame}
      (h : SectionMakes config previous m₀ f p m₁) (hrest : SectionsMake config p m₁ fs m) :
      SectionsMake config previous m₀ (f :: fs) m

theorem SectionMakes.upTo_eq {previous p : Nat} {f : SectionFrame} (hm₀ : m₀.upTo previous = m₀)
    (h : SectionMakes config previous m₀ f p m) : m.upTo p = m := by
  obtain ⟨-, rfl, rfl⟩ | ⟨hlater, rfl, hext, -⟩ := h
  · exact hm₀
  · have hsucc : f.id.number - 1 + 1 = f.id.number := by omega
    rw [← hsucc]
    exact hext.2

theorem allSections_reads {n previous : Nat} (hm₀ : m₀.upTo previous = m₀)
    (hn : c.remaining ≤ n) : (allSections config n previous m₀).run c = .ok m c' ↔
      c'.rest = [] ∧ ∃ fs, c.Spans (fs.flatMap SectionFrame.bytes) c' ∧
        SectionsMake config previous m₀ fs m := by
  have hend {m₀ m : Module} {previous : Nat} {c c' : Cursor} (hrest : c.rest = []) :
      (pure m₀ : Reader Module).run c = .ok m c' ↔
        c'.rest = [] ∧ ∃ fs, c.Spans (fs.flatMap SectionFrame.bytes) c' ∧
          SectionsMake config previous m₀ fs m := by
    rw [run_pure_eq_ok]
    constructor
    · rintro ⟨rfl, rfl⟩
      exact ⟨hrest, [], spans_nil.mpr rfl, .done⟩
    · rintro ⟨-, fs, hspans, hmake⟩
      have hnil : fs.flatMap SectionFrame.bytes = [] := by
        have := hspans.1
        rw [hrest] at this
        exact (List.append_eq_nil_iff.mp this.symm).1
      rw [hnil] at hspans
      cases hmake with
      | done => exact ⟨rfl, spans_nil.mp hspans⟩
      | next => exact absurd (List.append_eq_nil_iff.mp hnil).1 (SectionFrame.bytes_ne_nil _)
  induction n generalizing previous m₀ c with
  | zero => exact hend (List.length_eq_zero_iff.mp (Nat.le_zero.mp hn))
  | succ n ih =>
    have hrun : (allSections config (n + 1) previous m₀).run c =
        if c.isEnd then (pure m₀ : Reader Module).run c
        else (oneSection config previous m₀ >>= fun r ↦ allSections config n r.1 r.2).run c := by
      simp only [allSections, EStateM.run_bind, EStateM.run_get, run_ite]
    rw [hrun]
    split
    · rename_i hisEnd
      exact hend (List.isEmpty_iff.mp hisEnd)
    · rename_i hisEnd
      -- A section takes a byte at least, so the bound holds for what is left.
      have hshorter {f : SectionFrame} {c₁ : Cursor} (hspans : c.Spans f.bytes c₁) :
          c₁.remaining ≤ n := by
        have hpos := List.length_pos_of_ne_nil f.bytes_ne_nil
        have hlength := congrArg List.length hspans.1
        rw [List.length_append] at hlength
        simp only [Cursor.remaining] at hn ⊢
        omega
      simp only [run_bind_eq_ok, oneSection_reads hm₀ _ _ _]
      constructor
      · rintro ⟨⟨p, m₁⟩, c₁, ⟨_, ⟨f, rfl, hmakes⟩, hspans⟩, hrest⟩
        obtain ⟨hnil, fs, hspans', hmake⟩ :=
          (ih (hmakes.upTo_eq hm₀) (hshorter hspans)).mp hrest
        exact ⟨hnil, f :: fs, spans_append.mpr ⟨c₁, hspans, hspans'⟩, .next hmakes hmake⟩
      · rintro ⟨hnil, fs, hspans, hmake⟩
        cases hmake with
        | done =>
          obtain rfl := spans_nil.mp hspans
          exact absurd (List.isEmpty_iff.mpr hnil) hisEnd
        | @next _ p _ m₁ _ f fs hmakes hmake =>
          obtain ⟨c₁, hspans, hspans'⟩ := spans_append.mp hspans
          exact ⟨(p, m₁), c₁, ⟨_, ⟨f, rfl, hmakes⟩, hspans⟩,
            (ih (hmakes.upTo_eq hm₀) (hshorter hspans)).mpr ⟨hnil, fs, hspans', hmake⟩⟩

end Reader

/-! ## The module as a whole -/

namespace Module

open Reader

variable {config : Config} {m : Module}

/-- The section adds nothing to the module. -/
def EmptyAt (m : Module) : SectionId → Prop
  | .custom => True
  | .type => m.types = []
  | .imports => m.imports = []
  | .function => m.funcs = []
  | .table => m.tables = []
  | .memory => m.memories = []
  | .global => m.globals = []
  | .exports => m.exports = []
  | .start => m.start = none
  | .element => m.elements = []
  | .code => m.code = []
  | .data => m.data = []

/-- The frames spell the module, in the order of their sections. -/
structure SpelledBy (config : Config) (m : Module) (fs : List SectionFrame) : Prop where
  ordered : (fs.filter (·.id ≠ .custom)).Pairwise (·.id.number < ·.id.number)
  payloads : ∀ f ∈ fs, m.FrameSpells config f
  absent : ∀ id, (∀ f ∈ fs, f.id ≠ id) → m.EmptyAt id

/-- The frames spell what sections with numbers above `previous` add to the module, and it passes
their checks. -/
structure SpelledFrom (config : Config) (previous : Nat) (m : Module) (fs : List SectionFrame) :
    Prop where
  later : ∀ f ∈ fs, f.id ≠ .custom → previous < f.id.number
  ordered : (fs.filter (·.id ≠ .custom)).Pairwise (·.id.number < ·.id.number)
  payloads : ∀ f ∈ fs, m.FrameSpells config f
  passes : ∀ f ∈ fs, m.Passes config f.id
  counted : m.Counted
  absent : ∀ id : SectionId, previous < id.number → (∀ f ∈ fs, f.id ≠ id) → m.EmptyAt id

theorem emptyAt_iff (id : SectionId) :
    m.EmptyAt id ↔ m.upTo id.number = m.upTo (id.number - 1) := by
  cases id with
  | custom => simp [EmptyAt, SectionId.number]
  | type => exact Component.types.upTo_succ_eq_iff.symm
  | imports => exact Component.imports.upTo_succ_eq_iff.symm
  | function => exact Component.funcs.upTo_succ_eq_iff.symm
  | table => exact Component.tables.upTo_succ_eq_iff.symm
  | memory => exact Component.memories.upTo_succ_eq_iff.symm
  | global => exact Component.globals.upTo_succ_eq_iff.symm
  | exports => exact Component.exports.upTo_succ_eq_iff.symm
  | start => exact Component.start.upTo_succ_eq_iff.symm
  | element => exact Component.elements.upTo_succ_eq_iff.symm
  | code => exact Component.code.upTo_succ_eq_iff.symm
  | data => exact Component.data.upTo_succ_eq_iff.symm

/-- Sections that add nothing are those that can be left out. -/
theorem upTo_eq_iff {a b : Nat} (hab : a ≤ b) (hb : b ≤ 11) :
    m.upTo b = m.upTo a ↔ ∀ id : SectionId, a < id.number → id.number ≤ b → m.EmptyAt id := by
  constructor
  · intro h id hlt hle
    have hcut {n : Nat} (ha : a ≤ n) (hb : n ≤ b) : m.upTo n = m.upTo a := by
      rw [← upTo_upTo_of_le hb, h, upTo_upTo, Nat.min_eq_left ha]
    rw [emptyAt_iff, hcut (Nat.le_of_lt hlt) hle,
      hcut (n := id.number - 1) (by omega) (by omega)]
  · intro h
    obtain ⟨k, rfl⟩ := Nat.exists_eq_add_of_le hab
    induction k with
    | zero => rfl
    | succ k ih =>
      obtain ⟨id, hid⟩ := SectionId.exists_number hb
      have hempty := (emptyAt_iff id).mp (h id (by omega) (by omega))
      rw [hid] at hempty
      rw [hempty]
      exact ih (by omega) (by omega) fun id hlt hle ↦ h id hlt (by omega)

/-- Counting the imports again makes no difference. -/
theorem Counted.recounted (hm : m.Counted) : { m with imported := .ofImports m.imports } = m := by
  rw [← hm]

theorem Counted.upTo_all (hm : m.Counted) : m.upTo 11 = m := hm.recounted

theorem Counted.payload_upTo (hm : m.Counted) (id : SectionId) {bs : List UInt8} :
    (m.upTo id.number).Payload config id bs ↔ m.Payload config id bs := by
  conv_rhs => rw [← hm.recounted]
  cases id <;> exact Iff.rfl

theorem Counted.passes_upTo (hm : m.Counted) (id : SectionId) :
    (m.upTo id.number).Passes config id ↔ m.Passes config id := by
  conv_rhs => rw [← hm.recounted]
  cases id <;> exact Iff.rfl

section SpelledFrom

variable {previous : Nat} {f : SectionFrame} {fs : List SectionFrame}

theorem spelledFrom_nil (hle : previous ≤ 11) :
    m.SpelledFrom config previous [] ↔ m.upTo previous = m := by
  have hiff := upTo_eq_iff (m := m) hle (Nat.le_refl 11)
  constructor
  · intro h
    rw [h.counted.upTo_all] at hiff
    exact (hiff.mpr fun id hlt _ ↦ h.absent id hlt (by simp)).symm
  · intro h
    have hcounted := Counted.of_upTo h
    rw [hcounted.upTo_all] at hiff
    exact ⟨by simp, .nil, by simp, by simp, hcounted,
      fun id hlt _ ↦ hiff.mp h.symm id hlt id.number_le⟩

theorem spelledFrom_custom (hf : f.id = .custom) :
    m.SpelledFrom config previous (f :: fs) ↔ m.SpelledFrom config previous fs := by
  have hfilter : (f :: fs).filter (·.id ≠ .custom) = fs.filter (·.id ≠ .custom) :=
    List.filter_cons_of_neg (by simpa using hf)
  constructor
  · rintro ⟨hlater, hordered, hpayloads, hpasses, hcounted, habsent⟩
    refine ⟨fun g hg ↦ hlater g (.tail _ hg), hfilter ▸ hordered,
      fun g hg ↦ hpayloads g (.tail _ hg), fun g hg ↦ hpasses g (.tail _ hg), hcounted, ?_⟩
    intro id hlt hid
    refine habsent id hlt (List.forall_mem_cons.mpr ⟨?_, hid⟩)
    rintro rfl
    rw [hf] at hlt
    exact Nat.not_lt_zero _ hlt
  · rintro ⟨hlater, hordered, hpayloads, hpasses, hcounted, habsent⟩
    refine ⟨List.forall_mem_cons.mpr ⟨absurd hf, hlater⟩, hfilter.symm ▸ hordered,
      List.forall_mem_cons.mpr ⟨⟨f.payload, [], by simp, ?_⟩, hpayloads⟩,
      List.forall_mem_cons.mpr ⟨?_, hpasses⟩, hcounted, ?_⟩
    · rw [hf]
      trivial
    · rw [hf]
      trivial
    · exact fun id hlt hid ↦ habsent id hlt (List.forall_mem_cons.mp hid).2

theorem spelledFrom_cons (hf : f.id ≠ .custom) :
    m.SpelledFrom config previous (f :: fs) ↔
      previous < f.id.number ∧ m.FrameSpells config f ∧ m.Passes config f.id ∧
        m.upTo (f.id.number - 1) = m.upTo previous ∧ m.SpelledFrom config f.id.number fs := by
  have hfilter : (f :: fs).filter (·.id ≠ .custom) = f :: fs.filter (·.id ≠ .custom) :=
    List.filter_cons_of_pos (by simpa using hf)
  have hbound := f.id.number_le
  constructor
  · rintro ⟨hlater, hordered, hpayloads, hpasses, hcounted, habsent⟩
    rw [hfilter, List.pairwise_cons] at hordered
    obtain ⟨hfirst, hlater⟩ := List.forall_mem_cons.mp hlater
    have hlt := hfirst hf
    have hafter (g : SectionFrame) (hg : g ∈ fs) (hcustom : g.id ≠ .custom) :
        f.id.number < g.id.number :=
      hordered.1 g (List.mem_filter.mpr ⟨hg, by simpa using hcustom⟩)
    refine ⟨hlt, hpayloads f (.head _), hpasses f (.head _), ?_, ⟨hafter, hordered.2,
      fun g hg ↦ hpayloads g (.tail _ hg), fun g hg ↦ hpasses g (.tail _ hg), hcounted, ?_⟩⟩
    · rw [upTo_eq_iff (by omega) (by omega)]
      intro id hlow hhigh
      refine habsent id hlow (List.forall_mem_cons.mpr ⟨?_, fun g hg ↦ ?_⟩)
      · rintro rfl
        omega
      · rintro rfl
        have hcustom : g.id ≠ .custom := fun h ↦ by
          rw [h] at hlow
          exact Nat.not_lt_zero _ hlow
        have := hafter g hg hcustom
        omega
    · intro id hid hfs
      refine habsent id (Nat.lt_trans hlt hid) (List.forall_mem_cons.mpr ⟨?_, hfs⟩)
      rintro rfl
      exact Nat.lt_irrefl _ hid
  · rintro ⟨hlt, hpayload, hpass, hgap, hlater, hordered, hpayloads, hpasses, hcounted, habsent⟩
    refine ⟨List.forall_mem_cons.mpr ⟨fun _ ↦ hlt, fun g hg hcustom ↦ ?_⟩, ?_,
      List.forall_mem_cons.mpr ⟨hpayload, hpayloads⟩,
      List.forall_mem_cons.mpr ⟨hpass, hpasses⟩, hcounted, fun id hid hfs ↦ ?_⟩
    · exact Nat.lt_trans hlt (hlater g hg hcustom)
    · rw [hfilter, List.pairwise_cons]
      refine ⟨fun g hg ↦ ?_, hordered⟩
      obtain ⟨hg, hcustom⟩ := List.mem_filter.mp hg
      exact hlater g hg (by simpa using hcustom)
    · obtain ⟨hne, hfs⟩ := List.forall_mem_cons.mp hfs
      rw [upTo_eq_iff (by omega) (by omega)] at hgap
      obtain hbelow | habove : id.number ≤ f.id.number - 1 ∨ f.id.number < id.number := by
        have hnumbers : f.id.number ≠ id.number := fun h ↦ hne (SectionId.number_injective h)
        omega
      · exact hgap id hid hbelow
      · exact habsent id habove hfs

end SpelledFrom

/-- Made section by section from what it is up to some number, the module is spelled by the sections
that are left. -/
theorem sectionsMake_iff {previous : Nat} {m₀ : Module} {fs : List SectionFrame}
    (hle : previous ≤ 11) (hm₀ : m₀.upTo previous = m₀) :
    SectionsMake config previous m₀ fs m ↔
      m.upTo previous = m₀ ∧ m.SpelledFrom config previous fs := by
  induction fs generalizing previous m₀ with
  | nil =>
    rw [spelledFrom_nil hle]
    constructor
    · intro h
      cases h with
      | done => exact ⟨hm₀, hm₀⟩
    · rintro ⟨rfl, hm⟩
      rw [hm]
      exact .done
  | cons f fs ih =>
    by_cases hcustom : f.id = .custom
    · rw [spelledFrom_custom hcustom, ← ih hle hm₀]
      constructor
      · intro h
        cases h with
        | next hmakes hrest =>
          obtain ⟨-, rfl, rfl⟩ | ⟨hlater, -⟩ := hmakes
          · exact hrest
          · rw [hcustom] at hlater
            exact absurd hlater (Nat.not_lt_zero _)
      · exact .next (.inl ⟨hcustom, rfl, rfl⟩)
    · have hsucc : f.id.number - 1 + 1 = f.id.number := by
        have := mt SectionId.number_eq_zero.mp hcustom
        omega
      rw [spelledFrom_cons hcustom]
      constructor
      · intro h
        cases h with
        | @next _ _ _ m₁ _ _ _ hmakes hrest =>
          have hm₁ := hmakes.upTo_eq hm₀
          obtain ⟨hid, -⟩ | ⟨hlater, rfl, hext, hpass, enc, pad, hbytes, henc⟩ := hmakes
          · exact absurd hid hcustom
          · obtain ⟨rfl, hspelled⟩ := (ih f.id.number_le hm₁).mp hrest
            have hgap : m.upTo (f.id.number - 1) = m₀ := by
              rw [← hext.1, upTo_upTo_of_le (Nat.sub_le _ _)]
            have hprevious : m.upTo previous = m₀ := by
              rw [← hm₀, ← hgap, upTo_upTo_of_le (Nat.le_sub_one_of_lt hlater)]
            exact ⟨hprevious, hlater, ⟨enc, pad, hbytes, (hspelled.counted.payload_upTo _).mp henc⟩,
              (hspelled.counted.passes_upTo _).mp hpass, hgap.trans hprevious.symm, hspelled⟩
      · rintro ⟨rfl, hlater, ⟨enc, pad, hbytes, henc⟩, hpass, hgap, hspelled⟩
        have hrest : SectionsMake config f.id.number (m.upTo f.id.number) fs m :=
          (ih f.id.number_le (upTo_upTo_of_le (Nat.le_refl _))).mpr ⟨rfl, hspelled⟩
        have hcounted := hspelled.counted
        refine .next (.inr ⟨hlater, rfl, ⟨?_, ?_⟩, (hcounted.passes_upTo _).mpr hpass, enc, pad,
          hbytes, (hcounted.payload_upTo _).mpr henc⟩) hrest
        · rw [upTo_upTo_of_le (Nat.sub_le _ _), hgap]
        · rw [hsucc, upTo_upTo_of_le (Nat.le_refl _)]

/-! ## Well-formed modules -/

/-- What holds of every module that is decoded under the limits of `config`. -/
structure WellFormed (config : Config) (m : Module) : Prop where
  counted : m.Counted
  types : ∀ type ∈ m.types, type.results.length ≤ 1
  funcs : ∀ t ∈ m.funcSpace, t < m.types.length
  tables : ∀ l ∈ m.tableSpace, l.Ordered
  oneTable : m.tableSpace.length ≤ 1
  memories : ∀ l ∈ m.memorySpace, l.Ordered ∧ l.Addressable
  oneMemory : m.memorySpace.length ≤ 1
  globals : ∀ g ∈ m.globals, g.init.HasType m.importedGlobals g.type.type
  exportNames : (m.exports.map (·.name)).Nodup
  exports : ∀ e ∈ m.exports, e.index < m.spaceSize e.kind
  start : ∀ index ∈ m.start, m.funcType? index = some ⟨[], []⟩
  elements : ∀ seg ∈ m.elements, m.tableSpace ≠ [] ∧
    seg.offset.HasType m.importedGlobals .i32 ∧ ∀ f ∈ seg.funcs, f < m.funcSpace.length
  bodies : List.Forall₂ (fun t code ↦ m.types[t]? = some code.type) m.funcs m.code
  locals : ∀ code ∈ m.code, code.locals.length ≤ config.maxFunctionLocals
  data : ∀ seg ∈ m.data, m.memorySpace ≠ [] ∧ seg.offset.HasType m.importedGlobals .i32

theorem imports_admissible_iff : (∀ i ∈ m.imports, i.desc.Admissible m.types) ↔
    (∀ t ∈ m.importedFuncs, t < m.types.length) ∧ (∀ l ∈ m.importedTables, l.Ordered) ∧
      ∀ l ∈ m.importedMemories, l.Ordered ∧ l.Addressable := by
  simp only [importedFuncs, importedTables, importedMemories, List.mem_filterMap]
  constructor
  · intro h
    refine ⟨?_, ?_, ?_⟩
    all_goals
      rintro x ⟨i, hi, hx⟩
      have := h i hi
      cases hdesc : i.desc <;> rw [hdesc] at hx this <;> cases hx
      exact this
  · rintro ⟨hfuncs, htables, hmemories⟩ i hi
    cases hdesc : i.desc with
    | func t => exact hfuncs t ⟨i, hi, by rw [hdesc]; rfl⟩
    | table l => exact htables l ⟨i, hi, by rw [hdesc]; rfl⟩
    | memory l => exact hmemories l ⟨i, hi, by rw [hdesc]; rfl⟩
    | global g => trivial

theorem exists_funcType_iff (hm : m.Counted) (hfuncs : ∀ t ∈ m.funcSpace, t < m.types.length)
    {f : Nat} : (∃ type, m.funcType? f = some type) ↔ f < m.funcSpace.length := by
  constructor
  · rintro ⟨type, htype⟩
    exact funcType?_lt hm htype
  · intro hf
    have ht := hfuncs _ (List.getElem_mem hf)
    refine ⟨m.types[m.funcSpace[f]], ?_⟩
    rw [hm.funcType?_eq]
    exact Option.bind_eq_some_iff.mpr ⟨_, List.getElem?_eq_getElem hf, List.getElem?_eq_getElem ht⟩

theorem wellFormed_iff : m.WellFormed config ↔ m.Counted ∧ ∀ id, m.Passes config id := by
  constructor
  · refine fun h ↦ ⟨h.counted, fun id ↦ ?_⟩
    obtain ⟨hfuncs, hdefined⟩ := List.forall_mem_append.mp h.funcs
    obtain ⟨htables, htables'⟩ := List.forall_mem_append.mp h.tables
    obtain ⟨hmemories, hmemories'⟩ := List.forall_mem_append.mp h.memories
    have hone := h.oneTable
    have hone' := h.oneMemory
    have himportedTables : m.importedTables.length ≤ 1 := by
      rw [tableSpace, List.length_append] at hone
      omega
    have himportedMemories : m.importedMemories.length ≤ 1 := by
      rw [memorySpace, List.length_append] at hone'
      omega
    cases id with
    | custom => trivial
    | type => exact h.types
    | imports =>
      exact ⟨imports_admissible_iff.mpr ⟨hfuncs, htables, hmemories⟩, himportedTables,
        himportedMemories⟩
    | function => exact hdefined
    | table => exact ⟨htables', hone, himportedMemories⟩
    | memory => exact ⟨hmemories', hone, hone'⟩
    | global => exact h.globals
    | exports => exact ⟨h.exportNames, h.exports⟩
    | start => exact h.start
    | element =>
      intro seg hseg
      obtain ⟨htable, htype, hexist⟩ := h.elements seg hseg
      exact ⟨htable, htype, fun f hf ↦ (exists_funcType_iff h.counted h.funcs).mpr (hexist f hf)⟩
    | code => exact ⟨h.bodies, h.locals⟩
    | data => exact h.data
  · rintro ⟨hcounted, h⟩
    obtain ⟨himports, -⟩ := h .imports
    obtain ⟨hfuncs, htables, hmemories⟩ := imports_admissible_iff.mp himports
    have hspace := List.forall_mem_append.mpr ⟨hfuncs, h .function⟩
    exact {
      counted := hcounted
      types := h .type
      funcs := hspace
      tables := List.forall_mem_append.mpr ⟨htables, (h .table).1⟩
      oneTable := (h .table).2.1
      memories := List.forall_mem_append.mpr ⟨hmemories, (h .memory).1⟩
      oneMemory := (h .memory).2.2
      globals := h .global
      exportNames := (h .exports).1
      exports := (h .exports).2
      start := h .start
      elements := fun seg hseg ↦ by
        obtain ⟨htable, htype, hexist⟩ := h .element seg hseg
        exact ⟨htable, htype, fun f hf ↦ (exists_funcType_iff hcounted hspace).mp (hexist f hf)⟩
      bodies := (h .code).1
      locals := (h .code).2
      data := h .data }

/-- A section that adds nothing has nothing to be checked for, but that earlier ones have not been
checked for already. -/
theorem passes_of_emptyAt (h : ∀ id, m.Passes config id ∨ m.EmptyAt id)
    (hcode : m.funcs.length = m.code.length) (id : SectionId) : m.Passes config id := by
  have himports : m.Passes config .imports := by
    obtain hpass | hempty := h .imports
    · exact hpass
    · simp [Passes, importedTables, importedMemories, show m.imports = [] from hempty]
  have htable : m.Passes config .table := by
    obtain hpass | hempty := h .table
    · exact hpass
    · simp [Passes, tableSpace, show m.tables = [] from hempty, himports.2]
  obtain hpass | hempty := h id
  · exact hpass
  cases id with
  | custom => trivial
  | type => simp [Passes, show m.types = [] from hempty]
  | imports => exact himports
  | function => simp [Passes, show m.funcs = [] from hempty]
  | table => exact htable
  | memory =>
    simp [Passes, memorySpace, show m.memories = [] from hempty, htable.2.1, himports.2]
  | global => simp [Passes, show m.globals = [] from hempty]
  | exports => simp [Passes, show m.exports = [] from hempty]
  | start => simp [Passes, show m.start = none from hempty]
  | element => simp [Passes, show m.elements = [] from hempty]
  | code =>
    have hnil : m.code = [] := hempty
    rw [hnil, List.length_nil, List.length_eq_zero_iff] at hcode
    simp [Passes, hnil, hcode]
  | data => simp [Passes, show m.data = [] from hempty]

theorem spelledFrom_zero_iff {fs : List SectionFrame} :
    m.SpelledFrom config 0 fs ∧ m.funcs.length = m.code.length ↔
      m.SpelledBy config fs ∧ m.WellFormed config := by
  rw [wellFormed_iff]
  constructor
  · rintro ⟨⟨-, hordered, hpayloads, hpasses, hcounted, habsent⟩, hcode⟩
    have hempty (id : SectionId) (hid : ∀ f ∈ fs, f.id ≠ id) : m.EmptyAt id := by
      by_cases hcustom : id = .custom
      · rw [hcustom]
        trivial
      · exact habsent id (Nat.pos_of_ne_zero (mt SectionId.number_eq_zero.mp hcustom)) hid
    refine ⟨⟨hordered, hpayloads, hempty⟩, hcounted, passes_of_emptyAt (fun id ↦ ?_) hcode⟩
    by_cases hid : ∃ f ∈ fs, f.id = id
    · obtain ⟨f, hf, rfl⟩ := hid
      exact .inl (hpasses f hf)
    · exact .inr (hempty id fun f hf heq ↦ hid ⟨f, hf, heq⟩)
  · rintro ⟨⟨hordered, hpayloads, habsent⟩, hcounted, hpasses⟩
    refine ⟨⟨fun f _ hcustom ↦ ?_, hordered, hpayloads, fun f _ ↦ hpasses f.id, hcounted,
      fun id _ ↦ habsent id⟩, (hpasses .code).1.length_eq⟩
    exact Nat.pos_of_ne_zero (mt SectionId.number_eq_zero.mp hcustom)

end Module

/-! ## Binaries -/

def preambleBytes : List UInt8 := [0x00, 0x61, 0x73, 0x6d, 0x01, 0x00, 0x00, 0x00]

theorem littleEndian_injective {bs bs' : List UInt8} (hlength : bs.length = bs'.length)
    (h : littleEndian bs = littleEndian bs') : bs = bs' := by
  induction bs generalizing bs' with
  | nil => exact (List.length_eq_zero_iff.mp hlength.symm).symm
  | cons b bs ih =>
    cases bs' with
    | nil => cases hlength
    | cons b' bs' =>
      simp only [littleEndian] at h
      have hb := b.toNat_lt
      have hb' := b'.toNat_lt
      have hfirst : b = b' := UInt8.toNat_inj.mp (by omega)
      rw [hfirst, ih (Nat.succ.inj hlength) (by omega)]

namespace Reader

theorem preamble_reads : Reads preamble fun _ bs ↦ bs = preambleBytes := by
  refine .congr (.bind (fixed_reads 4) fun n ↦ .guard (.bind (fixed_reads 4) fun v ↦
    .ite (.throw _) (.pure ()))) fun u bs ↦ ?_
  constructor
  · rintro ⟨n, bs₁, _, rfl, ⟨hlength, rfl⟩, hmagic, v, bs₂, _, rfl, ⟨hlength', rfl⟩,
      ⟨-, hfalse⟩ | ⟨hversion, -, rfl⟩⟩
    · exact hfalse.elim
    · have h₁ : bs₁ = [0x00, 0x61, 0x73, 0x6d] :=
        littleEndian_injective hlength (not_not.mp hmagic)
      have h₂ : bs₂ = [0x01, 0x00, 0x00, 0x00] :=
        littleEndian_injective hlength' (not_not.mp hversion)
      rw [h₁, h₂]
      rfl
  · rintro rfl
    exact ⟨magic, [0x00, 0x61, 0x73, 0x6d], [0x01, 0x00, 0x00, 0x00], rfl, ⟨rfl, rfl⟩, by simp,
      version, [0x01, 0x00, 0x00, 0x00], [], rfl, ⟨rfl, rfl⟩, .inr ⟨by simp, rfl, rfl⟩⟩

end Reader

namespace Module

open Reader

/-- A binary is decoded to a module just if it spells it and the module is well formed. -/
theorem decode_eq_ok_iff {config : Config} {bytes : List UInt8} {m : Module} :
    decode config bytes = .ok m ↔
      (∃ fs, bytes = preambleBytes ++ fs.flatMap SectionFrame.bytes ∧ m.SpelledBy config fs) ∧
        m.WellFormed config := by
  have hdecode : decode config bytes = .ok m ↔
      ∃ c, (Reader.module config).run (.ofBytes bytes) = .ok m c := by
    unfold decode
    cases (Reader.module config).run (.ofBytes bytes) <;> simp
  have hempty : ({} : Module).upTo 0 = {} := rfl
  rw [hdecode]
  simp only [Reader.module, run_bind_eq_ok, run_get_eq_ok, run_ite]
  constructor
  · rintro ⟨c, _, c₁, hpreamble, _, _, ⟨rfl, rfl⟩, m₁, c₂, hsections, h⟩
    split at h
    · simp only [run_bind_eq_ok, run_throw_eq_ok, false_and, exists_false] at h
    · rename_i hcode
      obtain ⟨rfl, rfl⟩ := run_pure_eq_ok.mp h
      obtain ⟨_, rfl, hspans⟩ := (preamble_reads _ _ _).mp hpreamble
      obtain ⟨hrest, fs, hspans', hmake⟩ :=
        (allSections_reads hempty (Nat.le_refl _)).mp hsections
      obtain ⟨-, hspelled⟩ := (sectionsMake_iff (Nat.zero_le _) hempty).mp hmake
      obtain ⟨hspelled, hwellFormed⟩ := spelledFrom_zero_iff.mp ⟨hspelled, not_not.mp hcode⟩
      refine ⟨⟨fs, ?_, hspelled⟩, hwellFormed⟩
      have hbytes : bytes = preambleBytes ++ c₁.rest := hspans.1
      rw [hbytes, hspans'.1, hrest, List.append_nil]
  · rintro ⟨⟨fs, rfl, hspelled⟩, hwellFormed⟩
    obtain ⟨hspelled, hcode⟩ := spelledFrom_zero_iff.mpr ⟨hspelled, hwellFormed⟩
    have hmake := (sectionsMake_iff (Nat.zero_le _) hempty).mpr ⟨rfl, hspelled⟩
    let c₁ : Cursor := ⟨0 + preambleBytes.length, fs.flatMap SectionFrame.bytes⟩
    let c₂ : Cursor := ⟨c₁.offset + (fs.flatMap SectionFrame.bytes).length, []⟩
    have hpreamble := (preamble_reads (.ofBytes _) () c₁).mpr ⟨_, rfl, rfl, rfl⟩
    have hspans : c₁.Spans (fs.flatMap SectionFrame.bytes) c₂ := ⟨(List.append_nil _).symm, rfl⟩
    have hsections := (allSections_reads hempty (Nat.le_refl _)).mpr ⟨rfl, fs, hspans, hmake⟩
    refine ⟨c₂, (), c₁, hpreamble, c₁, c₁, ⟨rfl, rfl⟩, m, c₂, hsections, ?_⟩
    rw [if_neg (not_not.mpr hcode)]
    rfl

/-- The imports are counted, and functions and globals are found by index as if the definitions
followed the imports in one list. -/
structure Indexed (m : Module) : Prop where
  funcs : m.imported.funcs = (m.imports.filterMap (·.desc.func?)).length
  tables : m.imported.tables = (m.imports.filterMap (·.desc.table?)).length
  memories : m.imported.memories = (m.imports.filterMap (·.desc.memory?)).length
  globals : m.imported.globals = (m.imports.filterMap (·.desc.global?)).length
  funcTypes : m.imported.funcTypes = m.imports.filterMap (·.desc.func?)
  globalTypes : m.imported.globalTypes = m.imports.filterMap (·.desc.global?)
  funcType (i : Nat) : m.funcType? i =
    (m.imports.filterMap (·.desc.func?) ++ m.funcs)[i]?.bind fun t ↦ m.types[t]?
  globalType (i : Nat) : m.globalType? i =
    (m.imports.filterMap (·.desc.global?) ++ m.globals.map (·.type))[i]?
  importedFunc {i t : Nat} : (m.imports.filterMap (·.desc.func?))[i]? = some t →
    ∃ type, m.types[t]? = some type ∧ m.funcType? i = some type
  definedFunc {j : Nat} {code : Code} : m.code[j]? = some code →
    m.funcType? ((m.imports.filterMap (·.desc.func?)).length + j) = some code.type
  importedGlobal {i : Nat} {g : GlobalType} :
    (m.imports.filterMap (·.desc.global?))[i]? = some g → m.globalType? i = some g
  definedGlobal {j : Nat} {g : GlobalDecl} : m.globals[j]? = some g →
    m.globalType? ((m.imports.filterMap (·.desc.global?)).length + j) = some g.type

theorem WellFormed.indexed {config : Config} {m : Module} (h : m.WellFormed config) :
    m.Indexed where
  funcs := h.counted.funcs_eq
  tables := h.counted.tables_eq
  memories := h.counted.memories_eq
  globals := h.counted.globals_eq
  funcTypes := h.counted.funcTypes_eq
  globalTypes := h.counted.globalTypes_eq
  funcType := h.counted.funcType?_eq
  globalType := h.counted.globalType?_eq
  importedFunc {i t} ht := by
    obtain ⟨hi, -⟩ := List.getElem?_eq_some_iff.mp ht
    have hspace : m.funcSpace[i]? = some t := (List.getElem?_append_left hi).trans ht
    have hlt := h.funcs t (List.mem_of_getElem? hspace)
    refine ⟨_, List.getElem?_eq_getElem hlt, ?_⟩
    rw [h.counted.funcType?_eq]
    exact Option.bind_eq_some_iff.mpr ⟨t, hspace, List.getElem?_eq_getElem hlt⟩
  definedFunc {j code} hcode := by
    obtain ⟨t, ht, htype⟩ := forall₂_getElem?_right h.bodies hcode
    rw [h.counted.funcType?_eq]
    refine Option.bind_eq_some_iff.mpr ⟨t, ?_, htype⟩
    refine (List.getElem?_append_right (Nat.le_add_right _ _)).trans ?_
    rwa [importedFuncs, Nat.add_sub_cancel_left]
  importedGlobal {i g} hg := by
    obtain ⟨hi, -⟩ := List.getElem?_eq_some_iff.mp hg
    rw [h.counted.globalType?_eq]
    exact (List.getElem?_append_left hi).trans hg
  definedGlobal {j g} hg := by
    rw [h.counted.globalType?_eq]
    refine (List.getElem?_append_right (Nat.le_add_right _ _)).trans ?_
    rw [importedGlobals, Nat.add_sub_cancel_left, List.getElem?_map, hg]
    rfl

theorem wellFormed_of_decode {config : Config} {bytes : List UInt8} {m : Module}
    (h : decode config bytes = .ok m) : m.WellFormed config :=
  (decode_eq_ok_iff.mp h).2

/-- Whatever is decoded is well formed. Each import was counted when it was read, and no later
section touches the counts, so an index is looked up in what the module imports and defines. -/
theorem decode_wellFormed {config : Config} {bytes : List UInt8} {m : Module}
    (h : decode config bytes = .ok m) : m.WellFormed config ∧ m.Indexed :=
  have hm := wellFormed_of_decode h
  ⟨hm, hm.indexed⟩

/-- A binary with a section of each kind. -/
def sampleBinary : List UInt8 :=
  preambleBytes ++
    [1, 9, 2, 0x60, 0, 0, 0x60, 1, 0x7f, 1, 0x7f,
     2, 14, 2, 1, 0x6d, 1, 0x66, 0, 0, 1, 0x6d, 1, 0x67, 3, 0x7f, 0,
     3, 3, 2, 1, 0,
     4, 5, 1, 0x70, 1, 2, 4,
     5, 4, 1, 1, 1, 2,
     6, 6, 1, 0x7f, 1, 0x23, 0, 0x0b,
     7, 9, 2, 1, 0x61, 0, 1, 1, 0x74, 1, 0,
     8, 1, 2,
     9, 8, 1, 0, 0x41, 0, 0x0b, 2, 0, 1,
     10, 11, 2, 4, 0, 0x20, 0, 0x0b, 4, 1, 1, 0x7e, 0x0b,
     11, 8, 1, 0, 0x41, 5, 0x0b, 2, 0x68, 0x69]

/-- The binary decodes, so the theorem applies to the module it gives. -/
theorem sampleBinary_wellFormed :
    ∃ m, decode {} sampleBinary = .ok m ∧ m.WellFormed {} ∧ m.Indexed := by
  have hdecode : (decode {} sampleBinary).isOk := by decide +kernel
  cases hm : decode {} sampleBinary with
  | error e => rw [hm] at hdecode; cases hdecode
  | ok m => exact ⟨m, rfl, decode_wellFormed hm⟩

end Module

end WasmEngine
