import WasmEngine.Instr.Encoding
import WasmEngine.Proofs.Reading

/-!
# Grammars of bytes

A grammar says which byte strings spell a value, without a word about how they are read. A reader is
exact for a grammar when it accepts what the grammar spells, whatever follows, consumes just that,
and accepts nothing else. `Reader.Reads` states this as one equivalence, so that it is built up
along a reader, and its two directions come out together.

The grammars of this module are those of numbers, names and types. A number has many spellings,
since its last digits may be padded; everything else has one up to the numbers in it.
-/

namespace WasmEngine

/-- Which byte strings spell a value. -/
abbrev Grammar (α : Type) := α → List UInt8 → Prop

namespace Grammar

variable {α β : Type}

/-- A part that depends on the one before it. -/
def bind (G : Grammar α) (H : α → Grammar β) : Grammar β := fun b bs ↦
  ∃ a bs₁ bs₂, bs = bs₁ ++ bs₂ ∧ G a bs₁ ∧ H a b bs₂

inductive items (item : Grammar α) : Grammar (List α)
  | nil : items item [] []
  | cons {a : α} {as : List α} {bs bs' : List UInt8} (ha : item a bs) (has : items item as bs') :
      items item (a :: as) (bs ++ bs')

/-- The number whose digits in base 128, the lowest first, are the payloads of the bytes and, last,
`top`. -/
def base128 : List UInt8 → Int → Int
  | [], top => top
  | b :: bs, top => Reader.group b + 128 * base128 bs top

/-- An integer in at most `n + 1` bytes, of which every one but the last says that another follows.
The last digit counts as `digit` says, and must be `legal` if it is in the last byte there may
be. -/
def varint (digit : UInt8 → Int) (legal : UInt8 → Prop) (n : Nat) : Grammar Int := fun i bs ↦
  ∃ init last, bs = init ++ [last] ∧ (∀ b ∈ init, Reader.continues b = true) ∧
    Reader.continues last = false ∧ (init.length < n ∨ (init.length = n ∧ legal last)) ∧
    i = base128 init (digit last)

/-- An unsigned integer of 32 bits: the fifth byte carries four of them. -/
def unsigned : Grammar Nat := fun n ↦
  varint (fun b ↦ b.toNat) (fun b ↦ b.toNat < 16) 4 n

/-- A signed integer of 32 bits: the fifth byte carries four of them and repeats the sign. -/
def signed : Grammar Int :=
  varint Reader.signedGroup (fun b ↦ b.toNat < 8 ∨ 120 ≤ b.toNat) 4

/-- A count, and that many items. -/
def vector (item : Grammar α) : Grammar (List α) := fun as bs ↦
  ∃ count rest, bs = count ++ rest ∧ unsigned as.length count ∧ items item as rest

def byteString : Grammar (List UInt8) := fun bytes bs ↦
  ∃ count, bs = count ++ bytes ∧ unsigned bytes.length count

def name : Grammar String := fun s ↦ byteString s.toUTF8.data.toList

def tag : ValueType → Int
  | .i32 => -1
  | .i64 => -2
  | .f32 => -3
  | .f64 => -4

def valueType : Grammar ValueType := fun t ↦ signed (tag t)

def blockType : Grammar (Option ValueType)
  | none => signed (-0x40)
  | some t => valueType t

def kindByte : ExternKind → UInt8
  | .func => 0
  | .table => 1
  | .memory => 2
  | .global => 3

def externKind : Grammar ExternKind := fun kind bs ↦ bs = [kindByte kind]

inductive limits : Grammar Limits
  | unbounded {n : Nat} {flag min : List UInt8} (hflag : unsigned 0 flag)
      (hmin : unsigned n min) : limits ⟨n, none⟩ (flag ++ min)
  | bounded {n k : Nat} {flag min max : List UInt8} (hflag : unsigned 1 flag)
      (hmin : unsigned n min) (hmax : unsigned k max) :
      limits ⟨n, some k⟩ (flag ++ (min ++ max))

inductive funcType : Grammar FuncType
  | nothing {ts : List ValueType} {form params count : List UInt8} (hform : signed (-0x20) form)
      (hparams : vector valueType ts params) (hcount : unsigned 0 count) :
      funcType ⟨ts, []⟩ (form ++ (params ++ count))
  | value {ts : List ValueType} {t : ValueType} {form params count result : List UInt8}
      (hform : signed (-0x20) form) (hparams : vector valueType ts params)
      (hcount : unsigned 1 count) (hresult : valueType t result) :
      funcType ⟨ts, [t]⟩ (form ++ (params ++ (count ++ result)))

/-- Tables hold functions and nothing else. -/
def tableType : Grammar Limits := fun l bs ↦
  ∃ elem rest, bs = elem ++ rest ∧ signed (-0x10) elem ∧ limits l rest

def globalType : Grammar GlobalType := fun g bs ↦
  ∃ type flag, bs = type ++ flag ∧ valueType g.type type ∧ unsigned g.isMutable.toNat flag

end Grammar

namespace Cursor

/-- From the first cursor to the second lie the given bytes. -/
def Spans (c : Cursor) (bs : List UInt8) (c' : Cursor) : Prop :=
  c.rest = bs ++ c'.rest ∧ c'.offset = c.offset + bs.length

variable {c c' c'' : Cursor} {bs bs' : List UInt8}

theorem spans_nil : c.Spans [] c' ↔ c = c' := by
  cases c
  cases c'
  simp [Spans, and_comm, eq_comm]

/-- A stretch of the input can be divided anywhere. -/
theorem spans_append : c.Spans (bs ++ bs') c'' ↔ ∃ c', c.Spans bs c' ∧ c'.Spans bs' c'' := by
  constructor
  · rintro ⟨hrest, hoffset⟩
    refine ⟨⟨c.offset + bs.length, bs' ++ c''.rest⟩, ⟨by simpa using hrest, rfl⟩, rfl, ?_⟩
    simpa [Nat.add_assoc] using hoffset
  · rintro ⟨c', ⟨hrest, hoffset⟩, hrest', hoffset'⟩
    refine ⟨by rw [hrest, hrest', List.append_assoc], ?_⟩
    rw [hoffset', hoffset, List.length_append, Nat.add_assoc]

theorem Spans.eq_advance (h : c.Spans bs c') : c' = c.advance bs.length := by
  obtain ⟨hrest, hoffset⟩ := h
  cases c'
  simp_all [advance]

theorem Spans.length_le (h : c.Spans bs c') : bs.length ≤ c.remaining := by
  rw [remaining, h.1, List.length_append]
  exact Nat.le_add_right _ _

/-- A stretch is a prefix of what is left, and the cursor is behind it afterwards. -/
theorem spans_iff : c.Spans bs c' ↔ bs <+: c.rest ∧ c' = c.advance bs.length := by
  constructor
  · intro h
    exact ⟨⟨c'.rest, h.1.symm⟩, h.eq_advance⟩
  · rintro ⟨⟨rest, hrest⟩, rfl⟩
    refine ⟨?_, rfl⟩
    rw [advance, ← hrest, List.drop_left]

end Cursor

namespace Reader

open Cursor

variable {α β : Type} {G : Grammar α}

/-- The reader accepts what the grammar spells, whatever follows it, and nothing else. -/
def Reads (r : Reader α) (G : Grammar α) : Prop :=
  ∀ c a c', r.run c = .ok a c' ↔ ∃ bs, G a bs ∧ c.Spans bs c'

namespace Reads

/-- A reader is exact for a grammar that spells the same. -/
theorem congr {r : Reader α} {H : Grammar α} (h : Reads r G) (hGH : ∀ a bs, G a bs ↔ H a bs) :
    Reads r H := by
  intro c a c'
  rw [h c a c']
  simp only [hGH]

/-- What is read first may decide what the rest has to be exact for. -/
theorem bind_of {r : Reader α} {f : α → Reader β} {H : α → Grammar β} (hr : Reads r G)
    (hf : ∀ a bs, G a bs → Reads (f a) (H a)) : Reads (r >>= f) (G.bind H) := by
  intro c b c''
  rw [run_bind_eq_ok]
  constructor
  · rintro ⟨a, c', hfirst, hrest⟩
    obtain ⟨bs, ha, hspans⟩ := (hr c a c').mp hfirst
    obtain ⟨bs', hb, hspans'⟩ := (hf a bs ha c' b c'').mp hrest
    exact ⟨bs ++ bs', ⟨a, bs, bs', rfl, ha, hb⟩, spans_append.mpr ⟨c', hspans, hspans'⟩⟩
  · rintro ⟨_, ⟨a, bs, bs', rfl, ha, hb⟩, hspans⟩
    obtain ⟨c', hspans, hspans'⟩ := spans_append.mp hspans
    exact ⟨a, c', (hr c a c').mpr ⟨bs, ha, hspans⟩,
      (hf a bs ha c' b c'').mpr ⟨bs', hb, hspans'⟩⟩

/-- Readers one after the other read what is spelled one after the other. -/
theorem bind {r : Reader α} {f : α → Reader β} {H : α → Grammar β} (hr : Reads r G)
    (hf : ∀ a, Reads (f a) (H a)) : Reads (r >>= f) (G.bind H) :=
  hr.bind_of fun a _ _ ↦ hf a

theorem pure (a : α) : Reads (pure a) fun b bs ↦ b = a ∧ bs = [] := by
  intro c b c'
  rw [run_pure_eq_ok]
  constructor
  · rintro ⟨rfl, rfl⟩
    exact ⟨[], ⟨rfl, rfl⟩, spans_nil.mpr rfl⟩
  · rintro ⟨_, ⟨rfl, rfl⟩, hspans⟩
    exact ⟨rfl, spans_nil.mp hspans⟩

/-- The last step of a reader makes its result of the parts. -/
theorem map {r : Reader α} (hr : Reads r G) (f : α → β) :
    Reads (r >>= fun a ↦ Pure.pure (f a)) fun b bs ↦ ∃ a, b = f a ∧ G a bs := by
  refine (hr.bind fun a ↦ pure (f a)).congr fun b bs ↦ ?_
  constructor
  · rintro ⟨a, bs, _, rfl, ha, rfl, rfl⟩
    exact ⟨a, rfl, by simpa using ha⟩
  · rintro ⟨a, rfl, ha⟩
    exact ⟨a, bs, [], by simp, ha, rfl, rfl⟩

/-- A reader that fails reads what nothing spells. -/
theorem throw (e : DecodeError) : Reads (throw e : Reader α) fun _ _ ↦ False := by
  intro c a c'
  simp [run_throw_eq_ok]

theorem failAt (pos : Nat) (fault : Fault) :
    Reads (failAt pos fault : Reader α) fun _ _ ↦ False := throw _

/-- Depending on a condition, one grammar or the other. -/
theorem ite {p : Prop} [Decidable p] {r r' : Reader α} {G' : Grammar α} (hr : Reads r G)
    (hr' : Reads r' G') :
    Reads (if p then r else r') fun a bs ↦ (p ∧ G a bs) ∨ (¬p ∧ G' a bs) := by
  split
  · rename_i hp
    exact hr.congr fun a bs ↦ by simp [hp]
  · rename_i hp
    exact hr'.congr fun a bs ↦ by simp [hp]

/-- A check that fails under the condition `p`, and then the rest. -/
theorem guard {p : Prop} [Decidable p] {e : DecodeError} {f : Unit → Reader α}
    (hf : Reads (f ()) G) :
    Reads (if p then MonadExcept.throw e >>= f else f ()) fun a bs ↦ ¬p ∧ G a bs := by
  refine (ite ((throw e).bind fun _ ↦ hf) hf).congr fun a bs ↦ ?_
  simp [Grammar.bind]

/-- Where a reader stands matters only for what it reports when it fails. -/
theorem located {f : Nat → Reader α} (hf : ∀ pos, Reads (f pos) G) :
    Reads (offset >>= f) G := by
  intro c a c'
  rw [← hf c.offset, run_bind_eq_ok]
  constructor
  · rintro ⟨pos, c₁, hpos, hrest⟩
    obtain ⟨rfl, rfl⟩ := run_offset_eq_ok.mp hpos
    exact hrest
  · intro hrest
    exact ⟨c.offset, c, run_offset_eq_ok.mpr ⟨rfl, rfl⟩, hrest⟩

theorem byte : Reads byte fun b bs ↦ bs = [b] := by
  rintro ⟨pos, rest⟩ a ⟨pos', rest'⟩
  cases rest with
  | nil => simp [Reader.byte, EStateM.run, endOfInput, Spans]
  | cons b rest => simp [Reader.byte, EStateM.run, Spans, and_assoc, and_comm, eq_comm]

/-- A string of known length is spelled by itself. -/
theorem bytes (n : Nat) : Reads (bytes n) fun as bs ↦ bs = as ∧ as.length = n := by
  intro c as c'
  change (if n ≤ c.remaining then EStateM.Result.ok (c.rest.take n) (c.advance n)
    else endOfInput c) = .ok as c' ↔ _
  split
  · rename_i hn
    rw [EStateM.Result.ok.injEq]
    constructor
    · rintro ⟨rfl, rfl⟩
      have hlength : (c.rest.take n).length = n := List.length_take_of_le hn
      refine ⟨c.rest.take n, ⟨rfl, hlength⟩, spans_iff.mpr ⟨List.take_prefix n c.rest, ?_⟩⟩
      rw [hlength]
    · rintro ⟨bs, ⟨rfl, rfl⟩, hspans⟩
      obtain ⟨hstarts, rfl⟩ := spans_iff.mp hspans
      exact ⟨(List.prefix_iff_eq_take.mp hstarts).symm, rfl⟩
  · rename_i hn
    simp only [endOfInput, reduceCtorEq, false_iff]
    rintro ⟨bs, ⟨rfl, rfl⟩, hspans⟩
    exact hn hspans.length_le

/-- Items one after the other, by induction on how many there are. -/
theorem repeated {item : Reader α} (hitem : Reads item G) (n : Nat) :
    Reads (repeated item n) fun as bs ↦ as.length = n ∧ Grammar.items G as bs := by
  induction n with
  | zero =>
    refine (pure []).congr fun as bs ↦ ?_
    constructor
    · rintro ⟨rfl, rfl⟩
      exact ⟨rfl, .nil⟩
    · rintro ⟨hlength, has⟩
      cases has with
      | nil => exact ⟨rfl, rfl⟩
      | cons => cases hlength
  | succ n ih =>
    refine (hitem.bind fun a ↦ ih.map (a :: ·)).congr fun as bs ↦ ?_
    constructor
    · rintro ⟨a, bs, bs', rfl, ha, as, rfl, hlength, has⟩
      exact ⟨by simp [hlength], .cons ha has⟩
    · rintro ⟨hlength, has⟩
      cases has with
      | nil => cases hlength
      | cons ha has => exact ⟨_, _, _, rfl, ha, _, rfl, by simpa using hlength, has⟩

end Reads

/-! ## Numbers -/

section Varint

variable {digit : UInt8 → Int} {legal : UInt8 → Prop} {i : Int} {bs : List UInt8}

/-- If only one byte may come, it is the last one, and has to be legal. -/
theorem varint_zero : Grammar.varint digit legal 0 i bs ↔
    ∃ b, bs = [b] ∧ continues b = false ∧ legal b ∧ i = digit b := by
  constructor
  · rintro ⟨init, last, rfl, -, hlast, hlt | ⟨hlength, hlegal⟩, rfl⟩
    · exact absurd hlt (Nat.not_lt_zero _)
    · obtain rfl := List.length_eq_zero_iff.mp hlength
      exact ⟨last, rfl, hlast, hlegal, rfl⟩
  · rintro ⟨b, rfl, hb, hlegal, rfl⟩
    exact ⟨[], b, rfl, by simp, hb, .inr ⟨rfl, hlegal⟩, rfl⟩

/-- If more may come, the first byte is the last one, or is the lowest digit of what follows. -/
theorem varint_succ {n : Nat} : Grammar.varint digit legal (n + 1) i bs ↔
    (∃ b, bs = [b] ∧ continues b = false ∧ i = digit b) ∨
      ∃ b bs' j, bs = b :: bs' ∧ continues b = true ∧ Grammar.varint digit legal n j bs' ∧
        i = group b + 128 * j := by
  constructor
  · rintro ⟨init, last, rfl, hinit, hlast, hlength, rfl⟩
    cases init with
    | nil => exact .inl ⟨last, rfl, hlast, rfl⟩
    | cons b init =>
      obtain ⟨hb, hinit⟩ := List.forall_mem_cons.mp hinit
      refine .inr ⟨b, init ++ [last], _, rfl, hb, ⟨init, last, rfl, hinit, hlast, ?_, rfl⟩, rfl⟩
      simpa [Nat.succ_lt_succ_iff] using hlength
  · rintro (⟨b, rfl, hb, rfl⟩ |
      ⟨b, _, _, rfl, hb, ⟨init, last, rfl, hinit, hlast, hlength, rfl⟩, rfl⟩)
    · exact ⟨[], b, rfl, by simp, hb, .inl (Nat.succ_pos n), rfl⟩
    · refine ⟨b :: init, last, rfl, List.forall_mem_cons.mpr ⟨hb, hinit⟩, hlast, ?_, rfl⟩
      simpa [Nat.succ_lt_succ_iff] using hlength

theorem varint_nonneg {n : Nat} (hdigit : ∀ b, 0 ≤ digit b)
    (h : Grammar.varint digit legal n i bs) : 0 ≤ i := by
  obtain ⟨init, last, -, -, -, -, rfl⟩ := h
  induction init with
  | nil => exact hdigit last
  | cons b init ih =>
    rw [Grammar.base128]
    omega

end Varint

/-- The last byte of an integer is below 128. -/
theorem continues_eq_false {b : UInt8} : continues b = false ↔ b.toNat < 128 := by
  simp [continues]

theorem group_eq_toNat {b : UInt8} (h : continues b = false) : group b = b.toNat :=
  Nat.mod_eq_of_lt (continues_eq_false.mp h)

/-- An unsigned integer is written in digits to base 128, by induction on how many bytes may come.
-/
theorem unsignedTail_reads (start n : Nat) :
    Reads (unsignedTail start n) fun (k : Nat) ↦
      Grammar.varint (fun b ↦ b.toNat) (fun b ↦ b.toNat < 16) n k := by
  induction n with
  | zero =>
    refine (Reads.byte.bind fun b ↦ .ite (.pure b.toNat) (.failAt _ _)).congr fun k bs ↦ ?_
    rw [varint_zero]
    constructor
    · rintro ⟨b, _, _, rfl, rfl, ⟨hb, rfl, rfl⟩ | ⟨-, hfalse⟩⟩
      · exact ⟨b, rfl, continues_eq_false.mpr (by omega), hb, rfl⟩
      · exact hfalse.elim
    · rintro ⟨b, rfl, -, hb, hk⟩
      exact ⟨b, [b], [], rfl, rfl, .inl ⟨hb, by omega, rfl⟩⟩
  | succ n ih =>
    refine (Reads.byte.bind fun b ↦ .ite (ih.map (group b + 128 * ·)) (.pure (group b))).congr
      fun k bs ↦ ?_
    rw [varint_succ]
    constructor
    · rintro ⟨b, _, bs, rfl, rfl, ⟨hb, j, rfl, hj⟩ | ⟨hb, rfl, rfl⟩⟩
      · exact .inr ⟨b, bs, j, rfl, hb, hj, by push_cast; rfl⟩
      · rw [Bool.not_eq_true] at hb
        exact .inl ⟨b, rfl, hb, by rw [group_eq_toNat hb]⟩
    · rintro (⟨b, rfl, hb, hk⟩ | ⟨b, bs, j, rfl, hb, hj, hk⟩)
      · have hgroup := group_eq_toNat hb
        exact ⟨b, [b], [], rfl, rfl, .inr ⟨by simp [hb], by omega, rfl⟩⟩
      · have hnonneg : 0 ≤ j := varint_nonneg (fun b ↦ Int.natCast_nonneg _) hj
        lift j to Nat using hnonneg
        exact ⟨b, [b], bs, rfl, rfl, .inl ⟨hb, j, by omega, hj⟩⟩

theorem varuint32_reads : Reads varuint32 Grammar.unsigned :=
  .located fun start ↦ unsignedTail_reads start 4

/-- A signed integer is written likewise, but its last digit has a sign. -/
theorem signedTail_reads (start n : Nat) :
    Reads (signedTail start n)
      (Grammar.varint signedGroup (fun b ↦ b.toNat < 8 ∨ 120 ≤ b.toNat) n) := by
  induction n with
  | zero =>
    refine (Reads.byte.bind fun b ↦ .ite (.pure (signedGroup b)) (.failAt _ _)).congr fun i bs ↦ ?_
    rw [varint_zero]
    constructor
    · rintro ⟨b, _, _, rfl, rfl, ⟨hb, rfl, rfl⟩ | ⟨-, hfalse⟩⟩
      · exact ⟨b, rfl, continues_eq_false.mpr (by omega), by omega, rfl⟩
      · exact hfalse.elim
    · rintro ⟨b, rfl, hb, hlegal, rfl⟩
      have hlt := continues_eq_false.mp hb
      exact ⟨b, [b], [], rfl, rfl, .inl ⟨by omega, rfl, rfl⟩⟩
  | succ n ih =>
    refine (Reads.byte.bind fun b ↦
      .ite (ih.map (group b + 128 * ·)) (.pure (signedGroup b))).congr fun i bs ↦ ?_
    rw [varint_succ]
    constructor
    · rintro ⟨b, _, bs, rfl, rfl, ⟨hb, j, rfl, hj⟩ | ⟨hb, rfl, rfl⟩⟩
      · exact .inr ⟨b, bs, j, rfl, hb, hj, rfl⟩
      · exact .inl ⟨b, rfl, by simpa using hb, rfl⟩
    · rintro (⟨b, rfl, hb, rfl⟩ | ⟨b, bs, j, rfl, hb, hj, rfl⟩)
      · exact ⟨b, [b], [], rfl, rfl, .inr ⟨by simp [hb], rfl, rfl⟩⟩
      · exact ⟨b, [b], bs, rfl, rfl, .inl ⟨hb, j, rfl, hj⟩⟩

theorem varint32_reads : Reads varint32 Grammar.signed :=
  .located fun start ↦ signedTail_reads start 4

/-- A flag is zero or one, in any of their forms. -/
theorem varuint1_reads : Reads varuint1 fun b ↦ Grammar.unsigned b.toNat := by
  refine .located fun start ↦ .congr (.bind varuint32_reads
    (H := fun n (b : Bool) bs ↦ n = b.toNat ∧ bs = []) fun n ↦ ?_) fun b bs ↦ ?_
  · split
    · refine (Reads.pure false).congr fun b bs ↦ ?_
      cases b <;> simp
    · refine (Reads.pure true).congr fun b bs ↦ ?_
      cases b <;> simp
    · rename_i h₀ h₁
      refine (Reads.failAt _ _).congr fun b bs ↦ ?_
      cases b <;> simp_all
  · constructor
    · rintro ⟨_, bs, _, rfl, hn, rfl, rfl⟩
      simpa using hn
    · intro hb
      exact ⟨_, bs, [], by simp, hb, rfl, rfl⟩

/-- A number that is read and then checked. -/
theorem Reads.checked {r : Reader α} {p : α → Prop} [DecidablePred p] (hr : Reads r G)
    (e : DecodeError) :
    Reads (r >>= fun a ↦ if p a then Pure.pure a else MonadExcept.throw e)
      fun a bs ↦ p a ∧ G a bs := by
  refine (hr.bind fun a ↦ .ite (.pure a) (.throw e)).congr fun a bs ↦ ?_
  constructor
  · rintro ⟨a, bs, _, rfl, ha, ⟨hp, rfl, rfl⟩ | ⟨-, hfalse⟩⟩
    · exact ⟨hp, by simpa using ha⟩
    · exact hfalse.elim
  · rintro ⟨hp, ha⟩
    exact ⟨a, bs, [], by simp, ha, .inl ⟨hp, rfl, rfl⟩⟩

/-- What is read stands for something, or is refused. -/
theorem Reads.lookup {r : Reader α} {g : α → Reader β} {f : α → Option β} (hr : Reads r G)
    (hsome : ∀ a b, f a = some b → g a = Pure.pure b)
    (hnone : ∀ a, f a = none → ∃ e, g a = MonadExcept.throw e) :
    Reads (r >>= g) fun b bs ↦ ∃ a, f a = some b ∧ G a bs := by
  have hfound (a : α) : Reads (g a) fun b bs ↦ f a = some b ∧ bs = [] := by
    cases hf : f a with
    | some b =>
      rw [hsome a b hf]
      exact (Reads.pure b).congr fun b' bs ↦ by simp [eq_comm]
    | none =>
      obtain ⟨e, he⟩ := hnone a hf
      rw [he]
      exact (Reads.throw e).congr fun b' bs ↦ by simp
  refine (hr.bind hfound).congr fun b bs ↦ ?_
  constructor
  · rintro ⟨a, bs, _, rfl, ha, hb, rfl⟩
    exact ⟨a, hb, by simpa using ha⟩
  · rintro ⟨a, hb, ha⟩
    exact ⟨a, bs, [], by simp, ha, hb, rfl⟩

theorem varuint7_reads : Reads varuint7 fun n bs ↦ n < 128 ∧ Grammar.unsigned n bs :=
  .located fun _ ↦ varuint32_reads.checked _

theorem varint7_reads :
    Reads varint7 fun i bs ↦ (-64 ≤ i ∧ i < 64) ∧ Grammar.signed i bs :=
  .located fun _ ↦ varint32_reads.checked _

/-! ## Sequences and names -/

/-- A vector is its length and its items. -/
theorem vector_reads {item : Reader α} (hitem : Reads item G) :
    Reads (vector item) (Grammar.vector G) := by
  refine (varuint32_reads.bind hitem.repeated).congr fun as bs ↦ ?_
  constructor
  · rintro ⟨_, count, rest, rfl, hcount, rfl, has⟩
    exact ⟨count, rest, rfl, hcount, has⟩
  · rintro ⟨count, rest, rfl, hcount, has⟩
    exact ⟨_, count, rest, rfl, hcount, rfl, has⟩

theorem byteString_reads : Reads byteString Grammar.byteString := by
  refine (varuint32_reads.bind Reads.bytes).congr fun bytes bs ↦ ?_
  constructor
  · rintro ⟨_, count, _, rfl, hcount, rfl, rfl⟩
    exact ⟨count, rfl, hcount⟩
  · rintro ⟨count, rfl, hcount⟩
    exact ⟨_, count, _, rfl, hcount, rfl, rfl⟩

/-- A string has one form in UTF-8. -/
theorem decodeUtf8_eq_some {bs : List UInt8} {s : String} :
    decodeUtf8 bs = some s ↔ bs = s.toUTF8.data.toList := by
  unfold decodeUtf8 String.fromUTF8?
  split
  · rw [Option.some.injEq]
    constructor
    · rintro rfl
      rfl
    · rintro rfl
      rfl
  · rename_i hinvalid
    simp only [reduceCtorEq, false_iff]
    rintro rfl
    exact hinvalid s.isValidUTF8

/-- A name is a string of bytes that are UTF-8. -/
theorem name_reads : Reads name Grammar.name := by
  refine .located fun start ↦ (byteString_reads.lookup (f := decodeUtf8)
    (fun bs s h ↦ by rw [h]) fun bs h ↦ ⟨_, by rw [h]; rfl⟩).congr fun s bs ↦ ?_
  constructor
  · rintro ⟨bytes, hs, hbytes⟩
    rwa [decodeUtf8_eq_some.mp hs] at hbytes
  · intro hs
    exact ⟨_, decodeUtf8_eq_some.mpr rfl, hs⟩

/-! ## Types -/

/-- Each value type has one tag. -/
theorem valueTypeOfTag_eq_some {i : Int} {t : ValueType} :
    valueTypeOfTag i = some t ↔ i = Grammar.tag t := by
  constructor
  · intro h
    unfold valueTypeOfTag at h
    split at h <;> cases h <;> rfl
  · rintro rfl
    cases t <;> rfl

theorem tag_range (t : ValueType) : -64 ≤ Grammar.tag t ∧ Grammar.tag t < 64 := by
  cases t <;> decide

theorem valueType_reads : Reads valueType Grammar.valueType := by
  refine .located fun start ↦ (varint7_reads.lookup (f := valueTypeOfTag)
    (fun i t h ↦ by rw [h]) fun i h ↦ ⟨_, by rw [h]; rfl⟩).congr fun t bs ↦ ?_
  constructor
  · rintro ⟨i, hi, -, hspelled⟩
    rwa [valueTypeOfTag_eq_some.mp hi] at hspelled
  · intro ht
    exact ⟨_, valueTypeOfTag_eq_some.mpr rfl, tag_range t, ht⟩

theorem blockType_reads : Reads blockType Grammar.blockType := by
  refine .located fun start ↦ (varint7_reads.lookup
    (f := fun i ↦ if i = -0x40 then some none else (valueTypeOfTag i).map some)
    (fun i r h ↦ ?_) fun i h ↦ ?_).congr fun r bs ↦ ?_
  · split at h
    · rename_i hi
      rw [if_pos hi, Option.some.inj h]
    · rename_i hi
      obtain ⟨t, ht, rfl⟩ := Option.map_eq_some_iff.mp h
      rw [if_neg hi, ht]
  · split at h
    · cases h
    · rename_i hi
      rw [Option.map_eq_none_iff] at h
      exact ⟨_, by rw [if_neg hi, h]; rfl⟩
  · constructor
    · rintro ⟨i, hi, -, hspelled⟩
      split at hi
      · rename_i htag
        cases hi
        rwa [htag] at hspelled
      · obtain ⟨t, ht, rfl⟩ := Option.map_eq_some_iff.mp hi
        rwa [valueTypeOfTag_eq_some.mp ht] at hspelled
    · intro hr
      cases r with
      | none => exact ⟨_, if_pos rfl, by decide, hr⟩
      | some t =>
        refine ⟨Grammar.tag t, ?_, tag_range t, hr⟩
        rw [if_neg (by cases t <;> decide), valueTypeOfTag_eq_some.mpr rfl, Option.map_some]

theorem elemType_reads : Reads elemType fun _ ↦ Grammar.signed (-0x10) := by
  refine .located fun start ↦
    (varint7_reads.bind fun i ↦ .ite (.pure ()) (.failAt _ _)).congr fun u bs ↦ ?_
  constructor
  · rintro ⟨i, bs, _, rfl, ⟨-, hi⟩, ⟨rfl, -, rfl⟩ | ⟨-, hfalse⟩⟩
    · simpa using hi
    · exact hfalse.elim
  · intro hi
    exact ⟨-0x10, bs, [], by simp, ⟨by decide, hi⟩, .inl ⟨rfl, rfl, rfl⟩⟩

theorem externKind_reads : Reads externKind Grammar.externKind := by
  have hfound {b : UInt8} (kind : ExternKind) (h : b.toNat = (Grammar.kindByte kind).toNat) :
      Reads (pure kind) fun kind' bs ↦ b = Grammar.kindByte kind' ∧ bs = [] := by
    obtain rfl := UInt8.toNat_inj.mp h
    refine (Reads.pure kind).congr fun kind' bs ↦ ?_
    cases kind <;> cases kind' <;> simp [Grammar.kindByte]
  refine .located fun start ↦ .congr (.bind .byte
    (H := fun b kind bs ↦ b = Grammar.kindByte kind ∧ bs = []) fun b ↦ ?_) fun kind bs ↦ ?_
  · split
    · rename_i h
      exact hfound .func h
    · rename_i h
      exact hfound .table h
    · rename_i h
      exact hfound .memory h
    · rename_i h
      exact hfound .global h
    · refine (Reads.failAt _ _).congr fun kind bs ↦ ?_
      cases kind <;> simp_all [Grammar.kindByte, ← UInt8.toNat_inj]
  · constructor
    · rintro ⟨b, _, _, rfl, rfl, rfl, rfl⟩
      rfl
    · rintro rfl
      exact ⟨_, _, [], rfl, rfl, rfl, rfl⟩

end Reader

def Limits.Ordered (l : Limits) : Prop := ∀ n ∈ l.max, l.min ≤ n

/-- Both bounds lie within the address space. -/
def Limits.Addressable (l : Limits) : Prop := l.min ≤ maxPages ∧ ∀ n ∈ l.max, n ≤ maxPages

namespace Reader

/-- Limits say whether there is a maximum, which is then not below the minimum. -/
theorem limits_reads : Reads limits fun l bs ↦ l.Ordered ∧ Grammar.limits l bs := by
  refine .located fun start ↦ .congr (.bind varuint1_reads fun hasMax ↦
    .bind varuint32_reads fun min ↦ .ite (.bind varuint32_reads fun max ↦ .guard (.pure _))
      (.pure _)) fun l bs ↦ ?_
  constructor
  · rintro ⟨hasMax, flag, _, rfl, hflag, n, min, _, rfl, hmin,
      ⟨rfl, k, max, _, rfl, hmax, horder, rfl, rfl⟩ | ⟨hnone, rfl, rfl⟩⟩
    · refine ⟨by simpa [Limits.Ordered] using horder, ?_⟩
      simpa using Grammar.limits.bounded hflag hmin hmax
    · obtain rfl := Bool.not_eq_true _ ▸ hnone
      refine ⟨by simp [Limits.Ordered], ?_⟩
      simpa using Grammar.limits.unbounded hflag hmin
  · rintro ⟨horder, h⟩
    cases h with
    | unbounded hflag hmin =>
      exact ⟨false, _, _, rfl, hflag, _, _, [], by simp, hmin, .inr ⟨by decide, rfl, rfl⟩⟩
    | bounded hflag hmin hmax =>
      refine ⟨true, _, _, rfl, hflag, _, _, _, rfl, hmin,
        .inl ⟨rfl, _, _, [], by simp, hmax, ?_, rfl, rfl⟩⟩
      simpa [Limits.Ordered] using horder

/-- A function type has a mark, parameters and a result at most. -/
theorem funcType_reads : Reads funcType Grammar.funcType := by
  refine .located fun start ↦ .congr (.bind varint7_reads fun form ↦ .guard
    (.bind (vector_reads valueType_reads) fun params ↦ .bind varuint1_reads fun one ↦
      .ite (valueType_reads.map fun t ↦ FuncType.mk params [t]) (.pure _))) fun type bs ↦ ?_
  constructor
  · rintro ⟨i, form, _, rfl, ⟨-, hform⟩, hi, ts, params, _, rfl, hparams, one, count, _, rfl,
      hcount, ⟨rfl, t, rfl, hresult⟩ | ⟨hnone, rfl, rfl⟩⟩
    · obtain rfl := not_not.mp hi
      exact .value hform hparams hcount hresult
    · obtain rfl := not_not.mp hi
      obtain rfl := Bool.not_eq_true _ ▸ hnone
      simpa using Grammar.funcType.nothing hform hparams hcount
  · intro h
    cases h with
    | nothing hform hparams hcount =>
      exact ⟨_, _, _, rfl, ⟨by decide, hform⟩, by simp, _, _, _, rfl, hparams, false, _, [],
        by simp, hcount, .inr ⟨by decide, rfl, rfl⟩⟩
    | value hform hparams hcount hresult =>
      exact ⟨_, _, _, rfl, ⟨by decide, hform⟩, by simp, _, _, _, rfl, hparams, true, _, _,
        rfl, hcount, .inl ⟨rfl, _, rfl, hresult⟩⟩

theorem tableType_reads : Reads tableType fun l bs ↦ l.Ordered ∧ Grammar.tableType l bs := by
  refine (elemType_reads.bind fun _ ↦ limits_reads).congr fun l bs ↦ ?_
  constructor
  · rintro ⟨_, elem, rest, rfl, helem, horder, hrest⟩
    exact ⟨horder, elem, rest, rfl, helem, hrest⟩
  · rintro ⟨horder, elem, rest, rfl, helem, hrest⟩
    exact ⟨(), elem, rest, rfl, helem, horder, hrest⟩

/-- A memory has no more pages than can be addressed. -/
theorem memoryType_reads :
    Reads memoryType fun l bs ↦ (l.Ordered ∧ l.Addressable) ∧ Grammar.limits l bs := by
  have hpages (l : Limits) :
      ¬(l.min > maxPages ∨ l.max.any (· > maxPages) = true) ↔ l.Addressable := by
    rw [not_or, Nat.not_lt, Limits.Addressable]
    cases l.max <;> simp
  refine .located fun start ↦ .congr (.bind limits_reads fun l ↦ .guard (.pure l)) fun l bs ↦ ?_
  constructor
  · rintro ⟨l, bs, _, rfl, ⟨horder, hl⟩, hsize, rfl, rfl⟩
    exact ⟨⟨horder, (hpages _).mp hsize⟩, by simpa using hl⟩
  · rintro ⟨⟨horder, hsize⟩, hl⟩
    exact ⟨l, bs, [], by simp, ⟨horder, hl⟩, (hpages l).mpr hsize, rfl, rfl⟩

theorem globalType_reads : Reads globalType Grammar.globalType := by
  refine (valueType_reads.bind fun t ↦ varuint1_reads.map (GlobalType.mk t)).congr fun g bs ↦ ?_
  constructor
  · rintro ⟨t, type, flag, rfl, htype, isMutable, rfl, hflag⟩
    exact ⟨type, flag, rfl, htype, hflag⟩
  · rintro ⟨type, flag, rfl, htype, hflag⟩
    exact ⟨g.type, type, flag, rfl, htype, g.isMutable, rfl, hflag⟩

end Reader

end WasmEngine
