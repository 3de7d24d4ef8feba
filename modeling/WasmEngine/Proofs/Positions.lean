import WasmEngine.Proofs.Locality
import WasmEngine.Proofs.Relocation

/-!
# Positions in function bodies

A function body is compiled through a cursor of its own, and an error in it names offsets of the
whole binary. As they move along with the body, none of them lies before it. That none lies behind
it has two reasons. Readers take offsets from their cursor, which never passes the end. Steps of the
compilation only hand on the offsets that they are given. They do the same when all offsets are
changed, so also when those behind the end are brought back to it, and where this makes no
difference to what they are given it makes none to what they report.
-/

namespace WasmEngine

/-! ## Offsets -/

namespace DecodeError

variable {hi : Nat}

theorem offsets_relocate (φ : Nat → Nat) (e : DecodeError) :
    (e.relocate φ).offsets = e.offsets.map φ := by
  cases e with
  | located pos fault => cases fault <;> rfl
  | _ => rfl

/-- No offset in the error is greater than `hi`. -/
def Below (hi : Nat) (e : DecodeError) : Prop := ∀ pos ∈ e.offsets, pos ≤ hi

theorem below_located {pos : Nat} {fault : Fault} (hpos : pos ≤ hi)
    (hfault : offsets (.located pos fault) = [pos]) : Below hi (.located pos fault) := by
  intro p hp
  rw [hfault, List.mem_singleton] at hp
  exact hp ▸ hpos

theorem Within.below {lo : Nat} {e : DecodeError} (h : e.Within lo hi) : e.Below hi :=
  fun pos hpos ↦ (h.2 pos hpos).2

theorem below_of_relocate_eq {e : DecodeError} (h : e.relocate (min · hi) = e) : e.Below hi := by
  intro pos hpos
  rw [← h, offsets_relocate, List.mem_map] at hpos
  obtain ⟨p, -, rfl⟩ := hpos
  exact Nat.min_le_right p hi

end DecodeError

/-- What is not changed by moving it is not changed in a run either. -/
theorem Moves.fixed {ε σ α : Type} {f : σ → σ} {e : ε → ε} {x : EStateM ε σ α} {s : σ}
    (h : Moves f e id x x) (hs : f s = s) :
    Ensures x s (fun _ t ↦ f t = t) fun err _ ↦ e err = err := by
  have hmoved := h s
  rw [hs] at hmoved
  unfold Ensures
  cases hrun : x.run s with
  | ok a t =>
    rw [hrun] at hmoved
    exact (EStateM.Result.ok.inj hmoved).2.symm
  | error err t =>
    rw [hrun] at hmoved
    exact (EStateM.Result.error.inj hmoved).1.symm

/-! ## Readers that stop at the end -/

namespace Reader

variable {α β : Type} {hi : Nat}

/-- In an input that ends at `hi` the reader stays there, and reports nothing behind the end. -/
def Confined (hi : Nat) (r : Reader α) : Prop :=
  ∀ c, c.stop = hi → Ensures r c (fun _ c' ↦ c'.stop = hi) fun e _ ↦ e.Below hi

namespace Confined

theorem pure (a : α) : Confined hi (pure a) := fun _ hc ↦ .pure hc

theorem bind {r : Reader α} {f : α → Reader β} (hr : Confined hi r)
    (hf : ∀ a, Confined hi (f a)) : Confined hi (r >>= f) :=
  fun c hc ↦ .bind (hr c hc) fun a c' hc' ↦ hf a c' hc'

theorem ite {p : Prop} [Decidable p] {r r' : Reader α} (hr : Confined hi r)
    (hr' : Confined hi r') : Confined hi (if p then r else r') :=
  fun c hc ↦ .ite (fun _ ↦ hr c hc) fun _ ↦ hr' c hc

theorem failAt {pos : Nat} {fault : Fault} (hpos : pos ≤ hi)
    (hfault : DecodeError.offsets (.located pos fault) = [pos]) :
    Confined hi (failAt pos fault : Reader α) :=
  fun _ _ ↦ .throw (DecodeError.below_located hpos hfault)

theorem get_bind {f : Cursor → Reader α} (hf : ∀ c, Confined hi (f c)) :
    Confined hi (get >>= f) :=
  fun c hc ↦ hf c c hc

/-- Offsets are taken from the cursor. -/
theorem offset_bind {f : Nat → Reader α} (hf : ∀ pos ≤ hi, Confined hi (f pos)) :
    Confined hi (offset >>= f) :=
  fun c hc ↦ hf c.offset (hc ▸ Nat.le_add_right _ _) c hc

theorem endOfInput : Confined hi (endOfInput : Reader α) :=
  fun _ hc ↦ DecodeError.below_located (hc ▸ Nat.le_add_right _ _) rfl

theorem repeated {item : Reader α} (hitem : Confined hi item) (n : Nat) :
    Confined hi (repeated item n) := by
  induction n with
  | zero => exact pure []
  | succ n ih => exact bind hitem fun a ↦ bind ih fun as ↦ pure (a :: as)

end Confined

theorem Anchored.confined {r : Reader α} (h : Anchored 0 r) : Confined hi r := by
  rintro c rfl
  refine (h c (Nat.zero_le _)).mono ?_ ?_
  · rintro a c' ⟨bs, hspans, -⟩
    exact hspans.before.stop_eq
  · rintro e c' ⟨-, hwithin⟩
    exact hwithin.below

theorem Lawful.confined {r : Reader α} (h : Lawful r) : Confined hi r := (h.anchored 0).confined

theorem AllOrNothing.confined {n : Nat} {r : Reader α} (h : AllOrNothing n r) : Confined hi r :=
  (h.anchored 0).confined

/-! ## Instructions -/

theorem vector_confined {item : Reader α} (hitem : Confined hi item) : Confined hi (vector item) :=
  .bind varuint32_lawful.confined fun n ↦ .repeated hitem n

theorem memArg_confined : Confined hi memArg :=
  .bind varuint32_lawful.confined fun align ↦ .bind varuint32_lawful.confined fun offset ↦
    .pure (MemArg.mk align offset)

theorem reservedByte_confined {start : Nat} (hstart : start ≤ hi) (place : ReservedIndex) :
    Confined hi (reservedByte start place) :=
  .bind byte_lawful.confined fun _ ↦ .ite (.failAt hstart rfl) (.pure ())

theorem immediates_confined {start : Nat} (hstart : start ≤ hi) (opcode : Nat) :
    Confined hi (immediates start opcode) := by
  unfold immediates
  split
  -- There are few kinds of immediates, each read by one of these.
  all_goals first
    | exact .pure _
    | exact .bind blockType_lawful.confined fun _ ↦ .pure _
    | exact .bind varuint32_lawful.confined fun _ ↦ .pure _
    | exact .bind memArg_confined fun _ ↦ .pure _
    | exact .bind varint32_lawful.confined fun _ ↦ .pure _
    | exact .bind (AllOrNothing.fixed _).confined fun _ ↦ .pure _
    | exact .bind (reservedByte_confined hstart _) fun _ ↦ .pure _
    | skip
  · exact .bind (vector_confined varuint32_lawful.confined) fun _ ↦
      .bind varuint32_lawful.confined fun _ ↦ .pure _
  · exact .bind varuint32_lawful.confined fun _ ↦
      .bind (reservedByte_confined hstart _) fun _ ↦ .pure _
  · exact .offset_bind fun _ hpos ↦ .failAt hpos rfl
  · split
    · exact .pure _
    · exact .pure _
    · exact .failAt hstart rfl

theorem instr_confined : Confined hi instr :=
  .offset_bind fun _ hstart ↦ .bind byte_lawful.confined fun opcode ↦
    immediates_confined hstart opcode.toNat

theorem localDecl_confined : Confined hi localDecl :=
  .bind varuint32_lawful.confined fun n ↦ .bind valueType_lawful.confined fun t ↦ .pure (n, t)

/-! ## Compilation -/

/-- A step of the compilation, applied to a draft without offsets behind the end, gives such a draft
again. -/
theorem building_bind_confined {b : Build α} {d : Draft} {f : α × Draft → Reader β}
    (hb : Build.Relocates (min · hi) b b) (hd : d.relocate (min · hi) = d)
    (hf : ∀ a d', d'.relocate (min · hi) = d' → Confined hi (f (a, d'))) :
    Confined hi (building d b >>= f) := by
  have hfixed := hb.fixed hd
  unfold building
  cases hrun : b.run d with
  | ok a d' => exact hf a d' (hfixed.of_ok hrun)
  | error e d' =>
    exact fun c _ ↦ .throw_bind (DecodeError.below_of_relocate_eq (hfixed.of_error hrun))

theorem instructions_confined (ctx : Context) (n : Nat) {d : Draft}
    (hd : d.relocate (min · hi) = d) : Confined hi (instructions ctx n d) := by
  induction n generalizing d with
  | zero => exact .endOfInput
  | succ n ih =>
    refine .offset_bind fun pos hpos ↦ .bind instr_confined fun i ↦ ?_
    have hpos : min pos hi = pos := Nat.min_eq_left hpos
    have hfinish := Build.finish_relocates (φ := (min · hi)) pos
    have hstep := Build.step_relocates (φ := (min · hi)) ctx pos i
    rw [hpos] at hfinish hstep
    exact .ite (building_bind_confined hfinish hd fun _ _ _ ↦ .pure _)
      (building_bind_confined hstep hd fun _ _ hd' ↦ ih hd')

theorem code_confined (config : Config) (m : Module) (type : FuncType)
    (decls : List (Nat × ValueType)) : Confined hi (code config m type decls) := by
  refine .offset_bind fun start hstart ↦ ?_
  have hdraft : (Draft.start type start).relocate (min · hi) = Draft.start type start := by
    simp [Draft.start, Draft.relocate, Scope.relocate, hstart]
  refine .ite (.bind (.failAt hstart rfl) fun _ ↦ ?_) ?_
  all_goals
    exact .get_bind fun c ↦ .bind (instructions_confined _ c.remaining hdraft) fun _ ↦ .pure _

/-! ## Bodies -/

theorem body_shifts (config : Config) (m : Module) (type : FuncType) (k : Nat) :
    Shifts k (body config m type) (body config m type) :=
  .bind (vector_shifts localDecl_shifts) fun decls ↦ code_shifts config m type decls

theorem body_confined (config : Config) (m : Module) (type : FuncType) :
    Confined hi (body config m type) :=
  .bind (vector_confined localDecl_confined) fun decls ↦ code_confined config m type decls

/-- Where the type of a function is known, the entry of its code is a body in a frame. -/
theorem codeEntry_eq {config : Config} {m : Module} {type : FuncType} {typeIndex : Nat}
    (h : m.types[typeIndex]? = some type) :
    m.codeEntry config typeIndex = (do
      let size ← varuint32
      within (← sub size) (body config m type)) := by
  have hbody (start : Nat) : m.requireType start typeIndex = Pure.pure type := by
    rw [Module.requireType, h]
  simp only [Module.codeEntry, hbody, pure_bind]
  rfl

/-- A reader that is run in a frame of its own leaves the outer cursor behind the frame. -/
theorem run_within_sub (r : Reader α) (base : Nat) (frame after : List UInt8) :
    (do within (← sub frame.length) r).run ⟨base, frame ++ after⟩ =
      moved (fun _ ↦ ⟨base + frame.length, after⟩) id id (r.run ⟨base, frame⟩) := by
  have hsub : (sub frame.length).run ⟨base, frame ++ after⟩ =
      .ok ⟨base, frame⟩ ⟨base + frame.length, after⟩ := by
    have hbytes : (Reader.bytes frame.length).run ⟨base, frame ++ after⟩ =
        .ok frame ⟨base + frame.length, after⟩ := by
      simp [Reader.bytes, EStateM.run, Cursor.advance, Cursor.remaining]
    simp only [sub, EStateM.run_bind, EStateM.run_get, hbytes, EStateM.run_pure, Cursor.bounded,
      List.take_left]
  rw [EStateM.run_bind, hsub]
  simp only [within, EStateM.run]
  cases r ⟨base, frame⟩ <;> rfl

/-- Wherever a body stands in a binary, and whatever follows it, it is compiled to the same code or
gives the same error with its offsets moved there, and none of them outside the body. -/
theorem body_position_independent (config : Config) (m : Module) (type : FuncType)
    (bytes after after' : List UInt8) (base : Nat) :
    (∀ typeIndex, m.types[typeIndex]? = some type →
      m.codeEntry config typeIndex = (do
        let size ← varuint32
        within (← sub size) (body config m type))) ∧
    ((∃ compiled,
        (do within (← sub bytes.length) (body config m type)).run ⟨0, bytes ++ after'⟩ =
          .ok compiled ⟨bytes.length, after'⟩ ∧
        (do within (← sub bytes.length) (body config m type)).run ⟨base, bytes ++ after⟩ =
          .ok compiled ⟨base + bytes.length, after⟩) ∨
      ∃ e,
        (do within (← sub bytes.length) (body config m type)).run ⟨0, bytes ++ after'⟩ =
          .error e ⟨bytes.length, after'⟩ ∧
        (do within (← sub bytes.length) (body config m type)).run ⟨base, bytes ++ after⟩ =
          .error (e.relocate (· + base)) ⟨base + bytes.length, after⟩ ∧
        ∀ pos ∈ (e.relocate (· + base)).offsets, base ≤ pos ∧ pos ≤ base + bytes.length) := by
  refine ⟨fun typeIndex h ↦ codeEntry_eq h, ?_⟩
  have hshift := body_shifts config m type base ⟨0, bytes⟩
  simp only [Cursor.shift, Nat.zero_add] at hshift
  rw [run_within_sub, run_within_sub, hshift, Nat.zero_add]
  cases hrun : (body config m type).run ⟨0, bytes⟩ with
  | ok compiled c => exact .inl ⟨compiled, rfl, rfl⟩
  | error e c =>
    rw [hrun] at hshift
    have hbelow := (body_confined config m type ⟨base, bytes⟩ rfl).of_error hshift
    refine .inr ⟨e, rfl, rfl, fun pos hpos ↦ ⟨?_, hbelow pos hpos⟩⟩
    rw [DecodeError.offsets_relocate, List.mem_map] at hpos
    obtain ⟨p, -, rfl⟩ := hpos
    exact Nat.le_add_left base p

/-- A conditional that lacks an arm is reported where it begins, in the middle of the body. -/
theorem missing_arm_position :
    (do within (← sub 11) (body {} { (default : Module) with types := [⟨[], [.i32]⟩] }
        ⟨[], [.i32]⟩)).run
      ⟨100, [0x01, 0x03, 0x7f, 0x20, 0x02, 0x04, 0x7f, 0x41, 0x05, 0x0b, 0x0b] ++ [0x2a]⟩ =
        .error (.located 105 .ifWithoutElse) ⟨111, [0x2a]⟩ := by
  have hzero : (do within (← sub 11) (body {} { (default : Module) with types := [⟨[], [.i32]⟩] }
        ⟨[], [.i32]⟩)).run
      ⟨0, [0x01, 0x03, 0x7f, 0x20, 0x02, 0x04, 0x7f, 0x41, 0x05, 0x0b, 0x0b] ++ []⟩ =
        .error (.located 5 .ifWithoutElse) ⟨11, []⟩ := by rfl
  obtain ⟨-, ⟨compiled, hok, -⟩ | ⟨e, herror, hmoved, -⟩⟩ := body_position_independent {}
    { (default : Module) with types := [⟨[], [.i32]⟩] } ⟨[], [.i32]⟩
    [0x01, 0x03, 0x7f, 0x20, 0x02, 0x04, 0x7f, 0x41, 0x05, 0x0b, 0x0b] [0x2a] [] 100
  · cases hok.symm.trans hzero
  · cases herror.symm.trans hzero
    exact hmoved

end Reader

end WasmEngine
