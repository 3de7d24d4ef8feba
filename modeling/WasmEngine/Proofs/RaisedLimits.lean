import WasmEngine.Module.Encoding
import WasmEngine.Proofs.Effects

/-!
# Decoding under other limits

Two of the limits of an engine matter to decoding: how many locals a function may have, and how
deeply its blocks may nest. Each is looked at in one place, and only to refuse the function. So two
decodings of a binary under different limits go side by side until one of these checks fails, and
raising the limits cannot change what is already accepted, nor any other error.
-/

namespace WasmEngine

/-- The error says that a function has too many locals, or nests too deeply. -/
def DecodeError.ofCodeLimit : DecodeError → Bool
  | .located _ (.limitExceeded quota _) => quota = .functionLocals || quota = .controlNesting
  | _ => false

variable {E : DecodeError → Prop}

/-! ## Instructions -/

namespace Build

variable {ctx : Context} {n : Nat}

theorem openScope_relaxes (hn : ctx.maxControlDepth ≤ n) (pos : Nat) (kind : Scope.Kind)
    (result : Option ValueType) :
    Relaxes Eq (·.ofCodeLimit = true) (openScope ctx pos kind result)
      (openScope { ctx with maxControlDepth := n } pos kind result) := by
  apply Relaxes.get_bind
  rintro d _ rfl
  exact .check (fun h ↦ Nat.lt_of_le_of_lt hn h) rfl (.same _)

/-- The bound on nesting matters only to instructions that open a scope. -/
theorem step_relaxes (hn : ctx.maxControlDepth ≤ n) (pos : Nat) (i : Instr) :
    Relaxes Eq (·.ofCodeLimit = true) (step ctx pos i)
      (step { ctx with maxControlDepth := n } pos i) := by
  cases i with
  | block result => exact openScope_relaxes hn pos .block result
  | loop result => exact openScope_relaxes hn pos .loop result
  | conditional result =>
    exact .bind (.same _) fun cond ↦ openScope_relaxes hn pos (.thenArm cond) result
  | _ => exact .same _

end Build

namespace Reader

variable {α : Type}

theorem building_relaxes {b b' : Build α} (h : Relaxes Eq E b b') (d : Draft) :
    Relaxes Eq E (building d b) (building d b') := by
  have hbuilt := h d d rfl
  unfold building
  generalize b.run d = r at hbuilt
  generalize b'.run d = r' at hbuilt
  cases hbuilt with
  | ok a h => exact h ▸ .same _
  | error e h => exact .throw e
  | excused he => exact fun _ _ _ ↦ .excused he

theorem instructions_relaxes {ctx : Context} {depth : Nat} (hdepth : ctx.maxControlDepth ≤ depth)
    (n : Nat) (d : Draft) :
    Relaxes Eq (·.ofCodeLimit = true) (instructions ctx n d)
      (instructions { ctx with maxControlDepth := depth } n d) := by
  induction n generalizing d with
  | zero => exact .same _
  | succ n ih =>
    refine .bind (.same offset) fun pos ↦ .bind (.same instr) fun i ↦ .ite (.same _) ?_
    exact .bind (building_relaxes (Build.step_relaxes hdepth pos i) d) fun p ↦ ih p.2

/-- Both limits are looked at here and nowhere else. -/
theorem code_relaxes {c c' : Config} (hlocals : c.maxFunctionLocals ≤ c'.maxFunctionLocals)
    (hdepth : c.maxControlDepth ≤ c'.maxControlDepth) (m : Module) (type : FuncType)
    (decls : List (Nat × ValueType)) :
    Relaxes Eq (·.ofCodeLimit = true) (code c m type decls) (code c' m type decls) := by
  refine .bind (.same offset) fun start ↦ .check (Nat.lt_of_le_of_lt hlocals) rfl ?_
  apply Relaxes.get_bind
  rintro cursor _ rfl
  exact .bind (instructions_relaxes hdepth _ _) fun p ↦ .same _

theorem within_relaxes {r r' : Reader α} (h : Relaxes Eq E r r') (sub : Cursor) :
    Relaxes Eq E (within sub r) (within sub r') := by
  rintro c _ rfl
  have hsub : Relaxed Eq E (r sub) (r' sub) := h sub sub rfl
  simp only [EStateM.run, within]
  generalize r sub = x at hsub
  generalize r' sub = x' at hsub
  cases hsub with
  | ok a _ => exact .ok a rfl
  | error e _ => exact .error e rfl
  | excused he => exact .excused he

end Reader

/-! ## Sections

What decodes function bodies alike decodes binaries alike. -/

section Sections

variable {c c' : Config}
  (hcode : ∀ m type decls, Relaxes Eq E (Reader.code c m type decls) (Reader.code c' m type decls))

include hcode

namespace Module

theorem codeEntries_relaxes (m : Module) (types : List Nat) :
    Relaxes Eq E (m.codeEntries c types) (m.codeEntries c' types) := by
  induction types with
  | nil => exact .same _
  | cons type types ih =>
    refine .bind ?_ fun code ↦ .bind ih fun codes ↦ .same _
    refine .bind (.same _) fun size ↦ .bind (.same _) fun body ↦ Reader.within_relaxes ?_ body
    exact .bind (.same _) fun start ↦ .bind (.same _) fun decls ↦ .bind (.same _) fun type ↦
      hcode m type decls

theorem sectionPayload_relaxes (m : Module) (id : SectionId) :
    Relaxes Eq E (m.sectionPayload c id) (m.sectionPayload c' id) := by
  cases id with
  | code =>
    refine .bind (.same _) fun bodies ↦ .guard ?_
    exact .bind (codeEntries_relaxes hcode m m.funcs) fun codes ↦ .same _
  | _ => exact .same _

end Module

namespace Reader

theorem oneSection_relaxes (previous : Nat) (m : Module) :
    Relaxes Eq E (oneSection c previous m) (oneSection c' previous m) := by
  refine .bind (.same _) fun start ↦ .bind (.same _) fun h ↦ .ite (.same _) (.guard ?_)
  exact .bind (Module.sectionPayload_relaxes hcode m h.id) fun m ↦ .same _

theorem allSections_relaxes (n previous : Nat) (m : Module) :
    Relaxes Eq E (allSections c n previous m) (allSections c' n previous m) := by
  induction n generalizing previous m with
  | zero => exact .same _
  | succ n ih =>
    apply Relaxes.get_bind
    rintro cursor _ rfl
    exact .ite (.same _) (.bind (oneSection_relaxes hcode previous m) fun p ↦ ih p.1 p.2)

theorem module_relaxes : Relaxes Eq E (module c) (module c') := by
  refine .bind (.same _) fun _ ↦ ?_
  apply Relaxes.get_bind
  rintro cursor _ rfl
  exact .bind (allSections_relaxes hcode _ 0 {}) fun m ↦ .same _

end Reader

theorem Module.decode_relaxes (bytes : List UInt8) :
    decode c' bytes = decode c bytes ∨ ∃ e, decode c bytes = .error e ∧ E e := by
  have hmodule := Reader.module_relaxes hcode (.ofBytes bytes) _ rfl
  unfold decode
  generalize (Reader.module c).run (.ofBytes bytes) = r at hmodule
  generalize (Reader.module c').run (.ofBytes bytes) = r' at hmodule
  cases hmodule with
  | ok m _ => exact .inl rfl
  | error e _ => exact .inl rfl
  | excused he => exact .inr ⟨_, rfl, he⟩

end Sections

/-- If the limits on functions are raised, every module that was accepted is accepted as it was, and
every error that does not come from these limits is the same. The other limits do not matter. -/
theorem Module.decode_of_raised_limits (bytes : List UInt8) (c c' : Config) :
    (c.maxFunctionLocals ≤ c'.maxFunctionLocals → c.maxControlDepth ≤ c'.maxControlDepth →
      (∀ m, decode c bytes = .ok m → decode c' bytes = .ok m) ∧
      ∀ e, decode c bytes = .error e → e.ofCodeLimit = false → decode c' bytes = .error e) ∧
    (c.maxFunctionLocals = c'.maxFunctionLocals → c.maxControlDepth = c'.maxControlDepth →
      decode c bytes = decode c' bytes) := by
  constructor
  · intro hlocals hdepth
    have hdecode := decode_relaxes (Reader.code_relaxes hlocals hdepth) bytes
    constructor
    · intro m hm
      obtain heq | ⟨e, he, -⟩ := hdecode
      · exact heq.trans hm
      · cases hm.symm.trans he
    · intro e he hlimit
      obtain heq | ⟨e', he', hlimit'⟩ := hdecode
      · exact heq.trans he
      · cases he.symm.trans he'
        cases hlimit.symm.trans hlimit'
  · intro hlocals hdepth
    have hcode : ∀ m type decls, Reader.code c m type decls = Reader.code c' m type decls := by
      intro m type decls
      unfold Reader.code
      rw [hlocals, hdepth]
    -- Bodies that are compiled alike leave no error to except.
    obtain heq | ⟨e, -, hfalse⟩ := decode_relaxes (E := fun _ ↦ False)
      (fun m type decls ↦ .of_eq (hcode m type decls)) bytes
    · exact heq.symm
    · exact hfalse.elim

/-- A binary with a function that has two locals, and a block with the given instruction in it. -/
def nestedBinary (opcode : UInt8) : List UInt8 :=
  [0, 0x61, 0x73, 0x6d, 1, 0, 0, 0,
   1, 4, 1, 0x60, 0, 0,
   3, 2, 1, 0,
   10, 10, 1, 8, 1, 2, 0x7f, 0x02, 0x40, opcode, 0x0b, 0x0b]

/-- The function is refused under low limits, and accepted from limits on that it does not exceed. A
fault in its block is reported alike under low limits and high ones. -/
theorem nestedBinary_decode_of_raised_limits :
    let low : Config := { maxFunctionLocals := 2, maxControlDepth := 1 }
    let fault : DecodeError := .located 27 .stackUnderflow
    (Module.decode { maxControlDepth := 0 } (nestedBinary 0x01)).isOk = false ∧
    (Module.decode { maxFunctionLocals := 1 } (nestedBinary 0x01)).isOk = false ∧
    (∃ m, Module.decode low (nestedBinary 0x01) = .ok m ∧
      Module.decode {} (nestedBinary 0x01) = .ok m ∧
      Module.decode { maxCallDepth := 0, maxMemoryPages := 0, maxTableElements := 0 }
        (nestedBinary 0x01) = .ok m) ∧
    Module.decode low (nestedBinary 0x1a) = .error fault ∧
    Module.decode {} (nestedBinary 0x1a) = .error fault := by
  intro low fault
  have haccepted : (Module.decode low (nestedBinary 0x01)).toOption.isSome = true := by
    decide +kernel
  have hfault : (Module.decode low (nestedBinary 0x1a)).map (fun _ ↦ ()) = .error fault := by
    decide +kernel
  obtain ⟨m, hm⟩ := Option.isSome_iff_exists.mp haccepted
  have hlow := except_toOption_eq_some hm
  have hraised (opcode : UInt8) :=
    (Module.decode_of_raised_limits (nestedBinary opcode) low {}).1 (by decide) (by decide)
  have hhigh := (hraised 0x01).1 m hlow
  have hother := (Module.decode_of_raised_limits (nestedBinary 0x01)
    { maxCallDepth := 0, maxMemoryPages := 0, maxTableElements := 0 } {}).2 rfl rfl
  have hlowFault := except_map_eq_error.mp hfault
  exact ⟨by decide +kernel, by decide +kernel, ⟨m, hlow, hhigh, hother.trans hhigh⟩, hlowFault,
    (hraised 0x1a).2 fault hlowFault rfl⟩

end WasmEngine
