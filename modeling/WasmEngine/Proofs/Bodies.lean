import WasmEngine.Code.Encoding
import WasmEngine.Proofs.Drafts

/-!
# Function bodies and what they compile to

A body in a binary is a sequence of instructions up to the `close` that matches the function
itself. The decoder compiles each of them as soon as it is read and keeps none. Here the sequence
is read on its own, and `Compiles` relates it to the statements that the decoder makes of it.
-/

namespace WasmEngine

/-- The instructions of a function, from the draft `d` on up to the end of the function, compile to
statements and the room for operands that they need. -/
inductive Compiles (ctx : Context) : Draft → List Instr → List Stmt × Lanes Nat → Prop
  | finish {d d' : Draft} {pos : Nat} {body : List Stmt} (houter : d.outer = [])
      (h : (Build.finish pos).run d = .ok body d') : Compiles ctx d [.close] (body, d'.maxStack)
  | step {d d' : Draft} {pos : Nat} {i : Instr} {is : List Instr} {out : List Stmt × Lanes Nat}
      (hinside : ¬(i = .close ∧ d.outer = [])) (h : (Build.step ctx pos i).run d = .ok () d')
      (hrest : Compiles ctx d' is out) : Compiles ctx d (i :: is) out

theorem Compiles.fits {ctx : Context} {d : Draft} {is : List Instr} {out : List Stmt × Lanes Nat}
    (h : Compiles ctx d is out) (hd : d.Sound ctx) :
    (∀ stmt ∈ out.1, stmt.Fits (ctx.layout out.2) []) ∧
      (ctx.type.result = none ∨ ∃ stmt ∈ out.1, stmt.Diverts) := by
  induction h with
  | finish houter h =>
    obtain ⟨rfl, hbody, hending⟩ := Build.finish_fits hd houter h
    exact ⟨hbody, hending⟩
  | step _ h _ ih => exact ih (Build.step_sound hd h).1

theorem Draft.start_sound (ctx : Context) (offset : Nat) :
    (Draft.start ctx.type offset).Sound ctx :=
  ⟨rfl, rfl, rfl, rfl, by simp [start], by simp [start, Scope.height_get], by simp [start],
    trivial, by simp [start]⟩

namespace Code

/-- The code is what a body with the given instructions compiles to in a module. -/
def CompiledFrom (m : Module) (code : Code) (is : List Instr) : Prop :=
  code.type.params <+: code.locals ∧ ∃ maxControlDepth offset,
    Compiles ⟨m.declarations, maxControlDepth, code.type, code.locals⟩
      (Draft.start code.type offset) is (code.body, code.stackSlots)

theorem CompiledFrom.congr {m m' : Module} {code : Code} {is : List Instr}
    (h : code.CompiledFrom m is) (hm : m.declarations = m'.declarations) :
    code.CompiledFrom m' is := by
  simpa only [CompiledFrom, hm] using h

theorem CompiledFrom.fits {m : Module} {code : Code} {is : List Instr}
    (h : code.CompiledFrom m is) : code.Fits m := by
  obtain ⟨hparams, maxControlDepth, offset, h⟩ := h
  obtain ⟨hbody, hending⟩ := h.fits (Draft.start_sound _ offset)
  exact ⟨hbody, hending, hparams⟩

end Code

namespace Reader

/-- The instructions of a function in which `depth` constructs are open. The number `n` of bytes
left bounds how many there are. -/
def opcodes : Nat → Nat → Reader (List Instr)
  | 0, _ => endOfInput
  | n + 1, depth => do
    let i ← instr
    if i = .close ∧ depth = 0 then return [i]
    else return i :: (← opcodes n (i.nesting depth))

theorem building_eq_ok {α : Type} {b : Build α} {d d' : Draft} {c c' : Cursor} {a : α} :
    (building d b).run c = .ok (a, d') c' ↔ b.run d = .ok a d' ∧ c = c' := by
  unfold building
  cases hb : b.run d with
  | ok x d₁ => simp only [run_pure_eq_ok, Prod.mk.injEq, EStateM.Result.ok.injEq]
  | error e d₁ => simp only [run_throw_eq_ok, reduceCtorEq, false_and]

/-- What the decoder compiles is the sequence of instructions in the bytes. -/
theorem instructions_compile {ctx : Context} {n : Nat} {d : Draft} {c c' : Cursor}
    {out : List Stmt × Lanes Nat} (hd : d.Sound ctx)
    (h : (instructions ctx n d).run c = .ok out c') :
    ∃ is, (opcodes n d.outer.length).run c = .ok is c' ∧ Compiles ctx d is out := by
  induction n generalizing d c with
  | zero => cases h
  | succ n ih =>
    simp only [instructions, offset, run_bind_eq_ok, run_get_eq_ok, run_pure_eq_ok] at h
    obtain ⟨pos, _, ⟨_, _, ⟨rfl, rfl⟩, -, rfl⟩, i, c₁, hinstr, h⟩ := h
    rw [run_ite] at h
    simp only [opcodes, run_bind_eq_ok, run_ite]
    split at h
    · rename_i hend
      obtain ⟨rfl, houter⟩ := hend
      rw [List.isEmpty_iff] at houter
      simp only [run_bind_eq_ok, building_eq_ok, Prod.exists, run_pure_eq_ok] at h
      obtain ⟨body, d₁, _, ⟨hfinish, rfl⟩, rfl, rfl⟩ := h
      refine ⟨_, ⟨_, _, hinstr, ?_⟩, .finish houter hfinish⟩
      rw [if_pos ⟨rfl, by rw [houter]; rfl⟩]
      exact run_pure_eq_ok.mpr ⟨rfl, rfl⟩
    · rename_i hinside
      simp only [run_bind_eq_ok, building_eq_ok, Prod.exists] at h
      obtain ⟨_, d₁, _, ⟨hstep, rfl⟩, h⟩ := h
      obtain ⟨hd₁, hnesting⟩ := Build.step_sound hd hstep
      obtain ⟨is, hopcodes, hcompiles⟩ := ih hd₁ h
      rw [hnesting] at hopcodes
      rw [List.isEmpty_iff] at hinside
      refine ⟨i :: is, ⟨_, _, hinstr, ?_⟩, .step hinside hstep hcompiles⟩
      rw [if_neg (by simpa only [List.length_eq_zero_iff] using hinside)]
      exact run_bind_eq_ok.mpr ⟨_, _, hopcodes, run_pure_eq_ok.mpr ⟨rfl, rfl⟩⟩

/-- Compiled code has the type of its function, and comes from the instructions in the bytes. -/
theorem code_compiled {config : Config} {m : Module} {type : FuncType}
    {decls : List (Nat × ValueType)} {c c' : Cursor} {code : Code} (hm : m.declarations = m)
    (h : (Reader.code config m type decls).run c = .ok code c') :
    code.type = type ∧ ∃ is, (opcodes c.remaining 0).run c = .ok is c' ∧
      code.CompiledFrom m is := by
  simp only [Reader.code, offset, run_bind_eq_ok, run_get_eq_ok, run_pure_eq_ok, run_ite] at h
  obtain ⟨start, _, ⟨_, _, ⟨rfl, rfl⟩, rfl, rfl⟩, h⟩ := h
  split at h
  · simp only [failAt, run_bind_eq_ok, run_throw_eq_ok, false_and, exists_false] at h
  · simp only [run_bind_eq_ok, run_get_eq_ok, run_pure_eq_ok, Prod.exists] at h
    obtain ⟨_, _, ⟨rfl, rfl⟩, body, slots, _, hinstructions, rfl, rfl⟩ := h
    obtain ⟨is, hopcodes, hcompiles⟩ := instructions_compile (Draft.start_sound _ _) hinstructions
    refine ⟨rfl, is, hopcodes, List.prefix_append _ _, config.maxControlDepth, c.offset, ?_⟩
    rw [hm]
    exact hcompiles

end Reader

end WasmEngine
