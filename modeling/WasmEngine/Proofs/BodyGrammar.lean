import WasmEngine.Proofs.Bodies
import WasmEngine.Proofs.InstrGrammar
import WasmEngine.Proofs.Relocation

/-!
# The grammar of function bodies

The instructions of a function are compiled while they are read. Here the two are taken apart: the
bytes spell a sequence of instructions, whatever it means, and the sequence compiles, wherever it
stands. A function is read just if both hold.
-/

namespace WasmEngine

/-- The drafts differ at most in where their scopes were opened. -/
def Draft.Alike (d d' : Draft) : Prop := d.relocate (fun _ ↦ 0) = d'.relocate fun _ ↦ 0

theorem Draft.Alike.outer_eq_nil_iff {d d' : Draft} (h : d.Alike d') :
    d.outer = [] ↔ d'.outer = [] := by
  have hlength := congrArg (List.length ∘ Draft.outer) h
  simp only [relocate, Function.comp_apply, List.length_map] at hlength
  rw [← List.length_eq_zero_iff, ← List.length_eq_zero_iff, hlength]

theorem Draft.Alike.maxStack_eq {d d' : Draft} (h : d.Alike d') : d.maxStack = d'.maxStack := by
  have hstack := congrArg Draft.maxStack h
  exact hstack

/-- What a step does to one draft it does to a draft like it, wherever the instruction stands. -/
theorem Moves.alike {α : Type} {b : Nat → Build α} {pos : Nat} {d d' d₁ : Draft} {a : α}
    (hb : ∀ pos, Build.Relocates (fun _ ↦ 0) (b pos) (b 0)) (h : d.Alike d')
    (hrun : (b pos).run d = .ok a d₁) (pos' : Nat) :
    ∃ d₁', (b pos').run d' = .ok a d₁' ∧ d₁.Alike d₁' := by
  have hmoved := hb pos d
  have hmoved' := hb pos' d'
  rw [h, hmoved'] at hmoved
  rw [hrun] at hmoved
  cases hrun' : (b pos').run d' with
  | ok a' d₁' =>
    rw [hrun'] at hmoved
    obtain ⟨rfl, halike⟩ := EStateM.Result.ok.inj hmoved
    exact ⟨d₁', rfl, halike.symm⟩
  | error e d₁' =>
    rw [hrun'] at hmoved
    cases hmoved

theorem Compiles.of_alike {ctx : Context} {d d' : Draft} {is : List Instr}
    {out : List Stmt × Lanes Nat} (h : Compiles ctx d is out) (hd : d.Alike d') :
    Compiles ctx d' is out := by
  induction h generalizing d' with
  | finish houter h =>
    obtain ⟨d₁', h', halike⟩ := Moves.alike Build.finish_relocates hd h 0
    rw [halike.maxStack_eq]
    exact .finish (hd.outer_eq_nil_iff.mp houter) h'
  | step hinside h _ ih =>
    obtain ⟨d₁', h', halike⟩ :=
      Moves.alike (fun pos ↦ Build.step_relocates ctx pos _) hd h 0
    exact .step (fun hend ↦ hinside ⟨hend.1, hd.outer_eq_nil_iff.mpr hend.2⟩) h' (ih halike)

namespace Reader

open Cursor

variable {ctx : Context} {c c' : Cursor}

theorem instr_bytes_ne_nil {i : Instr} {bs : List UInt8} (h : Grammar.instr i bs) : bs ≠ [] := by
  rintro rfl
  cases h with
  | const h => cases h

/-- The instructions of a function are read just if the bytes spell some that compile. -/
theorem run_instructions_eq_ok {n : Nat} {d : Draft} {out : List Stmt × Lanes Nat}
    (hn : c.remaining ≤ n) : (instructions ctx n d).run c = .ok out c' ↔
      ∃ is bs, Grammar.items Grammar.instr is bs ∧ Compiles ctx d is out ∧ c.Spans bs c' := by
  induction n generalizing d c with
  | zero =>
    have hrest : c.rest = [] := List.length_eq_zero_iff.mp (Nat.le_zero.mp hn)
    constructor
    · intro h
      cases h
    · rintro ⟨is, bs, hspelled, hcompiles, hspans⟩
      have hnil : bs = [] := (List.append_eq_nil_iff.mp (hspans.1.symm.trans hrest)).1
      cases hspelled with
      | nil => cases hcompiles
      | cons hi _ => exact absurd (List.append_eq_nil_iff.mp hnil).1 (instr_bytes_ne_nil hi)
  | succ n ih =>
    -- An instruction takes a byte at least, so the bound holds for what is left.
    have hshorter {i : Instr} {bs : List UInt8} {c₁ : Cursor} (hi : Grammar.instr i bs)
        (hspans : c.Spans bs c₁) : c₁.remaining ≤ n := by
      have hpos := List.length_pos_of_ne_nil (instr_bytes_ne_nil hi)
      have hlength := congrArg List.length hspans.1
      rw [List.length_append] at hlength
      simp only [Cursor.remaining] at hn ⊢
      omega
    simp only [instructions, run_bind_eq_ok, run_offset_eq_ok, instr_reads _ _ _, run_ite]
    constructor
    · rintro ⟨_, _, ⟨rfl, rfl⟩, i, c₁, ⟨bs, hi, hspans⟩, h⟩
      split at h
      · rename_i hend
        obtain ⟨rfl, houter⟩ := hend
        simp only [run_bind_eq_ok, building_eq_ok, Prod.exists, run_pure_eq_ok] at h
        obtain ⟨body, d₁, _, ⟨hfinish, rfl⟩, rfl, rfl⟩ := h
        refine ⟨[.close], bs ++ [], .cons hi .nil, ?_, by simpa using hspans⟩
        exact .finish (List.isEmpty_iff.mp houter) hfinish
      · rename_i hinside
        simp only [run_bind_eq_ok, building_eq_ok, Prod.exists] at h
        obtain ⟨_, d₁, _, ⟨hstep, rfl⟩, h⟩ := h
        obtain ⟨is, bs', hspelled, hcompiles, hspans'⟩ := (ih (hshorter hi hspans)).mp h
        rw [List.isEmpty_iff] at hinside
        exact ⟨i :: is, bs ++ bs', .cons hi hspelled, .step hinside hstep hcompiles,
          spans_append.mpr ⟨c₁, hspans, hspans'⟩⟩
    · rintro ⟨is, bs, hspelled, hcompiles, hspans⟩
      cases hspelled with
      | nil => cases hcompiles
      | @cons i is bs bs' hi hspelled =>
        obtain ⟨c₁, hspans, hspans'⟩ := spans_append.mp hspans
        refine ⟨_, _, ⟨rfl, rfl⟩, i, c₁, ⟨bs, hi, hspans⟩, ?_⟩
        cases hcompiles with
        | finish houter hfinish =>
          cases hspelled with
          | nil =>
            obtain rfl := spans_nil.mp hspans'
            obtain ⟨d₁, hfinish, halike⟩ :=
              Moves.alike Build.finish_relocates rfl hfinish c.offset
            rw [if_pos ⟨rfl, List.isEmpty_iff.mpr houter⟩, halike.maxStack_eq]
            exact run_bind_eq_ok.mpr ⟨_, c₁, building_eq_ok.mpr ⟨hfinish, rfl⟩, rfl⟩
        | step hinside hstep hrest =>
          obtain ⟨d₁, hstep, halike⟩ :=
            Moves.alike (fun pos ↦ Build.step_relocates ctx pos i) rfl hstep c.offset
          rw [if_neg (by rwa [List.isEmpty_iff])]
          exact run_bind_eq_ok.mpr ⟨_, c₁, building_eq_ok.mpr ⟨hstep, rfl⟩,
            (ih (hshorter hi hspans)).mpr ⟨is, bs', hspelled, hrest.of_alike halike, hspans'⟩⟩

end Reader

def FuncType.localsWith (type : FuncType) (decls : List (Nat × ValueType)) : List ValueType :=
  type.params ++ decls.flatMap fun (n, t) ↦ List.replicate n t

/-- A function of the given type with the given instructions, the last of which ends it, compiles
to the code. -/
structure Code.Compiled (config : Config) (m : Module) (type : FuncType)
    (decls : List (Nat × ValueType)) (is : List Instr) (code : Code) : Prop where
  type_eq : code.type = type
  locals_eq : code.locals = type.localsWith decls
  localSlots_eq : code.localSlots = Lanes.count code.locals
  bounded : code.locals.length ≤ config.maxFunctionLocals
  compiles : Compiles ⟨m, config.maxControlDepth, type, code.locals⟩ (Draft.start type 0) is
    (code.body, code.stackSlots)

namespace Reader

open Cursor

theorem foldl_declared (decls : List (Nat × ValueType)) (total : Nat) :
    decls.foldl (fun total (n, _) ↦ total + n) total =
      total + (decls.flatMap fun (n, t) ↦ List.replicate n t).length := by
  induction decls generalizing total with
  | nil => rfl
  | cons decl decls ih =>
    rw [List.foldl_cons, ih, List.flatMap_cons, List.length_append, List.length_replicate]
    exact Nat.add_assoc _ _ _

/-- A function is read just if the bytes spell instructions that compile to it. -/
theorem code_reads (config : Config) (m : Module) (type : FuncType)
    (decls : List (Nat × ValueType)) : Reads (code config m type decls) fun f bs ↦
      ∃ is, Grammar.items Grammar.instr is bs ∧ f.Compiled config m type decls is := by
  have hlength : decls.foldl (fun total (n, _) ↦ total + n) 0 + type.params.length =
      (type.localsWith decls).length := by
    rw [foldl_declared, FuncType.localsWith, List.length_append]
    omega
  have halike (start : Nat) : (Draft.start type start).Alike (Draft.start type 0) := rfl
  intro c f c'
  simp only [code, run_bind_eq_ok, run_offset_eq_ok, run_ite, hlength]
  constructor
  · rintro ⟨_, _, ⟨rfl, rfl⟩, h⟩
    split at h
    · simp only [failAt, run_bind_eq_ok, run_throw_eq_ok, false_and, exists_false] at h
    · rename_i hbounded
      simp only [run_bind_eq_ok, run_get_eq_ok, run_pure_eq_ok, Prod.exists] at h
      obtain ⟨_, _, ⟨rfl, rfl⟩, body, slots, _, hrun, rfl, rfl⟩ := h
      obtain ⟨is, bs, hspelled, hcompiles, hspans⟩ :=
        (run_instructions_eq_ok (Nat.le_refl _)).mp hrun
      exact ⟨bs, ⟨is, hspelled, rfl, rfl, rfl, Nat.le_of_not_lt hbounded,
        hcompiles.of_alike (halike _)⟩, hspans⟩
  · rintro ⟨bs, ⟨is, hspelled, htype, hlocals, hslots, hbounded, hcompiles⟩, hspans⟩
    obtain ⟨ftype, locals, body, localSlots, stackSlots⟩ := f
    obtain rfl : ftype = type := htype
    obtain rfl : locals = ftype.localsWith decls := hlocals
    obtain rfl : localSlots = Lanes.count (ftype.localsWith decls) := hslots
    have hrun := (run_instructions_eq_ok (Nat.le_refl _)).mpr
      ⟨is, bs, hspelled, hcompiles.of_alike (halike c.offset).symm, hspans⟩
    refine ⟨_, _, ⟨rfl, rfl⟩, ?_⟩
    rw [if_neg (Nat.not_lt_of_le hbounded)]
    simp only [run_bind_eq_ok, run_get_eq_ok, run_pure_eq_ok, Prod.exists]
    exact ⟨c, c, ⟨rfl, rfl⟩, body, stackSlots, c', hrun, rfl, rfl⟩

end Reader

end WasmEngine
