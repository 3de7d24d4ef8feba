import WasmEngine.Machine
import WasmEngine.Proofs.CodeForm

/-!
# The meaning of structured control

A call of compiled code runs on a flat list of open regions: a branch drops regions, and nothing
recurses. Statements also have a meaning by recursion on their structure. A body runs its statements
in order; a block or conditional catches the branches that leave it; a loop runs its body again when
a branch restarts it, and is over when its body has run to the end; all other branches, returns and
traps go outwards. This module gives that meaning, for statements whose branches lead to constructs
around them, as those of compiled code do.

What the meaning of statements takes from the machine is the outcome of a call, and what a single
statement without a body or a branch does to slots and store.
-/

namespace WasmEngine

/-! ## Scopes -/

/-- The kind of the construct with a label, `true` for a loop. The list has the kinds of the
constructs around a statement, innermost first, and ends with that of the function's body. The label
of each is the number of those further out. -/
def kindOf (label : Nat) : List Bool → Option Bool
  | [] => none
  | k :: ks => if ks.length = label then some k else kindOf label ks

/-- A branch leaves a block or conditional around it, restarts a loop around it, or returns. -/
def Target.Scoped (ks : List Bool) : Target → Prop
  | .leave label _ => kindOf label ks = some false
  | .restart label => kindOf label ks = some true
  | .ret _ => True

def Stmt.isSimple : Stmt → Bool
  | .block .. | .loop .. | .conditional .. => false
  | .branch _ | .branchIf .. | .branchTable .. | .ret _ => false
  | _ => true

/-- Constructs are labelled by their nesting depth, and branches lead to constructs around them, of
the right kind. -/
inductive Stmt.Scoped : List Bool → Stmt → Prop
  | block {ks : List Bool} {body : List Stmt} (hbody : ∀ stmt ∈ body, Scoped (false :: ks) stmt) :
      Scoped ks (.block ks.length body)
  | loop {ks : List Bool} {body : List Stmt} (hbody : ∀ stmt ∈ body, Scoped (true :: ks) stmt) :
      Scoped ks (.loop ks.length body)
  | conditional {ks : List Bool} {cond : Slot} {thenBody elseBody : List Stmt}
      (hthen : ∀ stmt ∈ thenBody, Scoped (false :: ks) stmt)
      (helse : ∀ stmt ∈ elseBody, Scoped (false :: ks) stmt) :
      Scoped ks (.conditional ks.length cond thenBody elseBody)
  | branch {ks : List Bool} {target : Target} (htarget : target.Scoped ks) :
      Scoped ks (.branch target)
  | branchIf {ks : List Bool} {cond : Slot} {target : Target} (htarget : target.Scoped ks) :
      Scoped ks (.branchIf cond target)
  | branchTable {ks : List Bool} {index : Slot} {targets : List Target} {default : Target}
      (htargets : ∀ target ∈ targets, target.Scoped ks) (hdefault : default.Scoped ks) :
      Scoped ks (.branchTable index targets default)
  | ret {ks : List Bool} (value : Option Slot) : Scoped ks (.ret value)
  | simple {ks : List Bool} {stmt : Stmt} (h : stmt.isSimple = true) : Scoped ks stmt

/-- The entry of a branch table that is taken leads somewhere too. -/
theorem Target.scoped_getD {ks : List Bool} {targets : List Target} {default : Target}
    (htargets : ∀ target ∈ targets, target.Scoped ks) (hdefault : default.Scoped ks) (i : Nat) :
    (targets[i]?.getD default).Scoped ks := by
  cases h : targets[i]? with
  | none => exact hdefault
  | some target => exact htargets target (List.mem_of_getElem? h)

/-! ### Compiled code -/

theorem kindOf_map_isLoop {ls : List Label} {depth : Nat} {l : Label} (h : ls[depth]? = some l) :
    kindOf (ls.length - depth) (ls.map Label.isLoop ++ [false]) = some l.isLoop := by
  induction ls generalizing depth with
  | nil => cases h
  | cons l' ls ih =>
    rw [List.map_cons, List.cons_append, kindOf]
    cases depth with
    | zero =>
      obtain rfl := Option.some.inj h
      exact if_pos (by simp)
    | succ depth =>
      rw [List.getElem?_cons_succ] at h
      rw [if_neg (by simp; omega), List.length_cons, Nat.add_sub_add_right]
      exact ih h

theorem Target.Fits.scoped {L : Layout} {ls : List Label} {target : Target}
    (h : target.Fits L ls) : target.Scoped (ls.map Label.isLoop ++ [false]) := by
  cases h with
  | leave hl hkind => exact (kindOf_map_isLoop hl).trans (congrArg some hkind)
  | restart hl hkind => exact (kindOf_map_isLoop hl).trans (congrArg some hkind)
  | ret => exact trivial

theorem Stmt.Fits.scoped {L : Layout} {ls : List Label} {stmt : Stmt} (h : stmt.Fits L ls) :
    stmt.Scoped (ls.map Label.isLoop ++ [false]) := by
  have hlength (ls : List Label) : ls.length + 1 = (ls.map Label.isLoop ++ [false]).length := by
    simp
  induction h with
  | @block ls _ _ _ _ ih =>
    rw [hlength ls]
    exact .block ih
  | @loop ls _ _ _ _ ih =>
    rw [hlength ls]
    exact .loop ih
  | @conditional ls _ _ _ _ _ _ _ _ ihthen ihelse =>
    rw [hlength ls]
    exact .conditional ihthen ihelse
  | branch htarget => exact .branch htarget.scoped
  | branchIf _ htarget => exact .branchIf htarget.scoped
  | branchTable _ htargets hdefault =>
    exact .branchTable (fun target ht ↦ (htargets target ht).scoped) hdefault.scoped
  | ret => exact .ret _
  | _ => exact .simple rfl

/-- The code of every function of a module is scoped. -/
theorem Code.Fits.scoped {m : Module} {code : Code} (h : code.Fits m) :
    ∀ stmt ∈ code.body, stmt.Scoped [false] :=
  fun stmt hmem ↦ (h.body stmt hmem).scoped

/-! ## The meaning of statements -/

namespace Structured

inductive Ending where
  /-- Control goes on behind it. -/
  | falls
  /-- A branch leaves the construct with the label. -/
  | leaves (label : Nat)
  /-- A branch restarts the loop with the label. -/
  | restarts (label : Nat)
  /-- The function returns. -/
  | returns (v : Option Value)
deriving DecidableEq

/-- The value that the function returns, if its body ends so. -/
def Ending.value : Ending → Option Value
  | returns v => v
  | _ => none

inductive Outcome where
  | ends (how : Ending) (slots : Slots) (s : Store)
  | traps (t : Trap) (s : Store)
  /-- There is not enough fuel. -/
  | unfinished

namespace Outcome

/-- Go on with something that was read, if it could be read. -/
def reading {α : Type} (s : Store) (x : Except Trap α) (k : α → Outcome) : Outcome :=
  match x with
  | .ok a => k a
  | .error t => .traps t s

/-- Code that waited for a call has its outcome. -/
def ofCall (w : Suspended) : Option (Except Trap Answer × Store) → Outcome
  | some (.ok answer, s) => reading s (answer.toValue >>= w.resume) fun a ↦ .ends .falls a.slots s
  | some (.error t, s) => .traps t s
  | none => .unfinished

/-- Go on with what stands behind. -/
def andThen : Outcome → (Slots → Store → Outcome) → Outcome
  | ends .falls slots s, next => next slots s
  | o, _ => o

/-- A block or conditional catches the branches that leave it. -/
def caught (label : Nat) : Outcome → Outcome
  | ends (.leaves l) slots s => ends (if l = label then .falls else .leaves l) slots s
  | o => o

end Outcome

/-- Run the body of a loop until it ends otherwise than by a restart of the loop. -/
def iterate (label : Nat) (body : Slots → Store → Outcome) : Nat → Slots → Store → Outcome
  | 0, _, _ => .unfinished
  | fuel + 1, slots, s =>
    match body slots s with
    | .ends (.restarts l) slots s =>
      if l = label then iterate label body fuel slots s else .ends (.restarts l) slots s
    | o => o

/-- The slots when the operand that a branch carries has been moved into place. -/
def moved (slots : Slots) : Option (Slot × Slot) → Except Trap Slots
  | some (src, dst) => do slots.set dst (← slots.get src)
  | none => return slots

/-- How a branch ends its statement, and the slots it leaves behind. -/
def follow (slots : Slots) : Target → Except Trap (Ending × Slots)
  | .leave label carry => return (.leaves label, ← moved slots carry)
  | .restart label => return (.restarts label, slots)
  | .ret (some slot) => return (.returns (some (← slots.get slot)), slots)
  | .ret none => return (.returns none, slots)

def branch (target : Target) (slots : Slots) (s : Store) : Outcome :=
  .reading s (follow slots target) fun p ↦ .ends p.1 p.2 s

/-- The outcome of a call that code of the instance `caller` makes, if it is known after `fuel`
steps. -/
def called (fuel caller addr : Nat) (args : List Value) (s : Store) :
    Option (Except Trap Answer × Store) :=
  let (e, s) := Exec.begin (Exec.enter (some caller) addr args) s
  Engine.compiled.run fuel ⟨s, Engine.compiled.begin s e, []⟩

/-- A statement that is neither a construct nor a branch, run on its own. -/
def simple (fuel inst : Nat) (stmt : Stmt) (slots : Slots) (s : Store) : Outcome :=
  match (Activation.exec ⟨inst, slots, [], none⟩ stmt).run s with
  | .ok (.next a) s => .ends .falls a.slots s
  | .ok (.call caller addr args w) s => .ofCall w (called fuel caller addr args s)
  | .ok (.ret v) s => .ends (.returns v) slots s
  | .error t s => .traps t s

mutual

/-- Run a statement. No loop starts more than `fuel` times, and no call takes more steps. -/
def eval (fuel inst : Nat) : Stmt → Slots → Store → Outcome
  | .block label body, slots, s => (evalBody fuel inst body slots s).caught label
  | .loop label body, slots, s =>
    iterate label (fun slots s ↦ evalBody fuel inst body slots s) fuel slots s
  | .conditional label cond thenBody elseBody, slots, s =>
    .reading s (slots.i32 cond) fun c ↦
      (if c ≠ 0 then evalBody fuel inst thenBody slots s
        else evalBody fuel inst elseBody slots s).caught label
  | .branch target, slots, s => branch target slots s
  | .branchIf cond target, slots, s =>
    .reading s (slots.i32 cond) fun c ↦
      if c ≠ 0 then branch target slots s else .ends .falls slots s
  | .branchTable index targets default, slots, s =>
    .reading s (slots.i32 index) fun i ↦ branch (targets[i.toNat]?.getD default) slots s
  | .ret value, slots, s => branch (.ret value) slots s
  | stmt, slots, s => simple fuel inst stmt slots s

def evalBody (fuel inst : Nat) : List Stmt → Slots → Store → Outcome
  | [], slots, s => .ends .falls slots s
  | stmt :: rest, slots, s =>
    (eval fuel inst stmt slots s).andThen fun slots s ↦ evalBody fuel inst rest slots s

end

theorem eval_of_isSimple {stmt : Stmt} (h : stmt.isSimple = true) (fuel inst : Nat) (slots : Slots)
    (s : Store) : eval fuel inst stmt slots s = simple fuel inst stmt slots s := by
  cases stmt <;> first | rfl | cases h

end Structured

end WasmEngine
