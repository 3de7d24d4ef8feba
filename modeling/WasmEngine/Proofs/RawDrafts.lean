import WasmEngine.Proofs.Drafts

/-!
# Compilation with counters of 32 bits

A draft counts operands with natural numbers, and it has an innermost scope by construction. On a
machine neither goes without saying: a counter has 32 bits, the open scopes are a stack of frames
that might be empty, and a frame is found by its index. `RawDraft` is such a stack, and each
operation on it says what it does where a draft leaves no choice. An instruction is compiled with
these operations just as it is with those on drafts.
-/

namespace WasmEngine

/-- How many values a counter of 32 bits has. -/
def counterBound : Nat := 4294967296

structure RawDraft where
  /-- The open scopes, the outermost first. -/
  frames : List Scope
  maxStack : Lanes Nat

inductive Halt where
  /-- The body is refused. -/
  | refused (e : DecodeError)
  /-- A counter is decremented below zero. -/
  | underflow
  /-- A counter exceeds 32 bits. -/
  | overflow
  /-- A frame is looked for that is not there. -/
  | noFrame
  /-- The frame of the function is closed like a block. -/
  | functionClosed

abbrev RawBuild := EStateM Halt RawDraft

def Scope.Kind.isFunction : Scope.Kind → Bool
  | .function => true
  | _ => false

namespace RawBuild

variable {α : Type}

def refuse (pos : Nat) (fault : Fault) : RawBuild α := throw (.refused (.located pos fault))

/-- A check that does not depend on the draft is made on any. -/
def look (b : Build α) : RawBuild α :=
  match b.run (Draft.start default 0) with
  | .ok a _ => return a
  | .error e _ => throw (.refused e)

def word (n : Nat) : RawBuild Nat := if n < counterBound then return n else throw .overflow

def words (l : Lanes Nat) : RawBuild (Lanes Nat) :=
  if l.toList.all (· < counterBound) then return l else throw .overflow

def frameAt (r : RawDraft) (index : Nat) : RawBuild Scope :=
  r.frames[index]?.elim (throw .noFrame) pure

def top : RawBuild Scope := do
  let r ← get
  frameAt r (r.frames.length - 1)

def replaceTop (s : Scope) : RawBuild Unit :=
  modify fun r ↦ { r with frames := r.frames.dropLast ++ [s] }

def height (s : Scope) : RawBuild (Lanes Nat) := words s.height

def nextSlot (s : Scope) (t : ValueType) : RawBuild Slot :=
  return .stack t (← word (s.base.get t + s.live.get t))

def raise (l : Lanes Nat) : RawBuild Unit :=
  modify fun r ↦ { r with maxStack := r.maxStack.raise l }

def emit (stmt : Stmt) : RawBuild Unit := do
  replaceTop ((← top).emit stmt)

def push (t : ValueType) : RawBuild Slot := do
  let s ← top
  let slot ← nextSlot s t
  let _ ← word (s.live.get t + 1)
  replaceTop (s.push t)
  raise (← height (s.push t))
  return slot

def pop (pos : Nat) (expected : Option ValueType) : RawBuild (ValueType × Slot) := do
  let s ← top
  if s.types.isEmpty then
    if s.unreachable then
      let t := expected.getD .i32
      let slot ← nextSlot s t
      let height ← height s
      let _ ← word (height.get t + 1)
      raise (height.incr t)
      return (t, slot)
    else if (← get).frames.any (!·.types.isEmpty) then refuse pos .outsideBlock
    else refuse pos .stackUnderflow
  else
    let t := s.types.headD .i32
    if s.live.get t = 0 then throw .underflow
    replaceTop (s.popped t)
    if expected.getD t ≠ t then refuse pos (.typeMismatch (expected.getD t) t)
    return (t, ← nextSlot (s.popped t) t)

def cut : RawBuild Unit := do
  replaceTop (← top).cut

def openScope (ctx : Context) (pos : Nat) (kind : Scope.Kind) (result : Option ValueType) :
    RawBuild Unit := do
  let depth := (← get).frames.length
  if depth > ctx.maxControlDepth then
    refuse pos (.limitExceeded .controlNesting ctx.maxControlDepth)
  let base ← height (← top)
  let scope : Scope := { kind, result, label := depth % counterBound, base, offset := pos }
  modify fun r ↦ { r with frames := r.frames ++ [scope] }

def beginElse (pos : Nat) : RawBuild Unit := do
  let s ← top
  match s.kind with
  | .thenArm cond =>
    look (Build.checkEnd pos s)
    let kind := .elseArm cond s.body.toList
    replaceTop { s with kind, types := [], live := Lanes.zero, unreachable := false, body := #[] }
  | _ => refuse pos .elseWithoutIf

/-- The innermost scope is taken off the frames before anything is made of it. -/
def closeScope (pos : Nat) : RawBuild Unit := do
  let s ← top
  look (Build.checkEnd pos s)
  modify fun r ↦ { r with frames := r.frames.dropLast }
  if s.kind.isFunction then throw .functionClosed
  emit (← look (Build.closed s))
  s.result.forM fun t ↦ do
    let _ ← push t

/-- Depths count from the innermost frame, indices from the outermost. -/
def scopeAt (pos depth : Nat) : RawBuild Scope := do
  let r ← get
  if r.frames.length < depth + 1 then refuse pos (.branchDepth depth)
  frameAt r (r.frames.length - (depth + 1))

def push? : Option ValueType → RawBuild (Option Slot)
  | some t => return some (← push t)
  | none => return none

def popType (pos : Nat) (t : ValueType) : RawBuild Slot := return (← pop pos (some t)).2

def pop? (pos : Nat) : Option ValueType → RawBuild (Option Slot)
  | some t => return some (← popType pos t)
  | none => return none

def popArgs (pos : Nat) : List ValueType → RawBuild (List Slot)
  | [] => return []
  | t :: ts => do
    let slots ← popArgs pos ts
    return (← popType pos t) :: slots

def tableScopes (pos : Nat) (label : Option ValueType) : List Nat → RawBuild (List Scope)
  | [] => return []
  | depth :: depths => do
    let s ← scopeAt pos depth
    if s.labelType ≠ label then refuse pos .branchTableArity
    return s :: (← tableScopes pos label depths)

def primitives : Primitives RawBuild where
  refuse := refuse
  look := look
  emit := emit
  push := push
  push? := push?
  pop := pop
  popType := popType
  pop? := pop?
  popArgs := popArgs
  cut := cut
  openScope := openScope
  beginElse := beginElse
  closeScope := closeScope
  scopeAt := scopeAt
  tableScopes := tableScopes

/-- End the function, whose frame is the last to be taken off. -/
def finish (pos : Nat) : RawBuild (List Stmt) := do
  let s ← top
  modify fun r ↦ { r with frames := r.frames.dropLast }
  look (Build.checkEnd pos s)
  if s.unreachable then return s.body.toList
  return (s.emit (.ret (s.result.map s.outputSlot))).body.toList

end RawBuild

end WasmEngine
