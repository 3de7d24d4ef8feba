import WasmEngine.Link
import WasmEngine.Machine.Activation
import WasmEngine.Module.Encoding

/-!
# The machine

The machine runs code and the programs of host functions on one stack of frames. A frame is a call
that waits for another: code for the value of the function it called, a host program for the
outcome of the operation it asked for. What runs is not on the stack but in the control of the
machine. How code itself runs is up to an engine; the one that stores use runs compiled statements.

Every call in progress counts toward the depth of the store, which has a limit. A trap drops frames
down to the nearest host program, which learns of it and may go on, or down to the bottom. Where
the stack ends or goes back to a host program, the depth is set to what it was when the operation
began, so that calls which a trap has dropped are no longer counted.
-/

namespace WasmEngine

/-- What a call comes to: a value of a typed function, or what a host function without a type
gave. -/
inductive Answer where
  | value (v : Option Value)
  | number (x : Option Number)
deriving DecidableEq

/-- The answer as the host sees it. -/
def Answer.toNumber : Answer → Except Trap (Option Number)
  | value none => .ok none
  | value (some v) => do return some (← Number.ofValue v)
  | number x => .ok x

/-- The answer as compiled code sees it. A call without a type has no value. -/
def Answer.toValue : Answer → Except Trap (Option Value)
  | value v => .ok v
  | number _ => .error (.badHandle .untypedFunc)

/-- A call that is about to run: of the compiled code at an address, or of a host function, whose
program for its arguments is known by then. -/
inductive Entry where
  | code (addr inst : Nat) (code : Code) (args : List Value)
  | host (type : Option FuncType) (p : HostProgram)

/-- How code runs. -/
structure Engine (A W : Type) where
  /-- A call of the code at an address of a store, about to run. -/
  start : Store → (addr inst : Nat) → Code → List Value → A
  step : A → Exec (Action A W)
  /-- Go on with what the callee returned. -/
  resume : W → Option Value → Except Trap A

/-- Compiled statements over slots. -/
def Engine.compiled : Engine Activation Suspended where
  start _ _ := Activation.start
  step := Activation.step
  resume := Suspended.resume

/-- A call that waits. -/
inductive Frame (W : Type) where
  /-- Code that waits for a callee. -/
  | code (w : W)
  /-- A host function of the given type that waits for an operation begun at depth `base`. -/
  | host (type : Option FuncType) (base : Nat) (next : Except Trap Answer → HostProgram)

/-- What the machine does next. -/
inductive Control (A : Type) where
  /-- Run code. -/
  | code (a : A)
  /-- Run the program of a host function of the given type. -/
  | host (type : Option FuncType) (p : HostProgram)
  /-- Give the outcome of a call to the frame that waits for it. -/
  | answer (r : Except Trap Answer)

structure Machine (A W : Type) where
  store : Store
  control : Control A
  stack : List (Frame W)

namespace Exec

/-- Count one more call in progress, unless that exceeds the limit. -/
def pushDepth : Exec Unit := do
  let s ← get
  if s.depth ≥ s.config.maxCallDepth then throw (.callStackExhausted s.depth)
  modify fun s ↦ { s with depth := s.depth + 1 }

/-- Enter a host function, for `caller` or for the host itself. -/
def enterHost (type : Option FuncType) (f : HostFunc) (caller : Option Nat)
    (args : List Number) : Exec Entry := do
  modify fun s ↦ { s with journal := s.journal.push ⟨f.tag, args⟩ }
  let s ← get
  return .host type (f.body (caller.map s.ref) args)

/-- Begin a call of the function at an address. The arguments are those its type asks for. -/
def enter (caller : Option Nat) (addr : Nat) (args : List Value) : Exec Entry := do
  match ← funcAt addr with
  | .code inst code =>
    pushDepth
    return .code addr inst code args
  | .host (some type) f =>
    pushDepth
    let numbers ← ofExcept (args.mapM Number.ofValue)
    enterHost (some type) f caller numbers
  | .host none _ => throw (.badHandle .untypedFunc)

/-- Try to begin a call. -/
def begin (x : Exec Entry) (s : Store) : Except Trap Entry × Store :=
  match x.run s with
  | .ok e s => (.ok e, s)
  | .error t s => (.error t, s)

end Exec

/-- An operation of the embedder or of a host program that may run code: it is settled at once, or
it comes to a call and `finish` says what the outcome of that means. -/
inductive Operation (α : Type) where
  | settled (a : α)
  | running (e : Except Trap Entry) (finish : Except Trap Answer → α)

namespace Operation

/-- The first argument whose type is not as expected. -/
def mistyped? : Nat → List Value → List ValueType → Option (Nat × ValueType)
  | i, v :: vs, t :: ts => if v.type = t then mistyped? (i + 1) vs ts else some (i, t)
  | _, _, _ => none

/-- Call a function with numbers. Nothing runs if the numbers do not fit the function's type, or if
a 64-bit integer would have to cross. -/
def call (s : Store) (f : Ref .func) (args : List Number) :
    Operation (Except Trap (Option Number)) × Store :=
  match s.resolve f with
  | none => (.settled (.error (.badHandle .func)), s)
  | some addr =>
    match s.funcs[addr]? with
    | none => (.settled (.error (.badHandle .func)), s)
    | some (.host none f) =>
      let (e, s) := Exec.begin (do Exec.pushDepth; Exec.enterHost none f none args) s
      (.running e (· >>= Answer.toNumber), s)
    | some callable =>
      let type := callable.type?.getD ⟨[], []⟩
      if args.length ≠ type.params.length then
        (.settled (.error (.argumentCount type.params.length args.length)), s)
      else if type.result = some .i64 then (.settled (.error .i64AtBoundary), s)
      else
        match (args.zip type.params).mapM fun (x, t) ↦ x.toValue t with
        | .error t => (.settled (.error t), s)
        | .ok values =>
          let (e, s) := Exec.begin (Exec.enter none addr values) s
          (.running e (· >>= Answer.toNumber), s)

/-- Call a function that has a type with values, which must have the types of its parameters. -/
def callValues (s : Store) (f : Ref .func) (args : List Value) :
    Operation (Except Trap (Option Value)) × Store :=
  match s.resolve f with
  | none => (.settled (.error (.badHandle .func)), s)
  | some addr =>
    match s.funcs[addr]? with
    | none => (.settled (.error (.badHandle .func)), s)
    | some callable =>
      match callable.type? with
      | none => (.settled (.error (.badHandle .untypedFunc)), s)
      | some type =>
        if args.length ≠ type.params.length then
          (.settled (.error (.argumentCount type.params.length args.length)), s)
        else
          match mistyped? 0 args type.params with
          | some (i, t) => (.settled (.error (.argumentType i t)), s)
          | none =>
            let (e, s) := Exec.begin (Exec.enter none addr args) s
            (.running e (· >>= Answer.toValue), s)

/-- Make an instance of a module and run its start function. An instance whose start function traps
stays in the store. -/
def instantiate (s : Store) (m : Module) (imports : Imports) :
    Operation (Except InstantiationError (Ref .inst)) × Store :=
  match (Link.prepare m imports).run s with
  | .error e s => (.settled (.error e), s)
  | .ok (i, none) s => (.settled (.ok i), s)
  | .ok (i, some start) s =>
    let (e, s) := Exec.begin (Exec.enter none start []) s
    let finish : Except Trap Answer → Except InstantiationError (Ref .inst)
      | .ok _ => .ok i
      | .error t => .error (.trap t)
    (.running e finish, s)

end Operation

/-- What one step of the machine leads to. -/
inductive Progress (A W : Type) where
  | next (m : Machine A W)
  | done (r : Except Trap Answer) (s : Store)

/-- The outcome of a host function of the given type whose program ended with `x`. -/
def hostAnswer (type : Option FuncType) (x : Option Number) : Except Trap Answer :=
  match type with
  | none => .ok (.number x)
  | some type =>
    match type.result, x with
    | some t, some x => do return .value (some (← x.toValue t))
    | none, none => .ok (.value none)
    | _, _ => .error .unexpectedHostResult

namespace Engine

variable {A W : Type} (E : Engine A W)

/-- What a call starts with; if it cannot begin, that is its outcome. -/
def begin (s : Store) : Except Trap Entry → Control A
  | .ok (.code addr inst c args) => .code (E.start s addr inst c args)
  | .ok (.host type p) => .host type p
  | .error t => .answer (.error t)

/-- The control of code that gets the answer it waited for. -/
def deliver (w : W) (answer : Answer) : Control A :=
  match answer.toValue >>= E.resume w with
  | .ok a => .code a
  | .error t => .answer (.error t)

/-- One step of code. -/
def stepCode (s : Store) (a : A) (stack : List (Frame W)) : Machine A W :=
  match (E.step a).run s with
  | .ok (.next a) s => ⟨s, .code a, stack⟩
  | .ok (.call caller addr args w) s =>
    let (e, s) := Exec.begin (Exec.enter (some caller) addr args) s
    ⟨s, E.begin s e, .code w :: stack⟩
  | .ok (.ret v) s => ⟨{ s with depth := s.depth - 1 }, .answer (.ok (.value v)), stack⟩
  | .error t s => ⟨s, .answer (.error t), stack⟩

/-- A host program asked for an operation that began when the depth was `base`. -/
def suspend {α : Type} (type : Option FuncType) (base : Nat) (next : α → HostProgram)
    (stack : List (Frame W)) : Operation α × Store → Machine A W
  | (.settled a, s) => ⟨s, .host type (next a), stack⟩
  | (.running e finish, s) =>
    ⟨s, E.begin s e, .host type base (fun r ↦ next (finish r)) :: stack⟩

/-- One step of a host program. -/
def stepHost (s : Store) (type : Option FuncType) (stack : List (Frame W)) :
    HostProgram → Machine A W
  | .done (.ok x) => ⟨{ s with depth := s.depth - 1 }, .answer (hostAnswer type x), stack⟩
  | .done (.error t) => ⟨s, .answer (.error t), stack⟩
  | .query q next =>
    let (reply, s) := s.answer q
    ⟨s, .host type (next reply), stack⟩
  | .call f args next => E.suspend type s.depth next stack (Operation.call s f args)
  | .callValues f args next => E.suspend type s.depth next stack (Operation.callValues s f args)
  | .instantiate m imports next =>
    E.suspend type s.depth next stack (Operation.instantiate s m imports)
  | .newFunc fType tag body next =>
    let (f, s) := s.newFunc fType ⟨tag, body⟩
    ⟨s, .host type (next f), stack⟩

def next : Machine A W → Progress A W
  | ⟨s, .code a, stack⟩ => .next (E.stepCode s a stack)
  | ⟨s, .host type p, stack⟩ => .next (E.stepHost s type stack p)
  | ⟨s, .answer r, []⟩ => .done r s
  | ⟨s, .answer (.ok answer), .code w :: stack⟩ => .next ⟨s, E.deliver w answer, stack⟩
  | ⟨s, .answer (.error t), .code _ :: stack⟩ => .next ⟨s, .answer (.error t), stack⟩
  | ⟨s, .answer r, .host type base next :: stack⟩ =>
    .next ⟨{ s with depth := base }, .host type (next r), stack⟩

/-- Run for at most `fuel` steps. There is no result if the machine has not stopped by then. -/
def run : Nat → Machine A W → Option (Except Trap Answer × Store)
  | 0, _ => none
  | fuel + 1, m =>
    match E.next m with
    | .next m => run fuel m
    | .done r s => some (r, s)

/-- Carry an operation that began at depth `base` to its end, in at most `fuel` steps. -/
def complete {α : Type} (fuel base : Nat) : Operation α × Store → Option (α × Store)
  | (.settled a, s) => some (a, s)
  | (.running e finish, s) => do
    let (r, s) ← E.run fuel ⟨s, E.begin s e, []⟩
    return (finish r, { s with depth := base })

end Engine

namespace Store

variable (fuel : Nat) (s : Store)

/-- Call a function with host numbers. There is no result if it runs for more than `fuel` steps. -/
def call (f : Ref .func) (args : List Number) :
    Option (Except Trap (Option Number) × Store) :=
  Engine.compiled.complete fuel s.depth (Operation.call s f args)

/-- Call a function with values. -/
def callValues (f : Ref .func) (args : List Value) :
    Option (Except Trap (Option Value) × Store) :=
  Engine.compiled.complete fuel s.depth (Operation.callValues s f args)

/-- Make an instance of a module. -/
def instantiate (m : Module) (imports : Imports) :
    Option (Except InstantiationError (Ref .inst) × Store) :=
  Engine.compiled.complete fuel s.depth (Operation.instantiate s m imports)

/-- Decode a binary under the default limits and make an instance without imports. -/
def load (bytes : List UInt8) : Option (Except InstantiationError (Ref .inst) × Store) := do
  instantiate fuel s (← (Module.decode {} bytes).toOption) {}

end Store

end WasmEngine
