import WasmEngine.Code.Draft
import WasmEngine.Instr.Encoding

/-!
# Function bodies in a binary

A function body is a vector of local declarations, each a count and a type, and instructions up to
the `close` that matches the function itself. Bytes after that are ignored. Each instruction is
compiled as soon as it is read, so the first fault in the order of the bytes is the one reported.
-/

namespace WasmEngine.Reader

variable {α : Type}

/-- Apply a compilation step to a draft. -/
def building (d : Draft) (b : Build α) : Reader (α × Draft) :=
  match b.run d with
  | .ok a d' => return (a, d')
  | .error e _ => throw e

/-- Read and compile instructions up to the end of the function. Each takes a byte at least, so no
more are left than there are bytes; `n` is the number of those. -/
def instructions (ctx : Context) : Nat → Draft → Reader (List Stmt × Lanes Nat)
  | 0, _ => endOfInput
  | n + 1, d => do
    let pos ← offset
    let i ← instr
    if i = .close ∧ d.outer.isEmpty then
      let (body, d) ← building d (Build.finish pos)
      return (body, d.maxStack)
    else
      let (_, d) ← building d (Build.step ctx pos i)
      instructions ctx n d

/-- A run of locals of one type. -/
def localDecl : Reader (Nat × ValueType) := do
  let n ← varuint32
  let t ← valueType
  return (n, t)

/-- The instructions of a function of the given type, whose local declarations have been read. -/
def code (config : Config) (m : Module) (type : FuncType) (decls : List (Nat × ValueType)) :
    Reader Code := do
  let start ← offset
  let declared := decls.foldl (fun total (n, _) ↦ total + n) 0
  if declared + type.params.length > config.maxFunctionLocals then
    failAt start (.limitExceeded .functionLocals config.maxFunctionLocals)
  let locals := type.params ++ decls.flatMap fun (n, t) ↦ List.replicate n t
  let ctx : Context :=
    { module := m, maxControlDepth := config.maxControlDepth, type, locals }
  let (body, stackSlots) ← instructions ctx (← get).remaining (Draft.start type start)
  return { type, locals, body, localSlots := Lanes.count locals, stackSlots }

/-- The local declarations of a function of the given type, and its code. -/
def body (config : Config) (m : Module) (type : FuncType) : Reader Code := do
  let decls ← vector localDecl
  code config m type decls

end WasmEngine.Reader
