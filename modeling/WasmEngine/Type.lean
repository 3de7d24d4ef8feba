/-!
# Types

The types a module declares: values, functions, the limits of tables and memories, globals, and
the four kinds of item that cross a module's border. A function type also has a compact written
form, its signature, in which each value type is one letter.
-/

namespace WasmEngine

inductive ValueType where
  | i32
  | i64
  | f32
  | f64
deriving DecidableEq, Inhabited

namespace ValueType

def all : List ValueType := [i32, i64, f32, f64]

def name : ValueType → String
  | i32 => "i32"
  | i64 => "i64"
  | f32 => "f32"
  | f64 => "f64"

/-- The letter that stands for the type in a signature. -/
def letter : ValueType → Char
  | i32 => 'i'
  | i64 => 'l'
  | f32 => 'f'
  | f64 => 'd'

/-- Position of the type among the four operand lanes. -/
def lane : ValueType → Nat
  | i32 => 0
  | i64 => 1
  | f32 => 2
  | f64 => 3

end ValueType

/-- Parameters and results of a function. Decoding admits at most one result. -/
structure FuncType where
  params : List ValueType
  results : List ValueType
deriving DecidableEq, Inhabited

namespace FuncType

def result (t : FuncType) : Option ValueType := t.results.head?

/-- The letters of the parameters, a hyphen, the letters of the results. -/
def signature (t : FuncType) : String :=
  String.ofList (t.params.map ValueType.letter ++ '-' :: t.results.map ValueType.letter)

def mentionsI64 (t : FuncType) : Bool :=
  t.params.contains .i64 || t.results.contains .i64

end FuncType

/-- Size bounds of a table, in elements, or of a memory, in pages. -/
structure Limits where
  min : Nat
  max : Option Nat
deriving DecidableEq, Inhabited

structure GlobalType where
  type : ValueType
  isMutable : Bool
deriving DecidableEq, Inhabited

/-- What an import or an export names. -/
inductive ExternKind where
  | func
  | table
  | memory
  | global
deriving DecidableEq, Inhabited

def ExternKind.name : ExternKind → String
  | func => "function"
  | table => "table"
  | memory => "memory"
  | global => "global"

end WasmEngine
