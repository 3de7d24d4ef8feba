import WasmEngine.Code
import WasmEngine.Text.Hex

/-!
# Listings of code

Compiled code as lines of text, one statement to a line. A statement that holds bodies takes a line
to open, the lines of its bodies, and a line to end.
-/

namespace WasmEngine

def Slot.text : Slot → String
  | .local index => s!"L{index}"
  | .stack lane height => s!"{lane.name}.{height}"

/-- A slot, or the word for none. -/
def slotOrNone : Option Slot → String
  | some s => s.text
  | none => "none"

def Target.text : Target → String
  | .leave label none => s!"break:{label}"
  | .leave label (some (src, dst)) => s!"break:{label}:{src.text}>{dst.text}"
  | .restart label => s!"continue:{label}"
  | .ret value => s!"return:{slotOrNone value}"

/-- A constant with its type: integers in decimal, floats as bit patterns. -/
def Value.text : Value → String
  | .i32 v => s!"i32:{v.toInt}"
  | .i64 v => s!"i64:{v.toInt}"
  | .f32 v => s!"f32:{Text.hexPadded 8 v.toNat}"
  | .f64 v => s!"f64:{Text.hexPadded 16 v.toNat}"

def slotList (slots : List Slot) : String :=
  "(" ++ ",".intercalate (slots.map Slot.text) ++ ")"

mutual

/-- The lines of one statement. -/
def Stmt.lines : Stmt → List String
  | .unreachable => ["unreachable"]
  | .block label body => s!"block {label}" :: bodyLines body ++ ["end"]
  | .loop label body => s!"loop {label}" :: bodyLines body ++ ["end"]
  | .conditional label cond thenBody elseBody =>
    s!"if {label} {cond.text}" :: bodyLines thenBody ++ "else" :: bodyLines elseBody ++ ["end"]
  | .branch target => [s!"br {target.text}"]
  | .branchIf cond target => [s!"br_if {cond.text} {target.text}"]
  | .branchTable index targets default =>
    let list := " ".intercalate (targets.map Target.text)
    [s!"br_table {index.text} [{list}] {default.text}"]
  | .ret value => [s!"return {slotOrNone value}"]
  | .call func args result => [s!"call {func} {slotList args} {slotOrNone result}"]
  | .callIndirect type callee args result =>
    [s!"call_indirect {type} {callee.text} {slotList args} {slotOrNone result}"]
  | .copy dst src => [s!"copy {dst.text} {src.text}"]
  | .const dst value => [s!"const {dst.text} {value.text}"]
  | .globalGet dst global => [s!"get_global {dst.text} {global}"]
  | .globalSet global src => [s!"set_global {global} {src.text}"]
  | .select dst ifFalse cond => [s!"select {dst.text} {ifFalse.text} {cond.text}"]
  | .unary op dst operand => [s!"{op.name} {dst.text} {operand.text}"]
  | .binary op dst lhs rhs => [s!"{op.name} {dst.text} {lhs.text} {rhs.text}"]
  | .load access offset dst addr => [s!"load {access.name} {offset} {dst.text} {addr.text}"]
  | .store access offset addr value =>
    [s!"store {access.name} {offset} {addr.text} {value.text}"]
  | .memorySize dst => [s!"memory_size {dst.text}"]
  | .memoryGrow dst delta => [s!"memory_grow {dst.text} {delta.text}"]

/-- The lines of a body. -/
def bodyLines : List Stmt → List String
  | [] => []
  | s :: ss => s.lines ++ bodyLines ss

end

/-- The statements of a function, line by line. -/
def Code.listing (c : Code) : List String := bodyLines c.body

/-- Equal neighbours gathered into runs, each with its length. -/
def runs : List ValueType → List (Nat × ValueType)
  | [] => []
  | t :: ts =>
    match runs ts with
    | (n, u) :: rest => if t = u then (n + 1, u) :: rest else (1, t) :: (n, u) :: rest
    | [] => [(1, t)]

end WasmEngine
