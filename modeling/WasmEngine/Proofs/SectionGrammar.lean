import WasmEngine.Module.Encoding
import WasmEngine.Proofs.BodyGrammar
import WasmEngine.Proofs.Decoding

/-!
# Grammars of sections

A section is read into the module that earlier sections have made, and adds one component to it.
`Module.Component` is such a component, with what it means that earlier components stay and later
ones are still empty. The entries of a section are spelled by a grammar of their own, and checked
against the module: both together say exactly what the section's reader accepts.
-/

namespace WasmEngine

/-! ## Entries -/

namespace Grammar

inductive importDesc : Grammar ImportDesc
  | func {t : Nat} {bs : List UInt8} (h : unsigned t bs) : importDesc (.func t) (0 :: bs)
  | table {l : Limits} {bs : List UInt8} (h : tableType l bs) : importDesc (.table l) (1 :: bs)
  | memory {l : Limits} {bs : List UInt8} (h : limits l bs) : importDesc (.memory l) (2 :: bs)
  | global {g : GlobalType} {bs : List UInt8} (h : globalType g bs) :
      importDesc (.global g) (3 :: bs)

def importEntry : Grammar Import := fun i bs ↦
  ∃ module item desc, bs = module ++ (item ++ desc) ∧ name i.module module ∧ name i.name item ∧
    importDesc i.desc desc

def globalDecl : Grammar GlobalDecl := fun g bs ↦
  ∃ type init, bs = type ++ init ∧ globalType g.type type ∧ constExpr g.init init

def exportEntry : Grammar Export := fun e bs ↦
  ∃ item index, bs = item ++ (kindByte e.kind :: index) ∧ name e.name item ∧
    unsigned e.index index

/-- The target of a segment is always the one table or memory. -/
def element : Grammar ElementSegment := fun seg bs ↦
  ∃ target offset funcs, bs = target ++ (offset ++ funcs) ∧ unsigned 0 target ∧
    constExpr seg.offset offset ∧ vector unsigned seg.funcs funcs

def data : Grammar DataSegment := fun seg bs ↦
  ∃ target offset bytes, bs = target ++ (offset ++ bytes) ∧ unsigned 0 target ∧
    constExpr seg.offset offset ∧ byteString seg.bytes bytes

end Grammar

/-- An import asks for a type that there is, or for limits that can be met. -/
def ImportDesc.Admissible (types : List FuncType) : ImportDesc → Prop
  | .func t => t < types.length
  | .table l => l.Ordered
  | .memory l => l.Ordered ∧ l.Addressable
  | .global _ => True

namespace Module

open Reader

variable {m : Module}

/-- A look-up reads nothing, and succeeds just if there is a type. -/
theorem requireType_reads (pos index : Nat) :
    Reads (m.requireType pos index) fun type bs ↦ m.types[index]? = some type ∧ bs = [] := by
  unfold requireType
  cases m.types[index]? with
  | some t => exact (Reads.pure t).congr fun type bs ↦ by simp [eq_comm]
  | none => exact (Reads.failAt _ _).congr fun type bs ↦ by simp

theorem requireFunc_reads (pos index : Nat) :
    Reads (m.requireFunc pos index) fun type bs ↦ m.funcType? index = some type ∧ bs = [] := by
  unfold requireFunc
  cases m.funcType? index with
  | some t => exact (Reads.pure t).congr fun type bs ↦ by simp [eq_comm]
  | none => exact (Reads.failAt _ _).congr fun type bs ↦ by simp

/-- There is one table at most, and one memory, with those that are imported. -/
theorem checkSingletons_reads (hm : m.Counted) (pos : Nat) :
    Reads (m.checkSingletons pos) fun _ bs ↦
      (m.tableSpace.length ≤ 1 ∧ m.memorySpace.length ≤ 1) ∧ bs = [] := by
  unfold checkSingletons
  refine .congr (.guard (.ite (.failAt _ _) (.pure ()))) fun u bs ↦ ?_
  simp [hm.spaceSize_table, hm.spaceSize_memory, and_assoc]

/-- An initializer passes just if it has the type and reads imported globals only. -/
theorem checkConstExpr_reads (hm : m.Counted) (pos : Nat) (e : ConstExpr) (t : ValueType) :
    Reads (m.checkConstExpr pos e t) fun _ bs ↦ e.HasType m.importedGlobals t ∧ bs = [] := by
  have htype : Reads (m.constExprType pos e) fun found bs ↦
      e.HasType m.importedGlobals found ∧ bs = [] := by
    cases e with
    | value v => exact (Reads.pure v.type).congr fun found bs ↦ by simp [ConstExpr.HasType, eq_comm]
    | globalGet index =>
      simp only [constExprType, ConstExpr.HasType, hm.importedGlobals_eq_some_iff]
      cases m.globalType? index with
      | some g =>
        exact (Reads.guard (.pure g.type)).congr fun found bs ↦ by simp [eq_comm, and_assoc]
      | none => exact (Reads.guard (.failAt _ _)).congr fun found bs ↦ by simp
  refine .congr (.bind htype fun found ↦ .ite (.failAt _ _) (.pure ())) fun u bs ↦ ?_
  constructor
  · rintro ⟨found, _, _, rfl, ⟨hfound, rfl⟩, ⟨-, hfalse⟩ | ⟨heq, -, rfl⟩⟩
    · exact hfalse.elim
    · exact ⟨not_not.mp heq ▸ hfound, rfl⟩
  · rintro ⟨htype, rfl⟩
    exact ⟨t, [], [], rfl, ⟨htype, rfl⟩, .inr ⟨by simp, rfl, rfl⟩⟩

/-- The description of an import is written as the grammar says, and its type exists. -/
theorem importDesc_reads (start : Nat) : Reads (m.importDesc start) fun desc bs ↦
    desc.Admissible m.types ∧ Grammar.importDesc desc bs := by
  refine .congr (.bind externKind_reads (H := fun kind desc bs ↦ desc.Admissible m.types ∧
    Grammar.importDesc desc (Grammar.kindByte kind :: bs)) fun kind ↦ ?_) fun desc bs ↦ ?_
  · cases kind with
    | func =>
      refine .congr (.bind varuint32_reads fun index ↦
        (requireType_reads start index).map fun _ ↦ ImportDesc.func index) fun desc bs ↦ ?_
      constructor
      · rintro ⟨t, bs, _, rfl, ht, type, rfl, htype, rfl⟩
        exact ⟨(List.getElem?_eq_some_iff.mp htype).1, .func (by simpa using ht)⟩
      · rintro ⟨hadmissible, h⟩
        cases h with
        | func h =>
          exact ⟨_, bs, [], by simp, h, _, rfl, List.getElem?_eq_getElem hadmissible, rfl⟩
    | table =>
      refine (tableType_reads.map ImportDesc.table).congr fun desc bs ↦ ?_
      constructor
      · rintro ⟨l, rfl, horder, hl⟩
        exact ⟨horder, .table hl⟩
      · rintro ⟨hadmissible, h⟩
        cases h with
        | table h => exact ⟨_, rfl, hadmissible, h⟩
    | memory =>
      refine (memoryType_reads.map ImportDesc.memory).congr fun desc bs ↦ ?_
      constructor
      · rintro ⟨l, rfl, hadmissible, hl⟩
        exact ⟨hadmissible, .memory hl⟩
      · rintro ⟨hadmissible, h⟩
        cases h with
        | memory h => exact ⟨_, rfl, hadmissible, h⟩
    | global =>
      refine (globalType_reads.map ImportDesc.global).congr fun desc bs ↦ ?_
      constructor
      · rintro ⟨g, rfl, hg⟩
        exact ⟨trivial, .global hg⟩
      · rintro ⟨-, h⟩
        cases h with
        | global h => exact ⟨_, rfl, h⟩
  · constructor
    · rintro ⟨kind, _, bs, rfl, rfl, h⟩
      exact h
    · rintro ⟨hadmissible, h⟩
      cases h with
      | func h => exact ⟨.func, _, _, rfl, rfl, hadmissible, .func h⟩
      | table h => exact ⟨.table, _, _, rfl, rfl, hadmissible, .table h⟩
      | memory h => exact ⟨.memory, _, _, rfl, rfl, hadmissible, .memory h⟩
      | global h => exact ⟨.global, _, _, rfl, rfl, hadmissible, .global h⟩

/-! ## Components -/

/-- The module as far as sections with numbers up to `n` make it, with its imports counted. -/
def upTo (n : Nat) (m : Module) : Module where
  types := if 1 ≤ n then m.types else []
  imports := if 2 ≤ n then m.imports else []
  imported := .ofImports (if 2 ≤ n then m.imports else [])
  funcs := if 3 ≤ n then m.funcs else []
  tables := if 4 ≤ n then m.tables else []
  memories := if 5 ≤ n then m.memories else []
  globals := if 6 ≤ n then m.globals else []
  exports := if 7 ≤ n then m.exports else []
  start := if 8 ≤ n then m.start else none
  elements := if 9 ≤ n then m.elements else []
  code := if 10 ≤ n then m.code else []
  data := if 11 ≤ n then m.data else []

/-- What belongs to later sections can be left out once. -/
theorem upTo_upTo (a b : Nat) : (m.upTo a).upTo b = m.upTo (min a b) := by
  simp only [upTo, ← ite_and, Nat.le_min, and_comm]

/-- A module without later sections has its imports counted anew, so that the counts are right. -/
theorem Counted.of_upTo {n : Nat} (hm : m.upTo n = m) : m.Counted := by
  rw [← hm]
  rfl

theorem upTo_upTo_of_le {a b : Nat} (h : b ≤ a) : (m.upTo a).upTo b = m.upTo b := by
  rw [upTo_upTo, Nat.min_eq_right h]

/-- A module that lacks later sections lacks those behind them. -/
theorem upTo_of_le {a b : Nat} (hm : m.upTo a = m) (h : a ≤ b) : m.upTo b = m := by
  rw [← hm, upTo_upTo, Nat.min_eq_left h]

/-- What the section with number `n + 1` adds to a module. -/
structure Component (n : Nat) (α : Type) where
  get : Module → α
  set : Module → α → Module
  empty : α
  get_set : ∀ m a, get (set m a) = a
  set_set : ∀ m a b, set (set m a) b = set m b
  upTo_set : ∀ (m : Module) (a : α), (set m a).upTo n = m.upTo n
  set_upTo : ∀ m : Module, set (m.upTo n) (get m) = m.upTo (n + 1)
  get_upTo : ∀ m : Module, get (m.upTo n) = empty

/-- One module is the other with what the section with number `n + 1` adds. -/
def Extends (n : Nat) (m₀ m : Module) : Prop := m.upTo n = m₀ ∧ m.upTo (n + 1) = m

namespace Component

variable {n : Nat} {α : Type} (C : Component n α) {m₀ m : Module}

/-- A component that is set to what it is leaves the module as it is. -/
theorem set_get (hm : m.upTo (n + 1) = m) : C.set m (C.get m) = m := by
  have h := C.set_upTo m
  rw [hm] at h
  calc C.set m (C.get m) = C.set (C.set (m.upTo n) (C.get m)) (C.get m) := by rw [h]
    _ = m := by rw [C.set_set, h]

/-- To extend a module by a section is to choose the component of that section. -/
theorem exists_set {P : α → Prop} (hm₀ : m₀.upTo n = m₀) :
    (∃ a, m = C.set m₀ a ∧ P a) ↔ Extends n m₀ m ∧ P (C.get m) := by
  constructor
  · rintro ⟨a, rfl, ha⟩
    have hearlier : (C.set m₀ a).upTo n = m₀ := by rw [C.upTo_set, hm₀]
    refine ⟨⟨hearlier, ?_⟩, by rwa [C.get_set]⟩
    rw [← C.set_upTo, hearlier, C.get_set]
  · rintro ⟨⟨hearlier, hlater⟩, ha⟩
    refine ⟨C.get m, ?_, ha⟩
    rw [← hearlier, C.set_upTo, hlater]

/-- The section adds nothing just if its component is empty. -/
theorem upTo_succ_eq_iff : m.upTo (n + 1) = m.upTo n ↔ C.get m = C.empty := by
  constructor
  · intro h
    rw [← C.get_upTo m, ← h, ← C.set_upTo, C.get_set]
  · intro h
    rw [← C.set_upTo, h, ← C.get_upTo m]
    exact C.set_get (by rw [upTo_upTo, Nat.min_eq_left (Nat.le_succ n)])

def types : Component 0 (List FuncType) :=
  ⟨Module.types, fun m ts ↦ { m with types := ts }, [], fun _ _ ↦ rfl, fun _ _ _ ↦ rfl,
    fun _ _ ↦ rfl, fun _ ↦ rfl, fun _ ↦ rfl⟩

def imports : Component 1 (List Import) :=
  ⟨Module.imports, fun m is ↦ { m with imports := is, imported := .ofImports is }, [],
    fun _ _ ↦ rfl, fun _ _ _ ↦ rfl, fun _ _ ↦ rfl, fun _ ↦ rfl, fun _ ↦ rfl⟩

def funcs : Component 2 (List Nat) :=
  ⟨Module.funcs, fun m ts ↦ { m with funcs := ts }, [], fun _ _ ↦ rfl, fun _ _ _ ↦ rfl,
    fun _ _ ↦ rfl, fun _ ↦ rfl, fun _ ↦ rfl⟩

def tables : Component 3 (List Limits) :=
  ⟨Module.tables, fun m ls ↦ { m with tables := ls }, [], fun _ _ ↦ rfl, fun _ _ _ ↦ rfl,
    fun _ _ ↦ rfl, fun _ ↦ rfl, fun _ ↦ rfl⟩

def memories : Component 4 (List Limits) :=
  ⟨Module.memories, fun m ls ↦ { m with memories := ls }, [], fun _ _ ↦ rfl, fun _ _ _ ↦ rfl,
    fun _ _ ↦ rfl, fun _ ↦ rfl, fun _ ↦ rfl⟩

def globals : Component 5 (List GlobalDecl) :=
  ⟨Module.globals, fun m gs ↦ { m with globals := gs }, [], fun _ _ ↦ rfl, fun _ _ _ ↦ rfl,
    fun _ _ ↦ rfl, fun _ ↦ rfl, fun _ ↦ rfl⟩

def exports : Component 6 (List Export) :=
  ⟨Module.exports, fun m es ↦ { m with exports := es }, [], fun _ _ ↦ rfl, fun _ _ _ ↦ rfl,
    fun _ _ ↦ rfl, fun _ ↦ rfl, fun _ ↦ rfl⟩

def start : Component 7 (Option Nat) :=
  ⟨Module.start, fun m index ↦ { m with start := index }, none, fun _ _ ↦ rfl, fun _ _ _ ↦ rfl,
    fun _ _ ↦ rfl, fun _ ↦ rfl, fun _ ↦ rfl⟩

def elements : Component 8 (List ElementSegment) :=
  ⟨Module.elements, fun m segs ↦ { m with elements := segs }, [], fun _ _ ↦ rfl,
    fun _ _ _ ↦ rfl, fun _ _ ↦ rfl, fun _ ↦ rfl, fun _ ↦ rfl⟩

def code : Component 9 (List Code) :=
  ⟨Module.code, fun m codes ↦ { m with code := codes }, [], fun _ _ ↦ rfl, fun _ _ _ ↦ rfl,
    fun _ _ ↦ rfl, fun _ ↦ rfl, fun _ ↦ rfl⟩

def data : Component 10 (List DataSegment) :=
  ⟨Module.data, fun m segs ↦ { m with data := segs }, [], fun _ _ ↦ rfl, fun _ _ _ ↦ rfl,
    fun _ _ ↦ rfl, fun _ ↦ rfl, fun _ ↦ rfl⟩

end Component

/-! ## Sequences of entries -/

section Entries

variable {n : Nat} {α : Type} {G : Grammar α} {I : Module → Prop} {entry : Module → Reader Module}

/-- Entries that each add one item, and keep `I` just if the item passes its check, add a list of
items that `I` holds for. -/
theorem entries_reads (C : Component n (List α))
    (hentry : ∀ m, m.upTo (n + 1) = m → I m → Reads (entry m) fun m' bs ↦
      ∃ a, m' = C.set m (C.get m ++ [a]) ∧ I m' ∧ G a bs)
    (hI : ∀ m as bs, I (C.set m (as ++ bs)) → I (C.set m as)) (count : Nat) {m : Module}
    (hm : m.upTo (n + 1) = m) (hpass : I m) :
    Reads (entries entry count m) fun m' bs ↦
      ∃ as, m' = C.set m (C.get m ++ as) ∧ I m' ∧ as.length = count ∧
        Grammar.items G as bs := by
  induction count generalizing m with
  | zero =>
    refine (Reads.pure m).congr fun m' bs ↦ ?_
    constructor
    · rintro ⟨rfl, rfl⟩
      exact ⟨[], by rw [List.append_nil, C.set_get hm], hpass, rfl, .nil⟩
    · rintro ⟨as, rfl, -, hlength, has⟩
      cases has with
      | nil => exact ⟨by rw [List.append_nil, C.set_get hm], rfl⟩
      | cons => cases hlength
  | succ count ih =>
    have hset (a : α) : (C.set m (C.get m ++ [a])).upTo (n + 1) = C.set m (C.get m ++ [a]) := by
      rw [← C.set_upTo, C.get_set, C.upTo_set]
      calc C.set (m.upTo n) (C.get m ++ [a])
          = C.set (C.set (m.upTo n) (C.get m)) (C.get m ++ [a]) := (C.set_set _ _ _).symm
        _ = C.set m (C.get m ++ [a]) := by rw [C.set_upTo, hm]
    refine ((hentry m hm hpass).bind_of fun m' _ h ↦ ?_).congr
      (G := Grammar.bind _ fun m' m'' bs ↦ ∃ as, m'' = C.set m' (C.get m' ++ as) ∧ I m'' ∧
        as.length = count ∧ Grammar.items G as bs) fun m' bs ↦ ?_
    · obtain ⟨a, rfl, hpass', -⟩ := h
      exact ih (hset a) hpass'
    · constructor
      · rintro ⟨_, bs, bs', rfl, ⟨a, rfl, -, ha⟩, as, rfl, hpass', hlength, has⟩
        refine ⟨a :: as, ?_, hpass', by simp [hlength], .cons ha has⟩
        rw [C.set_set, C.get_set, List.append_assoc]
        rfl
      · rintro ⟨as, rfl, hpass', hlength, has⟩
        cases has with
        | nil => cases hlength
        | @cons a as bs bs' ha has =>
          have hsplit : C.get m ++ a :: as = (C.get m ++ [a]) ++ as := by simp
          rw [hsplit] at hpass' ⊢
          refine ⟨_, bs, bs', rfl, ⟨a, rfl, hI _ _ _ hpass', ha⟩, as, ?_, hpass', ?_, has⟩
          · rw [C.set_set, C.get_set]
          · simpa using hlength

/-- A section of entries, each of which is appended to one component: the entries are what the
grammar says, and the component after them passes the checks of the section. It is by induction on
the entries, with the checks as an invariant. -/
theorem counted_reads (C : Component n (List α)) (hempty : C.empty = [])
    (hentry : ∀ m, m.upTo (n + 1) = m → I m → Reads (entry m) fun m' bs ↦
      ∃ a, m' = C.set m (C.get m ++ [a]) ∧ I m' ∧ G a bs)
    (hI : ∀ m as bs, I (C.set m (as ++ bs)) → I (C.set m as)) {m₀ : Module}
    (hm₀ : m₀.upTo n = m₀) (hpass : I m₀) :
    Reads (counted entry m₀) fun m bs ↦
      Extends n m₀ m ∧ I m ∧ Grammar.vector G (C.get m) bs := by
  have hnil : C.get m₀ = [] := by rw [← hm₀, C.get_upTo, hempty]
  have hentries (count : Nat) :=
    entries_reads C hentry hI count (upTo_of_le hm₀ (Nat.le_succ n)) hpass
  refine (varuint32_reads.bind hentries).congr fun m bs ↦ ?_
  rw [← C.exists_set (P := fun as ↦ I m ∧ Grammar.vector G as bs) hm₀, hnil]
  constructor
  · rintro ⟨_, count, rest, rfl, hcount, as, rfl, hpass', rfl, has⟩
    exact ⟨as, rfl, hpass', count, rest, rfl, hcount, has⟩
  · rintro ⟨as, rfl, hpass', count, rest, rfl, hcount, has⟩
    exact ⟨_, count, rest, rfl, hcount, as, rfl, hpass', rfl, has⟩

end Entries

end Module

/-! ## Items and their checks -/

namespace Grammar

variable {α : Type} {G : Grammar α} {P : α → Prop} {as : List α} {bs : List UInt8}

/-- A condition on all items, beside how they are written. -/
theorem items_and :
    items (fun a bs ↦ P a ∧ G a bs) as bs ↔ (∀ a ∈ as, P a) ∧ items G as bs := by
  constructor
  · intro h
    induction h with
    | nil => exact ⟨by simp, .nil⟩
    | cons ha _ ih => exact ⟨List.forall_mem_cons.mpr ⟨ha.1, ih.1⟩, .cons ha.2 ih.2⟩
  · rintro ⟨hP, h⟩
    induction h with
    | nil => exact .nil
    | cons ha _ ih =>
      obtain ⟨hPa, hP⟩ := List.forall_mem_cons.mp hP
      exact .cons ⟨hPa, ha⟩ (ih hP)

theorem vector_and :
    vector (fun a bs ↦ P a ∧ G a bs) as bs ↔ (∀ a ∈ as, P a) ∧ vector G as bs := by
  simp only [vector, items_and]
  constructor
  · rintro ⟨count, rest, rfl, hcount, hP, has⟩
    exact ⟨hP, count, rest, rfl, hcount, has⟩
  · rintro ⟨hP, count, rest, rfl, hcount, has⟩
    exact ⟨count, rest, rfl, hcount, hP, has⟩

theorem items_forall (hP : ∀ a bs, G a bs → P a) (h : items G as bs) : ∀ a ∈ as, P a := by
  induction h with
  | nil => simp
  | cons ha _ ih => exact List.forall_mem_cons.mpr ⟨hP _ _ ha, ih⟩

end Grammar

namespace Reader

variable {α : Type}

/-- A check of all items reads nothing. -/
theorem Reads.forM {f : α → Reader Unit} {P : α → Prop} {l : List α}
    (hf : ∀ a, Reads (f a) fun _ bs ↦ P a ∧ bs = []) :
    Reads (l.forM f) fun _ bs ↦ (∀ a ∈ l, P a) ∧ bs = [] := by
  induction l with
  | nil => exact (Reads.pure ()).congr fun u bs ↦ by simp
  | cons a l ih =>
    refine ((hf a).bind fun _ ↦ ih).congr fun u bs ↦ ?_
    constructor
    · rintro ⟨_, _, _, rfl, ⟨ha, rfl⟩, hl, rfl⟩
      exact ⟨List.forall_mem_cons.mpr ⟨ha, hl⟩, rfl⟩
    · rintro ⟨h, rfl⟩
      obtain ⟨ha, hl⟩ := List.forall_mem_cons.mp h
      exact ⟨(), [], [], rfl, ⟨ha, rfl⟩, hl, rfl⟩

/-- An index together with the offset where it stands. -/
def placedIndex : Reader (Nat × Nat) := do
  let pos ← offset
  let index ← varuint32
  return (pos, index)

/-- Where indices stand is not part of what they spell. -/
theorem repeated_placedIndex {n : Nat} {c c' : Cursor} {indices : List Nat} :
    (repeated varuint32 n).run c = .ok indices c' ↔
      ∃ placed, (repeated placedIndex n).run c = .ok placed c' ∧ placed.map (·.2) = indices := by
  have hplaced {c c' : Cursor} {p : Nat × Nat} : placedIndex.run c = .ok p c' ↔
      p.1 = c.offset ∧ varuint32.run c = .ok p.2 c' := by
    simp only [placedIndex, run_bind_eq_ok, run_offset_eq_ok, run_pure_eq_ok]
    constructor
    · rintro ⟨_, _, ⟨rfl, rfl⟩, _, _, h, rfl, rfl⟩
      exact ⟨rfl, h⟩
    · rintro ⟨hpos, h⟩
      exact ⟨_, _, ⟨rfl, rfl⟩, _, _, h, by rw [← hpos], rfl⟩
  induction n generalizing c indices with
  | zero =>
    simp only [repeated, run_pure_eq_ok]
    constructor
    · rintro ⟨rfl, rfl⟩
      exact ⟨[], ⟨rfl, rfl⟩, rfl⟩
    · rintro ⟨_, ⟨rfl, rfl⟩, rfl⟩
      exact ⟨rfl, rfl⟩
  | succ n ih =>
    simp only [repeated, run_bind_eq_ok, run_pure_eq_ok]
    constructor
    · rintro ⟨index, c₁, hindex, indices, c₂, hindices, rfl, rfl⟩
      obtain ⟨placed, hplaced', rfl⟩ := ih.mp hindices
      exact ⟨_, ⟨(c.offset, index), c₁, hplaced.mpr ⟨rfl, hindex⟩, placed, c₂, hplaced', rfl, rfl⟩,
        rfl⟩
    · rintro ⟨_, ⟨p, c₁, hp, placed, c₂, hplaced', rfl, rfl⟩, rfl⟩
      exact ⟨p.2, c₁, (hplaced.mp hp).2, _, c₂, ih.mpr ⟨placed, hplaced', rfl⟩, rfl, rfl⟩

/-- In a frame of its own, what a reader leaves over is passed over. -/
theorem framed_reads {r : Reader α} {G : Grammar α} (hr : Reads r G) (n : Nat) :
    Reads (do within (← sub n) r) fun a bs ↦
      bs.length = n ∧ ∃ enc pad, bs = enc ++ pad ∧ G a enc := by
  have hframe (pos : Nat) (bs : List UInt8) (a : α) :
      (∃ c, r.run ⟨pos, bs⟩ = .ok a c) ↔ ∃ enc pad, bs = enc ++ pad ∧ G a enc := by
    simp only [hr _ _ _]
    constructor
    · rintro ⟨c, enc, henc, hspans⟩
      exact ⟨enc, c.rest, hspans.1, henc⟩
    · rintro ⟨enc, pad, rfl, henc⟩
      exact ⟨⟨pos + enc.length, pad⟩, enc, henc, rfl, rfl⟩
  intro c a c'
  simp only [sub, bind_assoc, run_bind_eq_ok, run_get_eq_ok, run_pure_eq_ok, run_within_eq_ok,
    Reads.bytes n _ _ _]
  constructor
  · rintro ⟨_, _, ⟨rfl, rfl⟩, _, c₁, ⟨bs, ⟨rfl, hlength⟩, hspans⟩, _, _, ⟨rfl, rfl⟩, rfl, hrun⟩
    subst hlength
    have htake : c.rest.take bs.length = bs := by rw [hspans.1, List.take_left]
    rw [Cursor.bounded, htake, hframe] at hrun
    exact ⟨bs, ⟨rfl, hrun⟩, hspans⟩
  · rintro ⟨bs, ⟨rfl, henc⟩, hspans⟩
    have htake : c.rest.take bs.length = bs := by rw [hspans.1, List.take_left]
    refine ⟨c, c, ⟨rfl, rfl⟩, bs, c', ⟨bs, ⟨rfl, rfl⟩, hspans⟩, _, _, ⟨rfl, rfl⟩, rfl, ?_⟩
    rw [Cursor.bounded, htake]
    exact (hframe _ _ _).mpr henc

end Reader

/-! ## Sections -/

/-- A function body: its size, its local declarations, its instructions and padding. The
instructions compile to the code. -/
def Grammar.body (config : Config) (m : Module) : Grammar Code := fun code bs ↦
  ∃ size locals instrs pad decls is, bs = size ++ (locals ++ (instrs ++ pad)) ∧
    unsigned (locals ++ (instrs ++ pad)).length size ∧ vector localDecl decls locals ∧
    items instr is instrs ∧ code.Compiled config m code.type decls is

namespace Module

open Reader

/-- How a binary spells what the section adds to the module. -/
def Payload (config : Config) (m : Module) : SectionId → List UInt8 → Prop
  | .custom => fun _ ↦ True
  | .type => Grammar.vector Grammar.funcType m.types
  | .imports => Grammar.vector Grammar.importEntry m.imports
  | .function => Grammar.vector Grammar.unsigned m.funcs
  | .table => Grammar.vector Grammar.tableType m.tables
  | .memory => Grammar.vector Grammar.limits m.memories
  | .global => Grammar.vector Grammar.globalDecl m.globals
  | .exports => Grammar.vector Grammar.exportEntry m.exports
  | .start => fun bs ↦ ∃ index, m.start = some index ∧ Grammar.unsigned index bs
  | .element => Grammar.vector Grammar.element m.elements
  | .code => Grammar.vector (Grammar.body config m.declarations) m.code
  | .data => Grammar.vector Grammar.data m.data

/-- What holds of what the section adds, given what earlier sections have added. -/
def Passes (config : Config) (m : Module) : SectionId → Prop
  | .custom => True
  | .type => ∀ type ∈ m.types, type.results.length ≤ 1
  | .imports => (∀ i ∈ m.imports, i.desc.Admissible m.types) ∧ m.importedTables.length ≤ 1 ∧
      m.importedMemories.length ≤ 1
  | .function => ∀ t ∈ m.funcs, t < m.types.length
  | .table => (∀ l ∈ m.tables, l.Ordered) ∧ m.tableSpace.length ≤ 1 ∧
      m.importedMemories.length ≤ 1
  | .memory => (∀ l ∈ m.memories, l.Ordered ∧ l.Addressable) ∧ m.tableSpace.length ≤ 1 ∧
      m.memorySpace.length ≤ 1
  | .global => ∀ g ∈ m.globals, g.init.HasType m.importedGlobals g.type.type
  | .exports => (m.exports.map (·.name)).Nodup ∧ ∀ e ∈ m.exports, e.index < m.spaceSize e.kind
  | .start => ∀ index ∈ m.start, m.funcType? index = some ⟨[], []⟩
  | .element => ∀ seg ∈ m.elements, m.tableSpace ≠ [] ∧
      seg.offset.HasType m.importedGlobals .i32 ∧
      ∀ f ∈ seg.funcs, ∃ type, m.funcType? f = some type
  | .code => List.Forall₂ (fun t code ↦ m.types[t]? = some code.type) m.funcs m.code ∧
      ∀ code ∈ m.code, code.locals.length ≤ config.maxFunctionLocals
  | .data => ∀ seg ∈ m.data, m.memorySpace ≠ [] ∧ seg.offset.HasType m.importedGlobals .i32

variable {config : Config} {m m₀ : Module}

/-- The types are a vector. -/
theorem typeSection_reads (hm₀ : m₀.upTo 0 = m₀) : Reads m₀.typeSection fun m bs ↦
    Extends 0 m₀ m ∧ m.Passes config .type ∧ m.Payload config .type bs := by
  refine ((vector_reads funcType_reads).map fun ts ↦ Component.types.set m₀ ts).congr fun m bs ↦ ?_
  have hresults (ts : List FuncType) (h : Grammar.vector Grammar.funcType ts bs) :
      ∀ type ∈ ts, type.results.length ≤ 1 := by
    obtain ⟨count, rest, -, -, hitems⟩ := h
    refine Grammar.items_forall (fun type bs htype ↦ ?_) hitems
    cases htype <;> simp
  rw [Component.types.exists_set hm₀]
  exact ⟨fun ⟨hext, h⟩ ↦ ⟨hext, hresults _ h, h⟩, fun ⟨hext, _, h⟩ ↦ ⟨hext, h⟩⟩

/-- Among counted imports, adding one is adding to the list alone. -/
theorem Counted.pushImport_eq (hm : m.Counted) (i : Import) :
    m.pushImport i = Component.imports.set m (m.imports ++ [i]) := by
  rw [Module.pushImport, hm, ← Imported.ofImports_push]
  rfl

theorem importEntry_reads (hm : m.upTo 2 = m) (hpass : m.Passes config .imports) :
    Reads m.importEntry fun m' bs ↦
      ∃ i, m' = Component.imports.set m (m.imports ++ [i]) ∧ m'.Passes config .imports ∧
        Grammar.importEntry i bs := by
  have hcounted := Counted.of_upTo hm
  have htables : m.tables = [] := by rw [← hm]; rfl
  have hmemories : m.memories = [] := by rw [← hm]; rfl
  refine .located fun start ↦ .congr (.bind name_reads fun module ↦ .bind name_reads fun item ↦
    .bind (importDesc_reads start) fun desc ↦
      (checkSingletons_reads (hcounted.pushImport _) start).map fun _ ↦
        m.pushImport (Import.mk module item desc)) fun m' bs ↦ ?_
  simp only [hcounted.pushImport_eq, Component.imports, Passes, tableSpace, memorySpace, htables,
    hmemories, List.append_nil]
  constructor
  · rintro ⟨module, b₁, _, rfl, hmodule, item, b₂, _, rfl, hitem, desc, b₃, _, rfl,
      ⟨hadmissible, hdesc⟩, _, rfl, hsingle, rfl⟩
    refine ⟨⟨module, item, desc⟩, rfl, ⟨?_, hsingle⟩, b₁, b₂, b₃, by simp, hmodule, hitem, hdesc⟩
    exact List.forall_mem_append.mpr ⟨hpass.1, by simpa using hadmissible⟩
  · rintro ⟨⟨module, item, desc⟩, rfl, ⟨hall, hsingle⟩, b₁, b₂, b₃, rfl, hmodule, hitem, hdesc⟩
    have hadmissible := (List.forall_mem_append.mp hall).2
    exact ⟨module, b₁, _, rfl, hmodule, item, b₂, _, rfl, hitem, desc, b₃, [], by simp,
      ⟨by simpa using hadmissible, hdesc⟩, (), rfl, hsingle, rfl⟩

/-- Imports are checked one by one, each against the types and those before it. -/
theorem importSection_reads (hm₀ : m₀.upTo 1 = m₀) : Reads m₀.importSection fun m bs ↦
    Extends 1 m₀ m ∧ m.Passes config .imports ∧ m.Payload config .imports bs := by
  have hempty : m₀.imports = [] := by rw [← hm₀]; rfl
  refine counted_reads Component.imports rfl (fun m hm hpass ↦ importEntry_reads hm hpass) ?_ hm₀
    (by simp [Passes, importedTables, importedMemories, hempty])
  rintro m as bs ⟨hall, htables, hmemories⟩
  simp only [importedTables, importedMemories, Component.imports, List.filterMap_append,
    List.length_append] at htables hmemories
  exact ⟨(List.forall_mem_append.mp hall).1, Nat.le_of_add_right_le htables,
    Nat.le_of_add_right_le hmemories⟩

/-- Indices are written as a vector, and each leads to a type. -/
theorem functionSection_reads (hm₀ : m₀.upTo 2 = m₀) : Reads m₀.functionSection fun m bs ↦
    Extends 2 m₀ m ∧ m.Passes config .function ∧ m.Payload config .function bs := by
  have hcheck (placed : List (Nat × Nat)) : Reads (placed.forM fun p ↦ do
      let _ ← m₀.requireType p.1 p.2) fun _ bs ↦
      (∀ p ∈ placed, p.2 < m₀.types.length) ∧ bs = [] := by
    refine .forM fun p ↦ .congr ((requireType_reads p.1 p.2).map fun _ ↦ ()) fun u bs ↦ ?_
    simp [List.getElem?_eq_some_iff]
  intro c m c'
  constructor
  · intro h
    obtain ⟨placed, c₁, hplaced, h⟩ := run_bind_eq_ok.mp h
    obtain ⟨_, c₂, hchecked, h⟩ := run_bind_eq_ok.mp h
    obtain ⟨rfl, rfl⟩ := run_pure_eq_ok.mp h
    obtain ⟨_, ⟨hall, rfl⟩, hspans⟩ := (hcheck placed _ _ _).mp hchecked
    obtain rfl := Cursor.spans_nil.mp hspans
    obtain ⟨n, c₂, hn, hplaced⟩ := run_bind_eq_ok.mp hplaced
    have hindices := run_bind_eq_ok.mpr
      ⟨n, c₂, hn, repeated_placedIndex.mpr ⟨placed, hplaced, rfl⟩⟩
    obtain ⟨bs, hbs, hspans⟩ := (vector_reads varuint32_reads _ _ _).mp hindices
    refine ⟨bs, (Component.funcs.exists_set (P := fun ts ↦ (∀ t ∈ ts, t < m₀.types.length) ∧
      Grammar.vector Grammar.unsigned ts bs) hm₀).mp ⟨_, rfl, ?_, hbs⟩, hspans⟩
    intro t ht
    obtain ⟨p, hp, rfl⟩ := List.mem_map.mp ht
    exact hall p hp
  · rintro ⟨bs, h, hspans⟩
    obtain ⟨ts, rfl, hall, hbs⟩ := (Component.funcs.exists_set (P := fun ts ↦
      (∀ t ∈ ts, t < m₀.types.length) ∧ Grammar.vector Grammar.unsigned ts bs) hm₀).mpr
        ⟨h.1, h.1.1 ▸ h.2.1, h.2.2⟩
    obtain ⟨n, c₁, hn, hts⟩ := run_bind_eq_ok.mp
      ((vector_reads varuint32_reads _ _ _).mpr ⟨bs, hbs, hspans⟩)
    obtain ⟨placed, hplaced, rfl⟩ := repeated_placedIndex.mp hts
    have hchecked := (hcheck placed c' () c').mpr ⟨[],
      ⟨fun p hp ↦ hall _ (List.mem_map_of_mem hp), rfl⟩, Cursor.spans_nil.mpr rfl⟩
    exact run_bind_eq_ok.mpr ⟨placed, c', run_bind_eq_ok.mpr ⟨n, c₁, hn, hplaced⟩,
      run_bind_eq_ok.mpr ⟨(), c', hchecked, rfl⟩⟩

theorem tableSection_reads (hm₀ : m₀.upTo 3 = m₀) : Reads m₀.tableSection fun m bs ↦
    Extends 3 m₀ m ∧ m.Passes config .table ∧ m.Payload config .table bs := by
  have hcounted (ls : List Limits) : (Component.tables.set m₀ ls).Counted :=
    (Counted.of_upTo hm₀ : m₀.Counted)
  have hmemories (ls : List Limits) :
      (Component.tables.set m₀ ls).memorySpace = m₀.importedMemories := by
    have hempty : m₀.memories = [] := by rw [← hm₀]; rfl
    simp [Component.tables, memorySpace, hempty, importedMemories]
  refine .located fun start ↦ .congr (.bind (vector_reads tableType_reads) fun ls ↦
    (checkSingletons_reads (hcounted ls) start).map fun _ ↦ Component.tables.set m₀ ls)
      fun m bs ↦ ?_
  refine Iff.trans ?_ (Component.tables.exists_set (P := fun ls ↦ m.Passes config .table ∧
    Grammar.vector Grammar.tableType ls bs) hm₀)
  constructor
  · rintro ⟨ls, bs, _, rfl, hls, _, rfl, ⟨htables, hsingle⟩, rfl⟩
    obtain ⟨horder, hls⟩ := Grammar.vector_and.mp hls
    exact ⟨ls, rfl, ⟨horder, htables, hmemories ls ▸ hsingle⟩, by simpa using hls⟩
  · rintro ⟨ls, rfl, ⟨horder, htables, hsingle⟩, hls⟩
    exact ⟨ls, bs, [], by simp, Grammar.vector_and.mpr ⟨horder, hls⟩, (), rfl,
      ⟨htables, (hmemories ls).symm ▸ hsingle⟩, rfl⟩

theorem memorySection_reads (hm₀ : m₀.upTo 4 = m₀) : Reads m₀.memorySection fun m bs ↦
    Extends 4 m₀ m ∧ m.Passes config .memory ∧ m.Payload config .memory bs := by
  have hcounted (ls : List Limits) : (Component.memories.set m₀ ls).Counted :=
    (Counted.of_upTo hm₀ : m₀.Counted)
  refine .located fun start ↦ .congr (.bind (vector_reads memoryType_reads) fun ls ↦
    (checkSingletons_reads (hcounted ls) start).map fun _ ↦ Component.memories.set m₀ ls)
      fun m bs ↦ ?_
  refine Iff.trans ?_ (Component.memories.exists_set (P := fun ls ↦ m.Passes config .memory ∧
    Grammar.vector Grammar.limits ls bs) hm₀)
  constructor
  · rintro ⟨ls, bs, _, rfl, hls, _, rfl, hsingle, rfl⟩
    obtain ⟨hbounds, hls⟩ := Grammar.vector_and.mp hls
    exact ⟨ls, rfl, ⟨hbounds, hsingle⟩, by simpa using hls⟩
  · rintro ⟨ls, rfl, ⟨hbounds, hsingle⟩, hls⟩
    exact ⟨ls, bs, [], by simp, Grammar.vector_and.mpr ⟨hbounds, hls⟩, (), rfl, hsingle, rfl⟩

/-- A global is its type and an initializer of that type. -/
theorem globalEntry_reads (hm : m.Counted) (hpass : m.Passes config .global) :
    Reads m.globalEntry fun m' bs ↦
      ∃ g, m' = { m with globals := m.globals ++ [g] } ∧ m'.Passes config .global ∧
        Grammar.globalDecl g bs := by
  refine .congr (.bind globalType_reads fun type ↦ .located fun pos ↦
    .bind constExpr_reads fun init ↦ (checkConstExpr_reads hm pos init type.type).map fun _ ↦
      { m with globals := m.globals ++ [GlobalDecl.mk type init] }) fun m' bs ↦ ?_
  constructor
  · rintro ⟨type, b₁, _, rfl, htype, init, b₂, _, rfl, hinit, _, rfl, hchecked, rfl⟩
    refine ⟨⟨type, init⟩, rfl, ?_, b₁, b₂, by simp, htype, hinit⟩
    exact List.forall_mem_append.mpr ⟨hpass, List.forall_mem_singleton.mpr hchecked⟩
  · rintro ⟨⟨type, init⟩, rfl, hall, b₁, b₂, rfl, htype, hinit⟩
    have hchecked := List.forall_mem_singleton.mp (List.forall_mem_append.mp hall).2
    exact ⟨type, b₁, _, rfl, htype, init, b₂, [], by simp, hinit, (), rfl, hchecked, rfl⟩

theorem globalSection_reads (hm₀ : m₀.upTo 5 = m₀) : Reads m₀.globalSection fun m bs ↦
    Extends 5 m₀ m ∧ m.Passes config .global ∧ m.Payload config .global bs := by
  have hempty : m₀.globals = [] := by rw [← hm₀]; rfl
  refine counted_reads Component.globals rfl
    (fun m hm hpass ↦ globalEntry_reads (.of_upTo hm) hpass) ?_ hm₀ (by simp [Passes, hempty])
  exact fun m as bs hall ↦ (List.forall_mem_append.mp hall).1

/-- An export has a name that none before it has, and an index that exists. -/
theorem exportEntry_reads (hpass : m.Passes config .exports) :
    Reads m.exportEntry fun m' bs ↦
      ∃ e, m' = { m with exports := m.exports ++ [e] } ∧ m'.Passes config .exports ∧
        Grammar.exportEntry e bs := by
  have hfresh (e : Export) : ¬m.exports.any (·.name = e.name) = true ↔
      ((m.exports ++ [e]).map (·.name)).Nodup := by
    rw [List.map_append, List.nodup_append]
    simp [hpass.1]
  refine .congr (.bind name_reads fun item ↦ .located fun pos ↦
    .bind externKind_reads fun kind ↦ .bind varuint32_reads fun index ↦
      .guard (.guard (.pure _))) fun m' bs ↦ ?_
  constructor
  · rintro ⟨item, b₁, _, rfl, hitem, kind, _, _, rfl, rfl, index, b₂, _, rfl, hindex, hnew, hlt,
      rfl, rfl⟩
    refine ⟨⟨item, kind, index⟩, rfl, ⟨(hfresh _).mp hnew, ?_⟩, b₁, b₂, by simp, hitem, hindex⟩
    exact List.forall_mem_append.mpr
      ⟨hpass.2, List.forall_mem_singleton.mpr (Nat.lt_of_not_le hlt)⟩
  · rintro ⟨⟨item, kind, index⟩, rfl, ⟨hnames, hall⟩, b₁, b₂, rfl, hitem, hindex⟩
    have hlt := List.forall_mem_singleton.mp (List.forall_mem_append.mp hall).2
    exact ⟨item, b₁, _, rfl, hitem, kind, _, b₂, rfl, rfl, index, b₂, [], by simp, hindex,
      (hfresh _).mpr hnames, Nat.not_le_of_lt hlt, rfl, rfl⟩

theorem exportSection_reads (hm₀ : m₀.upTo 6 = m₀) : Reads m₀.exportSection fun m bs ↦
    Extends 6 m₀ m ∧ m.Passes config .exports ∧ m.Payload config .exports bs := by
  have hempty : m₀.exports = [] := by rw [← hm₀]; rfl
  refine counted_reads Component.exports rfl (fun m _ hpass ↦ exportEntry_reads hpass) ?_ hm₀
    (by simp [Passes, hempty])
  rintro m as bs ⟨hnames, hall⟩
  refine ⟨?_, (List.forall_mem_append.mp hall).1⟩
  change ((as ++ bs).map _).Nodup at hnames
  rw [List.map_append] at hnames
  exact hnames.sublist (List.sublist_append_left _ _)

/-- The payload of the start section is one index. -/
theorem startSection_reads (hm₀ : m₀.upTo 7 = m₀) : Reads m₀.startSection fun m bs ↦
    Extends 7 m₀ m ∧ m.Passes config .start ∧ m.Payload config .start bs := by
  refine .located fun pos ↦ .congr (.bind varuint32_reads fun index ↦
    .bind (requireFunc_reads pos index) fun type ↦ .guard (.pure _)) fun m bs ↦ ?_
  refine Iff.trans ?_ (Component.start.exists_set (P := fun start ↦ m.Passes config .start ∧
    ∃ index, start = some index ∧ Grammar.unsigned index bs) hm₀)
  constructor
  · rintro ⟨index, bs, _, rfl, hindex, type, _, _, rfl, ⟨htype, rfl⟩, hempty, rfl, rfl⟩
    obtain rfl := not_not.mp hempty
    refine ⟨some index, rfl, ?_, index, rfl, by simpa using hindex⟩
    rintro _ ⟨⟩
    exact htype
  · rintro ⟨_, rfl, hpass, index, rfl, hindex⟩
    exact ⟨index, bs, [], by simp, hindex, _, [], [], rfl, ⟨hpass index rfl, rfl⟩, by simp, rfl,
      rfl⟩

/-- The target of a segment is written as zero, in one of its forms. -/
theorem segmentTarget_reads (place : ReservedIndex) (space : IndexSpace) (available : Nat) :
    Reads (segmentTarget place space available) fun _ bs ↦
      available ≠ 0 ∧ Grammar.unsigned 0 bs := by
  refine .located fun pos ↦ .congr (.bind varuint32_reads fun index ↦
    .guard (.ite (.failAt _ _) (.pure ()))) fun u bs ↦ ?_
  constructor
  · rintro ⟨index, bs, _, rfl, hindex, hzero, ⟨-, hfalse⟩ | ⟨havailable, -, rfl⟩⟩
    · exact hfalse.elim
    · obtain rfl := not_not.mp hzero
      exact ⟨havailable, by simpa using hindex⟩
  · rintro ⟨havailable, hindex⟩
    exact ⟨0, bs, [], by simp, hindex, by simp, .inr ⟨havailable, rfl, rfl⟩⟩

theorem segmentOffset_reads (hm : m.Counted) : Reads m.segmentOffset fun e bs ↦
    e.HasType m.importedGlobals .i32 ∧ Grammar.constExpr e bs := by
  refine .located fun pos ↦ .congr (.bind constExpr_reads fun e ↦
    (checkConstExpr_reads hm pos e .i32).map fun _ ↦ e) fun e bs ↦ ?_
  constructor
  · rintro ⟨e, bs, _, rfl, he, _, rfl, htype, rfl⟩
    exact ⟨htype, by simpa using he⟩
  · rintro ⟨htype, he⟩
    exact ⟨e, bs, [], by simp, he, (), rfl, htype, rfl⟩

/-- An element segment is a target, an offset and a vector of functions. -/
theorem elementEntry_reads (hm : m.Counted) (hpass : m.Passes config .element) :
    Reads m.elementEntry fun m' bs ↦
      ∃ seg, m' = { m with elements := m.elements ++ [seg] } ∧ m'.Passes config .element ∧
        Grammar.element seg bs := by
  have hfunc : Reads (do
      let pos ← offset
      let index ← varuint32
      let _ ← m.requireFunc pos index
      return index) fun index bs ↦
      (∃ type, m.funcType? index = some type) ∧ Grammar.unsigned index bs := by
    refine .located fun pos ↦ .congr (.bind varuint32_reads fun index ↦
      (requireFunc_reads pos index).map fun _ ↦ index) fun index bs ↦ ?_
    constructor
    · rintro ⟨index, bs, _, rfl, hindex, type, rfl, htype, rfl⟩
      exact ⟨⟨type, htype⟩, by simpa using hindex⟩
    · rintro ⟨⟨type, htype⟩, hindex⟩
      exact ⟨index, bs, [], by simp, hindex, type, rfl, htype, rfl⟩
  refine .congr (.bind (segmentTarget_reads _ _ _) fun _ ↦
    .bind (segmentOffset_reads hm) fun place ↦ (vector_reads hfunc).map fun funcs ↦
      { m with elements := m.elements ++ [ElementSegment.mk place funcs] }) fun m' bs ↦ ?_
  constructor
  · rintro ⟨_, b₁, _, rfl, ⟨htable, htarget⟩, place, b₂, b₃, rfl, ⟨htype, hplace⟩, funcs, rfl,
      hfuncs⟩
    obtain ⟨hexist, hfuncs⟩ := Grammar.vector_and.mp hfuncs
    refine ⟨⟨place, funcs⟩, rfl, ?_, b₁, b₂, b₃, rfl, htarget, hplace, hfuncs⟩
    refine List.forall_mem_append.mpr ⟨hpass, List.forall_mem_singleton.mpr ⟨?_, htype, hexist⟩⟩
    exact mt hm.spaceSize_table_eq_zero.mpr htable
  · rintro ⟨⟨place, funcs⟩, rfl, hall, b₁, b₂, b₃, rfl, htarget, hplace, hfuncs⟩
    obtain ⟨htable, htype, hexist⟩ :=
      List.forall_mem_singleton.mp (List.forall_mem_append.mp hall).2
    exact ⟨(), b₁, _, rfl, ⟨mt hm.spaceSize_table_eq_zero.mp htable, htarget⟩, place, b₂, b₃, rfl,
      ⟨htype, hplace⟩, funcs, rfl, Grammar.vector_and.mpr ⟨hexist, hfuncs⟩⟩

theorem elementSection_reads (hm₀ : m₀.upTo 8 = m₀) : Reads m₀.elementSection fun m bs ↦
    Extends 8 m₀ m ∧ m.Passes config .element ∧ m.Payload config .element bs := by
  have hempty : m₀.elements = [] := by rw [← hm₀]; rfl
  refine counted_reads Component.elements rfl
    (fun m hm hpass ↦ elementEntry_reads (.of_upTo hm) hpass) ?_ hm₀ (by simp [Passes, hempty])
  exact fun m as bs hall ↦ (List.forall_mem_append.mp hall).1

/-- A data segment is a target, an offset and a string of bytes. -/
theorem dataEntry_reads (hm : m.Counted) (hpass : m.Passes config .data) :
    Reads m.dataEntry fun m' bs ↦
      ∃ seg, m' = { m with data := m.data ++ [seg] } ∧ m'.Passes config .data ∧
        Grammar.data seg bs := by
  refine .congr (.bind (segmentTarget_reads _ _ _) fun _ ↦
    .bind (segmentOffset_reads hm) fun place ↦ byteString_reads.map fun bytes ↦
      { m with data := m.data ++ [DataSegment.mk place bytes] }) fun m' bs ↦ ?_
  constructor
  · rintro ⟨_, b₁, _, rfl, ⟨hmemory, htarget⟩, place, b₂, b₃, rfl, ⟨htype, hplace⟩, bytes, rfl,
      hbytes⟩
    refine ⟨⟨place, bytes⟩, rfl, ?_, b₁, b₂, b₃, rfl, htarget, hplace, hbytes⟩
    refine List.forall_mem_append.mpr ⟨hpass, List.forall_mem_singleton.mpr ⟨?_, htype⟩⟩
    exact mt hm.spaceSize_memory_eq_zero.mpr hmemory
  · rintro ⟨⟨place, bytes⟩, rfl, hall, b₁, b₂, b₃, rfl, htarget, hplace, hbytes⟩
    obtain ⟨hmemory, htype⟩ := List.forall_mem_singleton.mp (List.forall_mem_append.mp hall).2
    exact ⟨(), b₁, _, rfl, ⟨mt hm.spaceSize_memory_eq_zero.mp hmemory, htarget⟩, place, b₂, b₃, rfl,
      ⟨htype, hplace⟩, bytes, rfl, hbytes⟩

theorem dataSection_reads (hm₀ : m₀.upTo 10 = m₀) : Reads m₀.dataSection fun m bs ↦
    Extends 10 m₀ m ∧ m.Passes config .data ∧ m.Payload config .data bs := by
  have hempty : m₀.data = [] := by rw [← hm₀]; rfl
  refine counted_reads Component.data rfl
    (fun m hm hpass ↦ dataEntry_reads (.of_upTo hm) hpass) ?_ hm₀ (by simp [Passes, hempty])
  exact fun m as bs hall ↦ (List.forall_mem_append.mp hall).1

/-! ### Code -/

/-- A body is as long as its size says, and what is left behind its end is ignored. -/
theorem codeEntry_reads (t : Nat) : Reads (m.codeEntry config t) fun code bs ↦
    m.types[t]? = some code.type ∧ Grammar.body config m code bs := by
  refine .congr (.bind varuint32_reads fun size ↦ framed_reads (.located fun start ↦
    .bind (vector_reads localDecl_reads) fun decls ↦ .bind (requireType_reads start t) fun type ↦
      code_reads config m type decls) size) fun code bs ↦ ?_
  constructor
  · rintro ⟨_, size, _, rfl, hsize, rfl, _, pad, rfl, decls, locals, _, rfl, hdecls, type, _,
      instrs, rfl, ⟨htype, rfl⟩, is, his, hcompiled⟩
    obtain rfl := hcompiled.type_eq
    refine ⟨htype, size, locals, instrs, pad, decls, is, by simp, ?_, hdecls, his, hcompiled⟩
    simpa using hsize
  · rintro ⟨htype, size, locals, instrs, pad, decls, is, rfl, hsize, hdecls, his, hcompiled⟩
    exact ⟨_, size, _, rfl, hsize, rfl, locals ++ instrs, pad, by simp, decls, locals, instrs, rfl,
      hdecls, code.type, [], instrs, rfl, ⟨htype, rfl⟩, is, his, hcompiled⟩

/-- There is one body for each function, and it has the type of the function. -/
theorem codeEntries_reads (ts : List Nat) : Reads (m.codeEntries config ts) fun codes bs ↦
    List.Forall₂ (fun t code ↦ m.types[t]? = some code.type) ts codes ∧
      Grammar.items (Grammar.body config m) codes bs := by
  induction ts with
  | nil =>
    refine (Reads.pure []).congr fun codes bs ↦ ?_
    constructor
    · rintro ⟨rfl, rfl⟩
      exact ⟨.nil, .nil⟩
    · rintro ⟨htypes, hcodes⟩
      cases htypes
      cases hcodes
      exact ⟨rfl, rfl⟩
  | cons t ts ih =>
    refine ((codeEntry_reads t).bind fun code ↦ ih.map (code :: ·)).congr fun codes bs ↦ ?_
    constructor
    · rintro ⟨code, bs, bs', rfl, ⟨htype, hcode⟩, codes, rfl, htypes, hcodes⟩
      exact ⟨.cons htype htypes, .cons hcode hcodes⟩
    · rintro ⟨htypes, hcodes⟩
      cases hcodes with
      | nil => cases htypes
      | cons hcode hcodes =>
        obtain ⟨htype, htypes⟩ := List.forall₂_cons.mp htypes
        exact ⟨_, _, _, rfl, ⟨htype, hcode⟩, _, rfl, htypes, hcodes⟩

/-- Bodies are compiled in a module that has no code yet. The declarations are those of the module
that comes of it. -/
theorem codeSection_reads (hm₀ : m₀.upTo 9 = m₀) : Reads (m₀.codeSection config) fun m bs ↦
    Extends 9 m₀ m ∧ m.Passes config .code ∧ m.Payload config .code bs := by
  refine .congr (.bind varuint32_reads fun bodies ↦ .guard
    (.map (codeEntries_reads m₀.funcs) fun codes ↦ Component.code.set m₀ codes)) fun m bs ↦ ?_
  have hcode : m₀.code = [] := by rw [← hm₀]; rfl
  have hdata : m₀.data = [] := by rw [← hm₀]; rfl
  have hdeclarations (codes : List Code) : (Component.code.set m₀ codes).declarations = m₀ :=
    declarations_eq_self hcode hdata
  refine Iff.trans ?_ (Component.code.exists_set (P := fun codes ↦ m.Passes config .code ∧
    Grammar.vector (Grammar.body config m.declarations) codes bs) hm₀)
  constructor
  · rintro ⟨_, count, rest, rfl, hcount, hbodies, codes, rfl, htypes, hcodes⟩
    obtain rfl := not_not.mp hbodies
    rw [htypes.length_eq] at hcount
    refine ⟨codes, rfl, ⟨htypes, Grammar.items_forall (fun code bs hbody ↦ ?_) hcodes⟩, count,
      rest, rfl, hcount, (hdeclarations codes).symm ▸ hcodes⟩
    obtain ⟨_, _, _, _, _, _, -, -, -, -, hcompiled⟩ := hbody
    exact hcompiled.bounded
  · rintro ⟨codes, rfl, ⟨htypes, -⟩, count, rest, rfl, hcount, hcodes⟩
    refine ⟨_, count, rest, rfl, hcount, ?_, codes, rfl, htypes, hdeclarations codes ▸ hcodes⟩
    exact not_not.mpr htypes.length_eq.symm

/-- What a section reads is one of the payloads of the section, for the module that comes of it, and
that module passes its checks. -/
theorem sectionPayload_reads {id : SectionId} {previous : Nat} (hm₀ : m₀.upTo previous = m₀)
    (hid : previous < id.number) : Reads (m₀.sectionPayload config id) fun m bs ↦
      Extends (id.number - 1) m₀ m ∧ m.Passes config id ∧ m.Payload config id bs := by
  have hprevious : m₀.upTo (id.number - 1) = m₀ := upTo_of_le hm₀ (Nat.le_sub_one_of_lt hid)
  cases id with
  | custom => exact absurd hid (Nat.not_lt_zero _)
  | type => exact typeSection_reads hprevious
  | imports => exact importSection_reads hprevious
  | function => exact functionSection_reads hprevious
  | table => exact tableSection_reads hprevious
  | memory => exact memorySection_reads hprevious
  | global => exact globalSection_reads hprevious
  | exports => exact exportSection_reads hprevious
  | start => exact startSection_reads hprevious
  | element => exact elementSection_reads hprevious
  | code => exact codeSection_reads hprevious
  | data => exact dataSection_reads hprevious

end Module

end WasmEngine
