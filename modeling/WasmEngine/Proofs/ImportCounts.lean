import WasmEngine.Module

/-!
# Imports and their counts

A module keeps its imports twice: as a list, and as counts and types that tell whether an index is
that of an import or of a definition. The index spaces are lists here, with the imports first. When
every import is added by `pushImport`, the counts are those of the list, and to look up an index by
them is to look it up in its index space.
-/

namespace WasmEngine

namespace Imported

/-- What a list of imports comes to, kind by kind. -/
def ofImports (imports : List Import) : Imported where
  funcs := (imports.filterMap (·.desc.func?)).length
  tables := (imports.filterMap (·.desc.table?)).length
  memories := (imports.filterMap (·.desc.memory?)).length
  globals := (imports.filterMap (·.desc.global?)).length
  funcTypes := imports.filterMap (·.desc.func?)
  globalTypes := imports.filterMap (·.desc.global?)

/-- One more import adds to its own kind and to no other. -/
theorem ofImports_push (imports : List Import) (i : Import) :
    ofImports (imports ++ [i]) = (ofImports imports).push i.desc := by
  obtain ⟨module, name, desc⟩ := i
  cases desc <;>
    simp [ofImports, push, ImportDesc.func?, ImportDesc.table?, ImportDesc.memory?,
      ImportDesc.global?]

end Imported

namespace Module

section IndexSpaces

variable (m : Module)

def importedFuncs : List Nat := m.imports.filterMap (·.desc.func?)

def importedTables : List Limits := m.imports.filterMap (·.desc.table?)

def importedMemories : List Limits := m.imports.filterMap (·.desc.memory?)

def importedGlobals : List GlobalType := m.imports.filterMap (·.desc.global?)

def funcSpace : List Nat := m.importedFuncs ++ m.funcs

def tableSpace : List Limits := m.importedTables ++ m.tables

def memorySpace : List Limits := m.importedMemories ++ m.memories

def globalSpace : List GlobalType := m.importedGlobals ++ m.globals.map (·.type)

/-- The counts are those of the imports. -/
def Counted : Prop := m.imported = .ofImports m.imports

end IndexSpaces

namespace Counted

variable {m : Module} (h : m.Counted)

include h

/-- Adding an import keeps the counts in step. -/
theorem pushImport (i : Import) : (m.pushImport i).Counted := by
  unfold Counted Module.pushImport
  rw [h, Imported.ofImports_push]

theorem funcs_eq : m.imported.funcs = m.importedFuncs.length := by rw [h]; rfl

theorem tables_eq : m.imported.tables = m.importedTables.length := by rw [h]; rfl

theorem memories_eq : m.imported.memories = m.importedMemories.length := by rw [h]; rfl

theorem globals_eq : m.imported.globals = m.importedGlobals.length := by rw [h]; rfl

theorem funcTypes_eq : m.imported.funcTypes = m.importedFuncs := by rw [h]; rfl

theorem globalTypes_eq : m.imported.globalTypes = m.importedGlobals := by rw [h]; rfl

/-- To branch on the count and to subtract it is to look up the index space. -/
theorem funcTypeIndex?_eq (index : Nat) : m.funcTypeIndex? index = m.funcSpace[index]? := by
  rw [funcTypeIndex?, h.funcs_eq, h.funcTypes_eq, funcSpace, List.getElem?_append]

theorem funcType?_eq (index : Nat) :
    m.funcType? index = m.funcSpace[index]?.bind fun t ↦ m.types[t]? := by
  unfold funcType?
  rw [h.funcTypeIndex?_eq]
  rfl

theorem globalType?_eq (index : Nat) : m.globalType? index = m.globalSpace[index]? := by
  rw [globalType?, h.globals_eq, h.globalTypes_eq, globalSpace, List.getElem?_append,
    List.getElem?_map]

/-- An imported global is one whose index is below the count. -/
theorem importedGlobals_eq_some_iff {index : Nat} {g : GlobalType} :
    m.importedGlobals[index]? = some g ↔
      index < m.imported.globals ∧ m.globalType? index = some g := by
  rw [h.globals_eq, h.globalType?_eq, globalSpace]
  constructor
  · intro hg
    have hlt := (List.getElem?_eq_some_iff.mp hg).1
    exact ⟨hlt, (List.getElem?_append_left hlt).trans hg⟩
  · rintro ⟨hlt, hg⟩
    exact (List.getElem?_append_left hlt).symm.trans hg

theorem spaceSize_func : m.spaceSize .func = m.funcSpace.length := by
  rw [spaceSize, h.funcs_eq, funcSpace, List.length_append]

theorem spaceSize_table : m.spaceSize .table = m.tableSpace.length := by
  rw [spaceSize, h.tables_eq, tableSpace, List.length_append]

theorem spaceSize_memory : m.spaceSize .memory = m.memorySpace.length := by
  rw [spaceSize, h.memories_eq, memorySpace, List.length_append]

theorem spaceSize_global : m.spaceSize .global = m.globalSpace.length := by
  rw [spaceSize, h.globals_eq, globalSpace, List.length_append, List.length_map]

theorem spaceSize_table_eq_zero : m.spaceSize .table = 0 ↔ m.tableSpace = [] := by
  rw [h.spaceSize_table, List.length_eq_zero_iff]

theorem spaceSize_memory_eq_zero : m.spaceSize .memory = 0 ↔ m.memorySpace = [] := by
  rw [h.spaceSize_memory, List.length_eq_zero_iff]

end Counted

end Module

end WasmEngine
