import WasmEngine.Code.Listing
import WasmEngine.Machine
import WasmEngine.Module.Encoding
import WasmEngine.Proofs.Binary
import WasmEngine.Proofs.Bindings
import WasmEngine.Proofs.Bodies
import WasmEngine.Proofs.BodyGrammar
import WasmEngine.Proofs.Bookkeeping
import WasmEngine.Proofs.Boundary
import WasmEngine.Proofs.CallBudget
import WasmEngine.Proofs.CallDepth
import WasmEngine.Proofs.Canonical
import WasmEngine.Proofs.CodeForm
import WasmEngine.Proofs.Coercion
import WasmEngine.Proofs.Compatibility
import WasmEngine.Proofs.Completion
import WasmEngine.Proofs.DeclaredLimits
import WasmEngine.Proofs.Decoding
import WasmEngine.Proofs.Drafts
import WasmEngine.Proofs.Effects
import WasmEngine.Proofs.Emission
import WasmEngine.Proofs.ErrorOffsets
import WasmEngine.Proofs.Evolution
import WasmEngine.Proofs.Faults
import WasmEngine.Proofs.Footprint
import WasmEngine.Proofs.ForeignHandles
import WasmEngine.Proofs.Framing
import WasmEngine.Proofs.Grammar
import WasmEngine.Proofs.Growth
import WasmEngine.Proofs.ImportCounts
import WasmEngine.Proofs.IndexSpaces
import WasmEngine.Proofs.Instantiation
import WasmEngine.Proofs.InstrGrammar
import WasmEngine.Proofs.InstrTyping
import WasmEngine.Proofs.IntegerOperators
import WasmEngine.Proofs.Isolation
import WasmEngine.Proofs.Linking
import WasmEngine.Proofs.LiveCode
import WasmEngine.Proofs.Locality
import WasmEngine.Proofs.Lockstep
import WasmEngine.Proofs.MemoryAccess
import WasmEngine.Proofs.OperandFlow
import WasmEngine.Proofs.OperandStack
import WasmEngine.Proofs.Operands
import WasmEngine.Proofs.Positions
import WasmEngine.Proofs.Preservation
import WasmEngine.Proofs.Provision
import WasmEngine.Proofs.RaisedLimits
import WasmEngine.Proofs.RawDrafts
import WasmEngine.Proofs.Reading
import WasmEngine.Proofs.Relocation
import WasmEngine.Proofs.Safety
import WasmEngine.Proofs.SectionGrammar
import WasmEngine.Proofs.SectionOrder
import WasmEngine.Proofs.Segments
import WasmEngine.Proofs.Sequences
import WasmEngine.Proofs.Signatures
import WasmEngine.Proofs.Simulation
import WasmEngine.Proofs.SlotDiscipline
import WasmEngine.Proofs.Snapshots
import WasmEngine.Proofs.Soundness
import WasmEngine.Proofs.Statements
import WasmEngine.Proofs.StoreForm
import WasmEngine.Proofs.StructuredControl
import WasmEngine.Proofs.StructuredMeaning
import WasmEngine.Proofs.Truncation
import WasmEngine.Proofs.TypeChecking
import WasmEngine.Proofs.Typing
import WasmEngine.Proofs.Updates
import WasmEngine.Proofs.Varints
import WasmEngine.Proofs.Worlds
