import AspectWeaving.Binary64
import AspectWeaving.Body
import AspectWeaving.Calculation
import AspectWeaving.Calls
import AspectWeaving.Chain
import AspectWeaving.Code
import AspectWeaving.CompactForms
import AspectWeaving.DefinitionIndex
import AspectWeaving.Definitions
import AspectWeaving.Diagnostics
import AspectWeaving.Discovery
import AspectWeaving.Execution
import AspectWeaving.Fault
import AspectWeaving.Frame
import AspectWeaving.Heap
import AspectWeaving.Hexadecimal
import AspectWeaving.Imports
import AspectWeaving.Inheritance
import AspectWeaving.Instruction
import AspectWeaving.Interpreter
import AspectWeaving.Interning
import AspectWeaving.Library
import AspectWeaving.Listing
import AspectWeaving.Machine
import AspectWeaving.Method
import AspectWeaving.Module
import AspectWeaving.ModuleTree
import AspectWeaving.Naming
import AspectWeaving.Opcode
import AspectWeaving.Policy
import AspectWeaving.Printability
import AspectWeaving.Quoting
import AspectWeaving.RealText
import AspectWeaving.Recipe
import AspectWeaving.Remainder
import AspectWeaving.Remembering
import AspectWeaving.Resolution
import AspectWeaving.ShortestDecimal
import AspectWeaving.Splicing
import AspectWeaving.StandardLibrary
import AspectWeaving.Step
import AspectWeaving.Token
import AspectWeaving.TypeName
import AspectWeaving.TypeSig
import AspectWeaving.Validity
import AspectWeaving.Value
import AspectWeaving.WeavePlan
import AspectWeaving.Weaving
import AspectWeaving.Widening
import AspectWeaving.Proofs.EntryDominance
import AspectWeaving.Proofs.SoundRuns
import AspectWeaving.Proofs.WeaveOutcomes
import AspectWeaving.Proofs.Instances
import AspectWeaving.Proofs.Layers
import AspectWeaving.Proofs.LookupSteps
import AspectWeaving.Proofs.Passages
import AspectWeaving.Proofs.Receivers
import AspectWeaving.Proofs.ImportGrowth
import AspectWeaving.Proofs.ImportOrder
import AspectWeaving.Proofs.Isolation
import AspectWeaving.Proofs.ProtectedRegions
import AspectWeaving.Proofs.Tolerance
import AspectWeaving.Proofs.WeaveOrder
import AspectWeaving.Proofs.WovenModules
import AspectWeaving.Proofs.LayerAttributes
import AspectWeaving.Proofs.Pairs
import AspectWeaving.Proofs.BranchLayout
import AspectWeaving.Proofs.BodyChanges
import AspectWeaving.Proofs.WidenedRuns
import AspectWeaving.Proofs.WeaveReports
import AspectWeaving.Proofs.WeaveSchedules
import AspectWeaving.Proofs.WeavePolicies
import AspectWeaving.Proofs.AttributeObjects
import AspectWeaving.Proofs.PrologueRuns
import AspectWeaving.Proofs.Surroundings
import AspectWeaving.Proofs.ChainedCalls
import AspectWeaving.Proofs.ThrownObjects
import AspectWeaving.Proofs.Entrances
import AspectWeaving.Proofs.Transparency
import AspectWeaving.Proofs.TransparentWeaves
import AspectWeaving.Proofs.NestedWeaves
import AspectWeaving.Proofs.ActivationMoves
import AspectWeaving.Proofs.BaseChains
import AspectWeaving.Proofs.DecoratorHooks
import AspectWeaving.Proofs.DiscoveredTargets
import AspectWeaving.Proofs.Rethrows
import AspectWeaving.Proofs.Budgets
import AspectWeaving.Proofs.LiveReferences
import AspectWeaving.Proofs.FreshAttributes
import AspectWeaving.Proofs.KeptAnswers
import AspectWeaving.Proofs.KeptPlans
import AspectWeaving.Proofs.OpenRuns
import AspectWeaving.Proofs.SplicedFrames
import AspectWeaving.Proofs.StackDepths
import AspectWeaving.Arena
import AspectWeaving.Proofs.Assembling
import AspectWeaving.Proofs.InstructionCounts
import AspectWeaving.Proofs.LinkedEdits
import AspectWeaving.Proofs.NullReferences
import AspectWeaving.Proofs.InternedRows
import AspectWeaving.Proofs.DefinitionTokens
import AspectWeaving.Proofs.Snapshots
import AspectWeaving.Proofs.BaseWalks
import AspectWeaving.Proofs.ImportedNames
import AspectWeaving.Proofs.ShortestForms
