import Sim6502.EventComputations
import Sim6502.BytesAndAddresses
import Sim6502.StatusRegister
import Sim6502.InstructionTypes
import Sim6502.GeneralMemory
import Sim6502.Processor
import Sim6502.InstructionBodies
import Sim6502.InstructionTable
import Sim6502.InstructionEffects
import Sim6502.ProcessorStep
import Sim6502.StepAnalysis
import Sim6502.ZeroPagePointers
import Sim6502.Branches
import Sim6502.CellOperations
import Sim6502.MultiByteShifts
import Sim6502.BitManipulation
import Sim6502.StoreLoad
import Sim6502.MemoryFrame
import Sim6502.AddressSpace
import Sim6502.FlagDiscipline
import Sim6502.BitTests
import Sim6502.ResultFlags
import Sim6502.RepeatedEntries
import Sim6502.StatusByte
import Sim6502.StackOperations
import Sim6502.DebuggerCommands
import Sim6502.DebuggerSession
import Sim6502.CommandLine
import Sim6502.NestedCalls
import Sim6502.SavedRegisters
import Sim6502.RunLoops
import Sim6502.CarryChains
import Sim6502.Comparisons
import Sim6502.ReturnFrames
import Sim6502.MultiByteArithmetic
import Sim6502.DecimalArithmetic
import Sim6502.ExecuteLoop
import Sim6502.StraightLineRuns
import Sim6502.BoundsChecking
import Sim6502.PrintLoop
import Sim6502.DebuggerTurns
import Sim6502.DebuggerTransparency
import Sim6502.OperandAddresses
import Sim6502.SeparatedTokens
import Sim6502.CommandParsing
import Sim6502.MemoryDumps
import Sim6502.PromptInput
import Sim6502.ReadFootprints
import Sim6502.UnreadBytes
import Sim6502.ModeIndependence
import Sim6502.ImportedMemory
import Sim6502.ProgramStart
import Sim6502.StaticRegions
import Sim6502.RegisterDumps
import Sim6502.PromptDialogues
import Sim6502.ProgramEnds
import Sim6502.TimedTriples
import Sim6502.CountedLoops
import Sim6502.IndexedLoops
import Sim6502.PageFills
import Sim6502.SubtractionTests
import Sim6502.RecurringRuns
import Sim6502.RecurringStates
import Sim6502.BitRings
import Sim6502.Rotations
import Sim6502.VerboseLogs
