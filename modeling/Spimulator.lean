import Spimulator.Access
import Spimulator.Assembler
import Spimulator.Ast
import Spimulator.BlockRuns
import Spimulator.Breakpoint
import Spimulator.BreakpointTable
import Spimulator.CodeRun
import Spimulator.Comparisons
import Spimulator.ConditionCodes
import Spimulator.Data
import Spimulator.DataInText
import Spimulator.DataMemory
import Spimulator.DelayedLoads
import Spimulator.Devices
import Spimulator.Dispatch
import Spimulator.Division
import Spimulator.Emission
import Spimulator.Emit
import Spimulator.EmitOnce
import Spimulator.EmitProperty
import Spimulator.Encoding
import Spimulator.Exception
import Spimulator.ExceptionState
import Spimulator.ExitFinal
import Spimulator.Expansion
import Spimulator.Explain
import Spimulator.FileStart
import Spimulator.ForcedIdentifier
import Spimulator.FpControl
import Spimulator.HostAccess
import Spimulator.Immediates
import Spimulator.InstEmit
import Spimulator.Instruction
import Spimulator.Jumps
import Spimulator.LabelChains
import Spimulator.Lexing
import Spimulator.Library.Alignment
import Spimulator.Library.BoundedRun
import Spimulator.Library.ByteStore
import Spimulator.Library.CommandRun
import Spimulator.Library.Failure
import Spimulator.Library.Frame
import Spimulator.Library.Path
import Spimulator.Library.PolledLoop
import Spimulator.Likely
import Spimulator.Linking
import Spimulator.Load
import Spimulator.LocalLabels
import Spimulator.Location
import Spimulator.Lowering
import Spimulator.Machine
import Spimulator.Memory
import Spimulator.Multiply
import Spimulator.Narration
import Spimulator.NodeCode
import Spimulator.NodeEmission
import Spimulator.NodeRuns
import Spimulator.Observer
import Spimulator.Operand
import Spimulator.OperandReads
import Spimulator.ParseEffect
import Spimulator.ParseProperty
import Spimulator.Parser
import Spimulator.Parsing
import Spimulator.Programs
import Spimulator.PseudoArith
import Spimulator.PseudoOp
import Spimulator.ReadInt
import Spimulator.Redefinition
import Spimulator.References
import Spimulator.Resolution
import Spimulator.RoundTrip
import Spimulator.Run
import Spimulator.RunRel
import Spimulator.RunStack
import Spimulator.Scanner
import Spimulator.SegmentGrowth
import Spimulator.Stepping
import Spimulator.Survival
import Spimulator.SymbolTable
import Spimulator.Syscall
import Spimulator.TableRefinement
import Spimulator.Termination
import Spimulator.TextMemory
import Spimulator.TextRoom
import Spimulator.TokenUse
import Spimulator.Unaligned
import Spimulator.Undisturbed
import Spimulator.UserStart
import Spimulator.ZeroRegister
