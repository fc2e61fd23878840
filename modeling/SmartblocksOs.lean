import SmartblocksOs.Foundation.Runs
import SmartblocksOs.Foundation.Latch
import SmartblocksOs.Foundation.Stack
import SmartblocksOs.Foundation.Mutex
import SmartblocksOs.Foundation.Ring
import SmartblocksOs.Foundation.Rotation
import SmartblocksOs.Foundation.ReadModifyWrite
import SmartblocksOs.Foundation.Program
import SmartblocksOs.Foundation.Footprint
import SmartblocksOs.Foundation.Locking
import SmartblocksOs.Foundation.LockInvariants
import SmartblocksOs.Foundation.FirstUse
import SmartblocksOs.Foundation.Execution
import SmartblocksOs.Foundation.Typestate
import SmartblocksOs.Foundation.Accesses
import SmartblocksOs.Foundation.TwoWire
import SmartblocksOs.Foundation.Transmissions
import SmartblocksOs.Foundation.Receptions
import SmartblocksOs.Foundation.RegisterSlave
import SmartblocksOs.Foundation.Frame
import SmartblocksOs.System.Globals
import SmartblocksOs.System.Selection
import SmartblocksOs.System.Scheduler
import SmartblocksOs.System.History
import SmartblocksOs.System.ConcurrentCreation
import SmartblocksOs.System.RoundRobin
import SmartblocksOs.System.Sleeping
import SmartblocksOs.System.Timer
import SmartblocksOs.Context.InitialFrame
import SmartblocksOs.Resource.Lock
import SmartblocksOs.Resource.Tasks
import SmartblocksOs.Resource.Invariants
import SmartblocksOs.Resource.Wired
import SmartblocksOs.Port.Interrupt
import SmartblocksOs.Port.InterruptVector
import SmartblocksOs.Board.Operations
import SmartblocksOs.Board.Footprints
import SmartblocksOs.Board.Frames
import SmartblocksOs.Board.MainState
import SmartblocksOs.Board.TwTenures
import SmartblocksOs.Board.PortInit
import SmartblocksOs.Board.LedModes
import SmartblocksOs.Board.TwMachine
import SmartblocksOs.Board.TwTransfers
import SmartblocksOs.Board.TwCalls
import SmartblocksOs.Board.BusTraces
import SmartblocksOs.Board.TwSections
import SmartblocksOs.Board.TwTransmissions
import SmartblocksOs.Board.TwReceptions
import SmartblocksOs.Board.TwBounds
import SmartblocksOs.Board.FailedReads
import SmartblocksOs.Board.InterruptVector
import SmartblocksOs.Board.NfcFrames
import SmartblocksOs.Board.NfcCalls
import SmartblocksOs.Board.NfcExchanges
import SmartblocksOs.Board.NfcAnswers
import SmartblocksOs.Board.NfcPolls
import SmartblocksOs.Board.NfcReplies
import SmartblocksOs.Board.NfcChecks
import SmartblocksOs.Uart.Commands
import SmartblocksOs.Uart.Reentry
import SmartblocksOs.Uart.Completion
import SmartblocksOs.Uart.Begin
import SmartblocksOs.Foundation.RegisterFile
import SmartblocksOs.Board.LedCalls
import SmartblocksOs.Board.LedInit
import SmartblocksOs.Board.PortCalls
import SmartblocksOs.Board.RegisterCalls
import SmartblocksOs.Foundation.Bounds
import SmartblocksOs.Board.NfcBuffer
import SmartblocksOs.Board.NfcMixing
import SmartblocksOs.Board.Phases
import SmartblocksOs.Board.BusProtocol
import SmartblocksOs.Board.WiredBus
import SmartblocksOs.Board.Faces
