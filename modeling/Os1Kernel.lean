import Os1Kernel.Lib.Chain
import Os1Kernel.Kernel.State
import Os1Kernel.Lib.Run
import Os1Kernel.Kernel.Queues
import Os1Kernel.Kernel.Sync
import Os1Kernel.Kernel.Trap
import Os1Kernel.Lib.Delta
import Os1Kernel.Spec.System
import Os1Kernel.Spec.Places
import Os1Kernel.Spec.Objects
import Os1Kernel.Spec.Contexts
import Os1Kernel.Spec.Invariant
import Os1Kernel.Refine.Rep
import Os1Kernel.Refine.SleepList
import Os1Kernel.Refine.Loops
import Os1Kernel.Refine.Operations
import Os1Kernel.Refine.Creation
import Os1Kernel.Refine.Handlers
import Os1Kernel.Refine.Machine
import Os1Kernel.Refine.Boot
import Os1Kernel.Kernel.Frame
import Os1Kernel.Results.Situations
import Os1Kernel.Lib.DoublyLinked
import Os1Kernel.Memory.Manager
import Os1Kernel.Memory.Segments
import Os1Kernel.Memory.Refine
import Os1Kernel.Memory.Operations
import Os1Kernel.Memory.Runs
import Os1Kernel.Results.Heap
import Os1Kernel.Results.FreeList
import Os1Kernel.Results.Requests
import Os1Kernel.Interrupts.InputFlag
import Os1Kernel.Interrupts.PrintLock
import Os1Kernel.Interrupts.Privilege
import Os1Kernel.Lib.Fifo
import Os1Kernel.Results.RoundRobin
import Os1Kernel.Memory.Creation
import Os1Kernel.Refine.Attempt
import Os1Kernel.Results.Creation
import Os1Kernel.Lib.BoundedQueue
import Os1Kernel.Lib.Ring
import Os1Kernel.Spec.Tokens
import Os1Kernel.Results.CharBuffer
import Os1Kernel.Lib.Numeral
import Os1Kernel.Util.Print
import Os1Kernel.Util.Fractional
import Os1Kernel.Kernel.Ghost
import Os1Kernel.Refine.Orderly
import Os1Kernel.Results.Signal
import Os1Kernel.Memory.Shutdown
import Os1Kernel.Results.Shutdown
import Os1Kernel.Lib.WaitingLine
import Os1Kernel.Spec.Line
import Os1Kernel.Results.Semaphore
import Os1Kernel.Spec.Message
import Os1Kernel.Results.Messages
import Os1Kernel.Results.Received
import Os1Kernel.Spec.Children
import Os1Kernel.Results.Finish
import Os1Kernel.Spec.Records
import Os1Kernel.Spec.Sleepers
import Os1Kernel.Results.Sleep
import Os1Kernel.Results.Waits
import Os1Kernel.Spec.Joins
import Os1Kernel.Results.Join
import Os1Kernel.Spec.JoinAll
import Os1Kernel.Results.JoinAll
import Os1Kernel.Results.Refinement
import Os1Kernel.Spec.Isolation
import Os1Kernel.Results.Isolation
import Os1Kernel.Results.Latency
import Os1Kernel.Results.Accounts
import Os1Kernel.Results.Objects
import Os1Kernel.Lib.Rv64
import Os1Kernel.Interrupts.Registers
import Os1Kernel.Interrupts.Output
import Os1Kernel.Interrupts.PrintOrder
import Os1Kernel.Memory.Statistics
import Os1Kernel.Memory.Placed
import Os1Kernel.Memory.Placement
import Os1Kernel.Results.Growth
import Os1Kernel.Results.PlacedSteps
import Os1Kernel.Results.Placed
import Os1Kernel.Spec.Waking
import Os1Kernel.Results.Waking
import Os1Kernel.Lib.Independence
import Os1Kernel.Kernel.Independence
import Os1Kernel.Results.Independence
