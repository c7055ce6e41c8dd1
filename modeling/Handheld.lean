import Handheld.Bus.FlatRam
import Handheld.Bus.Recorded
import Handheld.Console.Desk
import Handheld.Observe.Console
import Handheld.Proofs.Arm.RegList
import Handheld.Proofs.Arm.TransferEncoding
import Handheld.Proofs.Arm.Unassigned
import Handheld.Proofs.Cost
import Handheld.Proofs.Entry
import Handheld.Proofs.ExceptionReturn
import Handheld.Proofs.Frame
import Handheld.Proofs.Run
import Handheld.Proofs.Thumb.Counterpart
import Handheld.Proofs.Thumb.Formats
import Handheld.Proofs.Thumb.MemoryCounterpart
import Handheld.Proofs.Thumb.Translation
import Handheld.Proofs.Unassigned
import Handheld.Proofs.UserMode.Instruction
import Handheld.Proofs.UserMode.Run
import Handheld.Snapshot
import Handheld.Proofs.Latch
import Handheld.Proofs.Memory.Registers
import Handheld.Proofs.Dialogue
import Handheld.Proofs.InterruptHistory
import Handheld.Proofs.Console.Events
import Handheld.Proofs.Console.EventEffect
import Handheld.Proofs.Console.FrameInterrupts
import Handheld.Proofs.Console.Status
import Handheld.Proofs.Console.InterruptCause
import Handheld.Proofs.Memory.Cells
import Handheld.Proofs.Memory.Blocks
import Handheld.Proofs.Memory.DataLines
import Handheld.Proofs.Memory.Mirrors
import Handheld.Proofs.Lockstep
import Handheld.Proofs.Memory.Confined
import Handheld.Proofs.Memory.RegisterBytes
import Handheld.Proofs.Memory.IoWindow
import Handheld.Proofs.Memory.OpenBus
import Handheld.Proofs.Budget
import Handheld.Proofs.Slices
import Handheld.Proofs.Shifter
import Handheld.Proofs.Calculation
import Handheld.Proofs.Comparison
import Handheld.Proofs.Transition
import Handheld.Proofs.LiveBank
import Handheld.Proofs.ControlBits
import Handheld.Proofs.StaleSlot
import Handheld.Proofs.Json.Grammar
import Handheld.Proofs.Json.Reading
import Handheld.Proofs.Json.Writing
import Handheld.Proofs.Json.Fields
import Handheld.Proofs.Json.Codec
import Handheld.Proofs.Snapshot
import Handheld.Proofs.Configuration
import Handheld.Proofs.Console.Collaborators
import Handheld.Proofs.Memory.Checked
import Handheld.Proofs.CarryChain
import Handheld.Proofs.Storage
import Handheld.Proofs.Stack
import Handheld.Proofs.Thumb.Multiple
import Handheld.Proofs.Arm.IndexedTransfer
import Handheld.Proofs.Multiplication
import Handheld.Proofs.StatusTransfer
import Handheld.Proofs.Calls
import Handheld.Proofs.Console.FrameBudget
import Handheld.Proofs.AddressText
import Handheld.Proofs.MemoryFrame
import Handheld.Proofs.NamedReach
import Handheld.Proofs.Arm.StandIns
