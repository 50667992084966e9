import TrapEmulation.Host.Module
import TrapEmulation.Host.TableHost
import TrapEmulation.Memory.Window
import TrapEmulation.Trap.ErrorTrap
import TrapEmulation.Proofs.Encoding.Prefixes
import TrapEmulation.Proofs.Encoding.Reading
import TrapEmulation.Proofs.Encoding.Grammar
import TrapEmulation.Proofs.Encoding.RoundTrip
import TrapEmulation.Proofs.Encoding.WriteBack
import TrapEmulation.Proofs.Encoding.Modes
import TrapEmulation.Proofs.Encoding.Stability
import TrapEmulation.Proofs.BitManip.Gather
import TrapEmulation.Proofs.BitManip.LowestBit
import TrapEmulation.Proofs.Memory.Fetch
import TrapEmulation.Proofs.Memory.Layout
import TrapEmulation.Proofs.Memory.Agreement
import TrapEmulation.Proofs.Reference.Address
import TrapEmulation.Proofs.Reference.Footprint
import TrapEmulation.Proofs.BitManip.Arithmetic
import TrapEmulation.Proofs.BitManip.Reports
import TrapEmulation.Proofs.BitManip.Effects
import TrapEmulation.Proofs.OpcodeTable
import TrapEmulation.Proofs.Trap.Handled
import TrapEmulation.Proofs.Trap.BitManip
import TrapEmulation.Proofs.Reference.StringCompare
import TrapEmulation.Proofs.StringCompare.Results
import TrapEmulation.Proofs.StringCompare.Effects
import TrapEmulation.Proofs.Trap.StringCompare
import TrapEmulation.Proofs.Trap.Encodings
import TrapEmulation.Proofs.Trap.Stream
import TrapEmulation.Proofs.Trap.Locality
import TrapEmulation.Proofs.Trap.Forwarding
import TrapEmulation.Proofs.Trap.Frame
import TrapEmulation.Proofs.Host.Lifecycle
import TrapEmulation.Proofs.Host.HookList
import TrapEmulation.Proofs.BitManip.SelectedBits
import TrapEmulation.Proofs.Host.Installation
import TrapEmulation.Proofs.Checked.Arithmetic
import TrapEmulation.Proofs.Checked.Words
import TrapEmulation.Proofs.Checked.Registers
import TrapEmulation.Proofs.Checked.Fetch
import TrapEmulation.Proofs.Checked.Operand
import TrapEmulation.Proofs.Checked.BitManip
import TrapEmulation.Proofs.Checked.Matrix
import TrapEmulation.Proofs.Checked.StringCompare
import TrapEmulation.Proofs.Checked.Cursor
import TrapEmulation.Proofs.Checked.Decode
import TrapEmulation.Proofs.Checked.FaultPath
import TrapEmulation.Proofs.BitManip.Clearing
import TrapEmulation.Proofs.BitManip.Ranges
import TrapEmulation.Proofs.BitManip.Shifts
import TrapEmulation.Proofs.BitManip.Narrowing
import TrapEmulation.Proofs.StringCompare.ValidData
import TrapEmulation.Proofs.StringCompare.Lengths
import TrapEmulation.Proofs.StringCompare.Consistency
import TrapEmulation.Proofs.StringCompare.Signs
import TrapEmulation.Proofs.Trap.Families
import TrapEmulation.Proofs.Memory.Limit
import TrapEmulation.Proofs.Trap.EffectiveAddress
import TrapEmulation.Proofs.Trap.LowMemory
import TrapEmulation.Proofs.Trap.OperandForms
import TrapEmulation.Proofs.Trap.Lookup
import TrapEmulation.Proofs.Host.Routing
import TrapEmulation.Proofs.Checked.PrefixScan
import TrapEmulation.Proofs.Memory.ReadableRun
import TrapEmulation.Proofs.Memory.Loads
