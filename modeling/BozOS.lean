import BozOS.Data.Word
import BozOS.Data.Memory
import BozOS.Data.Chain
import BozOS.Data.Stacks
import BozOS.Data.Runs
import BozOS.Data.Buffer
import BozOS.Data.Paging
import BozOS.Lib.Memory
import BozOS.Lib.Strings
import BozOS.Lib.Numbers
import BozOS.FileSystem.Image
import BozOS.FileSystem.ReadData
import BozOS.FileSystem.Placed
import BozOS.Kernel.State
import BozOS.Kernel.Console
import BozOS.Kernel.Printf
import BozOS.Kernel.MultiTerm
import BozOS.Kernel.Keyboard
import BozOS.Kernel.Effects
import BozOS.Kernel.Devices
import BozOS.Kernel.Syscalls
import BozOS.Kernel.Process
import BozOS.Kernel.System
import BozOS.Kernel.Paging
import BozOS.Kernel.OneMemory
import BozOS.Processes.Frame
import BozOS.Processes.DeviceFrame
import BozOS.Processes.Table
import BozOS.Processes.Launch
import BozOS.Processes.Atomicity
import BozOS.Processes.Integrity
import BozOS.Processes.Sparing
import BozOS.Processes.Bracket
import BozOS.Descriptors.Table
import BozOS.Descriptors.Law
import BozOS.Descriptors.Listing
import BozOS.Descriptors.Sequential
import BozOS.Terminals.Mapping
import BozOS.Terminals.Screen
import BozOS.Terminals.Isolation
import BozOS.Terminals.Line
import BozOS.Terminals.Input
import BozOS.Descriptors.CopyOut
import BozOS.Descriptors.Lookup
import BozOS.Descriptors.Opened
import BozOS.Terminals.Modifiers
import BozOS.Terminals.Rendering
import BozOS.Processes.Scheduling
import BozOS.FileSystem.Access
import BozOS.Terminals.Editing
import BozOS.Processes.Command
import BozOS.Processes.Loading
import BozOS.Descriptors.Arguments
import BozOS.Terminals.Clock
import BozOS.Terminals.Residue
import BozOS.Terminals.Cursor
import BozOS.Terminals.Echo
import BozOS.Descriptors.Completion
import BozOS.Terminals.Entered
import BozOS.Processes.AddressSpace
import BozOS.Processes.Confinement
import BozOS.Fish.Blink
import BozOS.Fish.Refinement
import BozOS.Fish.Phase
import BozOS.Data.Machine
import BozOS.Interrupts.Gates
import BozOS.Interrupts.Linkage
import BozOS.Interrupts.Controller
import BozOS.Interrupts.Service
import BozOS.Data.Client
import BozOS.Programs.System
import BozOS.Programs.Calls
import BozOS.Programs.Cat
import BozOS.Programs.Ls
import BozOS.Programs.Shell
