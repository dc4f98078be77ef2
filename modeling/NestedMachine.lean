import NestedMachine.Debugger
import NestedMachine.Instruction.Encoding
import NestedMachine.LevelReport
import NestedMachine.Main
import NestedMachine.Proofs.Hypervisor.Atomicity
import NestedMachine.Proofs.Hypervisor.Awaiting
import NestedMachine.Proofs.Hypervisor.Breakpoints
import NestedMachine.Proofs.Hypervisor.Confinement
import NestedMachine.Proofs.Hypervisor.Debugging
import NestedMachine.Proofs.Hypervisor.Footprints
import NestedMachine.Proofs.Hypervisor.Forking
import NestedMachine.Proofs.Hypervisor.Genealogy
import NestedMachine.Proofs.Hypervisor.Histories
import NestedMachine.Proofs.Hypervisor.Levels
import NestedMachine.Proofs.Hypervisor.MemoryModes
import NestedMachine.Proofs.Hypervisor.Playback
import NestedMachine.Proofs.Hypervisor.Provenance
import NestedMachine.Proofs.Hypervisor.Reckoning
import NestedMachine.Proofs.Hypervisor.Replay
import NestedMachine.Proofs.Hypervisor.ReplayFrames
import NestedMachine.Proofs.Hypervisor.Solitude
import NestedMachine.Proofs.Hypervisor.States
import NestedMachine.Proofs.Hypervisor.Strays
import NestedMachine.Proofs.Hypervisor.Streams
import NestedMachine.Proofs.Host.Positions
import NestedMachine.Proofs.Host.Transfers
import NestedMachine.Proofs.Instruction.Codec
import NestedMachine.Proofs.Instruction.Constants
import NestedMachine.Proofs.Instruction.Disassembly
import NestedMachine.Proofs.Machine.Conservation
import NestedMachine.Proofs.Machine.Guests
import NestedMachine.Proofs.Machine.Interleaving
import NestedMachine.Proofs.Machine.Isolation
import NestedMachine.Proofs.Machine.ProgramBreak
import NestedMachine.Proofs.Machine.Retirement
import NestedMachine.Proofs.Machine.Simulation
import NestedMachine.Proofs.Machine.Slices
import NestedMachine.Proofs.Memory.Circulation
import NestedMachine.Proofs.Memory.Refinement
import NestedMachine.Proofs.Memory.Verdicts
import NestedMachine.Proofs.Program.Images
import NestedMachine.Proofs.Program.Loaded
import NestedMachine.Proofs.Trace.Stored
