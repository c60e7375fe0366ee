import ByteMachine.Main
import ByteMachine.Proofs.Listing.Reassembly
import ByteMachine.Proofs.Layout.Image
import ByteMachine.Proofs.Hygiene.PrivateNames
import ByteMachine.Proofs.Relocation.Assembly
import ByteMachine.Proofs.Running.Trace
import ByteMachine.Proofs.Loading.Programs
import ByteMachine.Proofs.Execution.Lines
import ByteMachine.Proofs.Aliases.Linking
import ByteMachine.Proofs.Renaming.Assembly
import ByteMachine.Proofs.Sugar.Assembly
import ByteMachine.Proofs.Parallel.Spacing
import ByteMachine.Proofs.Symbols.Index
import ByteMachine.Proofs.Listing.Programs
import ByteMachine.Proofs.Running.Control
import ByteMachine.Proofs.Execution.Views
import ByteMachine.Proofs.Execution.Effects
import ByteMachine.Proofs.Execution.Routing
import ByteMachine.Proofs.Running.Shadow
import ByteMachine.Proofs.Running.TraceLines
import ByteMachine.Proofs.Reading.Names
import ByteMachine.Proofs.Reading.Operands
import ByteMachine.Proofs.Reading.Productions
import ByteMachine.Proofs.Execution.Faults
import ByteMachine.Proofs.Execution.Remains
import ByteMachine.Proofs.Running.Calls
import ByteMachine.Proofs.Reading.Lines
import ByteMachine.Proofs.Diagnostics.Spots
import ByteMachine.Proofs.Diagnostics.Carets
import ByteMachine.Proofs.Execution.Flags
import ByteMachine.Proofs.Execution.Stacks
import ByteMachine.Proofs.Listing.Agreement
import ByteMachine.Proofs.Running.Accounts
import ByteMachine.Proofs.Execution.Profiles
import ByteMachine.Proofs.Layout.Limits
import ByteMachine.Proofs.Diagnostics.Positions
import ByteMachine.Proofs.Parallel.Prefixes
import ByteMachine.Proofs.Scope.Frames
import ByteMachine.Proofs.Reading.Literals
import ByteMachine.Proofs.Reading.Spellings
import ByteMachine.Proofs.Symbols.Interning
import ByteMachine.Proofs.Symbols.Renderings
import ByteMachine.Proofs.Aliases.Stores
import ByteMachine.Proofs.Loading.Attempts
import ByteMachine.Proofs.Command.Sources
import ByteMachine.Proofs.Screen.FrameBuffer
import ByteMachine.Proofs.Command.Mounts
import ByteMachine.Proofs.Reading.Runs
import ByteMachine.Proofs.Execution.RegisterFile
import ByteMachine.Proofs.Command.Measurements
import ByteMachine.Proofs.Workloads.Report
