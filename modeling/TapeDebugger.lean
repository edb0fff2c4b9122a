import TapeDebugger.Command.Outcome
import TapeDebugger.Machine.Run
import TapeDebugger.Main
import TapeDebugger.Recording
import TapeDebugger.Viewer
import TapeDebugger.Proofs.Program.Depth
import TapeDebugger.Proofs.Program.Pairing
import TapeDebugger.Proofs.Machine.Sound
import TapeDebugger.Proofs.Machine.Steps
import TapeDebugger.Proofs.Machine.Stopping
import TapeDebugger.Proofs.Program.Outline
import TapeDebugger.Proofs.Machine.Structured
import TapeDebugger.Proofs.Recording.Moves
import TapeDebugger.Proofs.Recording.Faithful
import TapeDebugger.Proofs.Program.Directory
import TapeDebugger.Proofs.Machine.Checked
import TapeDebugger.Proofs.Machine.Safety
import TapeDebugger.Proofs.Machine.Truncation
import TapeDebugger.Proofs.Machine.Substitution
import TapeDebugger.Proofs.Recording.Advance
import TapeDebugger.Proofs.Machine.ClearLoop
import TapeDebugger.Proofs.Machine.Comments
import TapeDebugger.Proofs.Machine.Input
import TapeDebugger.Proofs.Recording.Resume
import TapeDebugger.Proofs.Viewer.Events
import TapeDebugger.Proofs.Viewer.Cursor
import TapeDebugger.Proofs.Viewer.Playing
import TapeDebugger.Proofs.Recording.Ends
import TapeDebugger.Proofs.Program.Lines
import TapeDebugger.Proofs.View.Windows
import TapeDebugger.Proofs.Viewer.Following
import TapeDebugger.Proofs.View.Checked
import TapeDebugger.Proofs.Viewer.Total
import TapeDebugger.Proofs.Command.Delivery
import TapeDebugger.Proofs.Recording.Breakpoints
import TapeDebugger.Proofs.Program.Capacity
import TapeDebugger.Proofs.Program.Slots
import TapeDebugger.Proofs.Viewer.Notices
import TapeDebugger.Proofs.Machine.Masking
import TapeDebugger.Proofs.Machine.Edge
import TapeDebugger.Proofs.Viewer.Pinning
import TapeDebugger.Proofs.Screen.Cells
import TapeDebugger.Proofs.View.Pointer
import TapeDebugger.Proofs.Recording.Budget
import TapeDebugger.Proofs.Screen.Reading
import TapeDebugger.Proofs.View.Log
import TapeDebugger.Proofs.Viewer.Settled
import TapeDebugger.Proofs.View.DumpRow
import TapeDebugger.Proofs.View.Dump
import TapeDebugger.Proofs.Program.Search
import TapeDebugger.Proofs.View.Places
import TapeDebugger.Proofs.Machine.Filling
