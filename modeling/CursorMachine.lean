import CursorMachine.Main
import CursorMachine.Proofs.Lowering.Correctness
import CursorMachine.Proofs.Reading.Display
import CursorMachine.Proofs.Running.Calls
import CursorMachine.Proofs.Reading.Grammar
import CursorMachine.Proofs.Running.Items
import CursorMachine.Proofs.Lowering.Targets
import CursorMachine.Proofs.Reading.Rows
import CursorMachine.Proofs.Running.Widening
import CursorMachine.Proofs.Running.Interleaving
import CursorMachine.Proofs.Lowering.Readdressing
import CursorMachine.Proofs.Reading.LayoutEdits
import CursorMachine.Proofs.Lowering.Forms
import CursorMachine.Proofs.Reading.LeftmostScan
import CursorMachine.Proofs.CommandLine.Files
import CursorMachine.Proofs.CommandLine.Views
import CursorMachine.Proofs.Stages
import CursorMachine.Proofs.Reading.Literals
import CursorMachine.Proofs.Running.Bodies
import CursorMachine.Proofs.Lowering.PrintRoutine
import CursorMachine.Proofs.Reading.Faults
import CursorMachine.Proofs.Running.Widths
import CursorMachine.Proofs.Lowering.Figures
import CursorMachine.Proofs.Lowering.Remarks
import CursorMachine.Proofs.Reading.Reassembly
import CursorMachine.Proofs.CommandLine.Extensions
