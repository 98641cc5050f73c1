import JavaEdit.Arena.Select
import JavaEdit.Main
import JavaEdit.Proofs.Accepted.Removals
import JavaEdit.Proofs.Arena.Refusals
import JavaEdit.Proofs.Fragment.Bodies
import JavaEdit.Proofs.Fragment.Duplicates
import JavaEdit.Proofs.Machine.Assignments
import JavaEdit.Proofs.Machine.Discipline
import JavaEdit.Proofs.Machine.Faults
import JavaEdit.Proofs.Machine.Integers
import JavaEdit.Proofs.Machine.Structure
import JavaEdit.Proofs.Parser.Halting
import JavaEdit.Proofs.Project.Paths
import JavaEdit.Proofs.Project.Sweeping
import JavaEdit.Proofs.Reading.Rows
import JavaEdit.Proofs.RoundTrip.Blocks
import JavaEdit.Proofs.Scanning.Locals
import JavaEdit.Proofs.Script.Validity
import JavaEdit.Proofs.Text.Order
