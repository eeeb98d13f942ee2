import FleetControl.Main
import FleetControl.Proofs.Command.ExitStatus
import FleetControl.Proofs.Poll.Display
import FleetControl.Proofs.Poll.Resolution
import FleetControl.Proofs.Poll.Uncancelled
import FleetControl.Proofs.Fleet.Merging
import FleetControl.Proofs.Fleet.Paging
import FleetControl.Proofs.Poll.Cancellation
import FleetControl.Proofs.Poll.Retrying
import FleetControl.Proofs.Poll.Reordering
import FleetControl.Proofs.Command.Requests
import FleetControl.Proofs.Command.Traceless
import FleetControl.Proofs.Assistant.Uses
import FleetControl.Proofs.Fleet.Records
import FleetControl.Proofs.Command.Signing
import FleetControl.Proofs.Progress.Redrawing
import FleetControl.Proofs.Command.Documents
import FleetControl.Proofs.Fleet.Repeating
import FleetControl.Proofs.Fleet.Unambiguous
import FleetControl.Proofs.Poll.Stuttering
import FleetControl.Proofs.Workflow.Tags
import FleetControl.Proofs.Assistant.Editing
import FleetControl.Proofs.Arguments.Pairs
import FleetControl.Proofs.Assistant.Printing
import FleetControl.Proofs.Progress.Truncating
import FleetControl.Proofs.Workflow.Joining
import FleetControl.Proofs.Output.Alignment
import FleetControl.Proofs.Poll.Pacing
import FleetControl.Proofs.Workflow.Streams
import FleetControl.Proofs.Command.Deadlines
import FleetControl.Proofs.Workflow.Streams
import FleetControl.Proofs.Url.Forms
