import Workflow.Main
import Workflow.Merge.Flag
import Workflow.Proofs.Build.Override
import Workflow.Proofs.Graph.Defect
import Workflow.Proofs.Graph.Focus
import Workflow.Proofs.Layout.Cycles
import Workflow.Proofs.Layout.Gaps
import Workflow.Proofs.Layout.Room
import Workflow.Proofs.Merge.Atomic
import Workflow.Proofs.Merge.Bracketing
import Workflow.Proofs.Merge.Meanwhile
import Workflow.Proofs.Merge.Naming
import Workflow.Proofs.Merge.Undisturbed
import Workflow.Proofs.Run.Cursor
import Workflow.Proofs.Run.Protection
import Workflow.Proofs.Sound.EdgeIds
import Workflow.Proofs.Spec.Written
import Workflow.Proofs.Subflow.Editing
import Workflow.Proofs.Subflow.Opening
import Workflow.Proofs.Task.Announced
import Workflow.Proofs.Task.Lookup
import Workflow.Proofs.Text.Slug
