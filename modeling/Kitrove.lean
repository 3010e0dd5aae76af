import Kitrove.Backend.Linearity
import Kitrove.Batch.JournalSteps
import Kitrove.Instructions.Editing
import Kitrove.InstructionApply.Atomicity
import Kitrove.Merge.Symmetry
import Kitrove.Merge.Convergence
import Kitrove.Sync.Transfer
import Kitrove.Trust.Atomicity
import Kitrove.Mcp.CredentialFree
import Kitrove.Base.Pointer
import Kitrove.Base.Staging
import Kitrove.Merge.Bindings
import Kitrove.Model.Revisions
import Kitrove.Model.DestinationAlgebra
import Kitrove.Packs.Refresh
import Kitrove.Packs.Membership
import Kitrove.Packs.Aggregation
import Kitrove.Packs.Import
import Kitrove.Packs.Mutation
import Kitrove.Packs.Profiles
import Kitrove.Release.ZipReading
import Kitrove.Release.XzEnvelope
import Kitrove.Receipts.Partition
import Kitrove.Skills.Portability
import Kitrove.Prompts.Inertness
import Kitrove.Quarantine.Charging
import Kitrove.Quarantine.Families
import Kitrove.Ssh.Acceptance
import Kitrove.Git.Acceptance
import Kitrove.Agents.Exchange
import Kitrove.Skills.Reprojection
import Kitrove.Materialization.Settling
import Kitrove.Git.TreeAccepted
import Kitrove.Git.Layout
