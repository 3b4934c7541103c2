import PlaybookEngine.Engine.Numbering
import PlaybookEngine.Engine.Timeless
import PlaybookEngine.Main
import PlaybookEngine.Tool.Codec
import PlaybookEngine.Proofs.Fields.Ordered
import PlaybookEngine.Proofs.Jobs.Table
import PlaybookEngine.Proofs.Jobs.Exclusion
import PlaybookEngine.Proofs.Activity.Run
import PlaybookEngine.Proofs.Engine.Surroundings
import PlaybookEngine.Proofs.Engine.Runs
import PlaybookEngine.Proofs.Artifact.Persistence
import PlaybookEngine.Proofs.Engine.Storage
import PlaybookEngine.Proofs.Workflow.Untimed
import PlaybookEngine.Proofs.Artifact.Outline
import PlaybookEngine.Proofs.Tool.Immediate
import PlaybookEngine.Proofs.Engine.Suspension
import PlaybookEngine.Proofs.Jobs.Trail
import PlaybookEngine.Proofs.Tool.Logged
import PlaybookEngine.Proofs.Engine.Transparency
import PlaybookEngine.Proofs.Activity.Assurance
import PlaybookEngine.Proofs.Batch.Assurance
import PlaybookEngine.Proofs.Tool.Steady
import PlaybookEngine.Proofs.Artifact.Lane
import PlaybookEngine.Proofs.Artifact.Agreement
import PlaybookEngine.Proofs.Engine.Share
import PlaybookEngine.Proofs.Engine.Item
import PlaybookEngine.Proofs.Engine.Single
import PlaybookEngine.Proofs.Engine.Together
import PlaybookEngine.Proofs.Engine.Batches
import PlaybookEngine.Proofs.Output.Citation
import PlaybookEngine.Proofs.Output.Aggregation
import PlaybookEngine.Proofs.Artifact.Depot
import PlaybookEngine.Proofs.Artifact.Lineage
import PlaybookEngine.Proofs.Engine.Executions
import PlaybookEngine.Proofs.Engine.Abandonment
import PlaybookEngine.Proofs.Output.Schema
import PlaybookEngine.Proofs.Engine.Tally
import PlaybookEngine.Proofs.Artifact.Correspondence
import PlaybookEngine.Proofs.Engine.Outcomes
import PlaybookEngine.Proofs.Playbook.Admission
import PlaybookEngine.Proofs.Output.Maximum
import PlaybookEngine.Proofs.Engine.Serialization
import PlaybookEngine.Proofs.Output.Fieldwise
import PlaybookEngine.Proofs.Workflow.Retrying
import PlaybookEngine.Proofs.Binding.Integers
import PlaybookEngine.Proofs.Binding.Idempotence
import PlaybookEngine.Proofs.Binding.Patterns
import PlaybookEngine.Proofs.Output.Flags
import PlaybookEngine.Proofs.Engine.Mode
import PlaybookEngine.Proofs.Engine.Governance
import PlaybookEngine.Proofs.Artifact.Reading
import PlaybookEngine.Proofs.Artifact.Storable
import PlaybookEngine.Proofs.Artifact.Walk
import PlaybookEngine.Proofs.Artifact.Components
import PlaybookEngine.Proofs.Artifact.Disk
import PlaybookEngine.Proofs.Artifact.Confinement
import PlaybookEngine.Proofs.Playbook.Document
import PlaybookEngine.Proofs.Engine.Tracing
import PlaybookEngine.Proofs.Workflow.Templates
import PlaybookEngine.Proofs.Playbook.Serialization
import PlaybookEngine.Proofs.Workflow.Backoff
