import NodeRollout.Agent.FileTree
import NodeRollout.Agent.Turns
import NodeRollout.Api.Server
import NodeRollout.Json.SpecForm
import NodeRollout.Main
import NodeRollout.Metrics
import NodeRollout.Reconcile
import NodeRollout.Proofs.History
import NodeRollout.Wire.Client
import NodeRollout.Wire.Server
import NodeRollout.Proofs.LabelUpdate
import NodeRollout.Proofs.Assurance
import NodeRollout.Proofs.Marking
import NodeRollout.Proofs.Ordering
import NodeRollout.Proofs.Interleaving
import NodeRollout.Proofs.Retarget
import NodeRollout.Proofs.Roster
import NodeRollout.Proofs.Progress
import NodeRollout.Proofs.Completion
import NodeRollout.Proofs.CompletionLabel
import NodeRollout.Proofs.Throttle
import NodeRollout.Proofs.Blocking
import NodeRollout.Proofs.AgentTurns
import NodeRollout.Proofs.Stamps
import NodeRollout.Proofs.StampRecords
import NodeRollout.Proofs.Framing
import NodeRollout.Proofs.JsonText
import NodeRollout.Proofs.Messages
import NodeRollout.Proofs.Connection
import NodeRollout.Proofs.Report
import NodeRollout.Proofs.ActiveUpgrade
import NodeRollout.Proofs.Writers
import NodeRollout.Proofs.DisjointWriters
import NodeRollout.Proofs.Eligibility
import NodeRollout.Proofs.MergePatch
import NodeRollout.Proofs.LabelPatch
import NodeRollout.Proofs.StoreRefinement
import NodeRollout.Proofs.Prescription
import NodeRollout.Proofs.SyncDecision
import NodeRollout.Proofs.Account
import NodeRollout.Proofs.Outcome
import NodeRollout.Proofs.WaitClock
import NodeRollout.Proofs.WaitTasks
import NodeRollout.Proofs.MarkerTarget
import NodeRollout.Proofs.Counters
import NodeRollout.Proofs.RequestForms
import NodeRollout.Proofs.SpecForms
import NodeRollout.Proofs.Sanitizing
import NodeRollout.Proofs.OsName
import NodeRollout.Proofs.StampPaths
