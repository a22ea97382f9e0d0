import Danus.Lib.Tx
import Danus.Lib.Rows
import Danus.Lib.Machine
import Danus.Lib.Checks
import Danus.Lib.Dict
import Danus.Lib.Records
import Danus.Lib.Entries
import Danus.Lib.Retention
import Danus.Lib.Text
import Danus.Lib.Sha256
import Danus.Lib.Json
import Danus.Lib.Utf8
import Danus.Lib.JsonRead
import Danus.Lib.JsonScan
import Danus.Lib.JsonRoundTrip
import Danus.Lib.JsonText
import Danus.Lib.JsonBalance
import Danus.Lib.Lines
import Danus.Lib.JsonPieces
import Danus.Lib.Chains
import Danus.Lib.Sorting
import Danus.Coordination.Policy
import Danus.Coordination.Errors
import Danus.Coordination.Schema
import Danus.Coordination.Tasks
import Danus.Coordination.Reviews
import Danus.Coordination.Rounds
import Danus.Coordination.Evidence
import Danus.Coordination.Candidates
import Danus.Coordination.Store
import Danus.Coordination.Coherence
import Danus.Coordination.Protocol
import Danus.Coordination.Turns
import Danus.Coordination.Steps
import Danus.Coordination.TaskRules
import Danus.Coordination.ReviewRules
import Danus.Coordination.RoundRules
import Danus.Coordination.EvidenceRules
import Danus.Coordination.OwnerRules
import Danus.Coordination.CandidateRules
import Danus.Coordination.StoreRules
import Danus.Coordination.Audit
import Danus.Coordination.Phases
import Danus.Coordination.Generations
import Danus.Coordination.Receipts
import Danus.Coordination.Provenance
import Danus.Coordination.Admissions
import Danus.Coordination.SlotLife
import Danus.Coordination.Assignments
import Danus.Coordination.Recommendations
import Danus.Verify.Scheduler
import Danus.Verify.Flights
import Danus.Verify.Moves
import Danus.Verify.Soundness
import Danus.Verify.Coalescing
import Danus.Verify.Invocations
import Danus.Verify.Guarantees
import Danus.Verify.Cache
import Danus.Verify.Accounting
import Danus.Core.GlobalMemory
import Danus.Core.Channels
import Danus.Core.Retrieval
import Danus.Core.TornLines
import Danus.HotJoin.Ledger
import Danus.HotJoin.Broker
import Danus.HotJoin.ExactTurn
import Danus.HotJoin.Routes
import Danus.HotJoin.Stranded
import Danus.HotJoin.AppServer
import Danus.HotJoin.Demultiplexing
import Danus.HotJoin.PaidTurns
import Danus.HotJoin.PaidIntents
import Danus.FactGraph.Fact
import Danus.FactGraph.Format
import Danus.FactGraph.RoundTrip
import Danus.Integrations.GatedSearch
import Danus.Integrations.GateSafety
import Danus.Strategy.BrowserLedger
import Danus.Strategy.BrowserAdvisor
import Danus.Strategy.AdvisorRules
import Danus.Strategy.AdvisorSafety
import Danus.Strategy.AdvisorRuns
import Danus.Strategy.AdvisorCrash
import Danus.Strategy.AdvisorDeaths
import Danus.Strategy.AdvisorWrites
import Danus.Strategy.AdvisorEvidence
import Danus.Strategy.AdvisorLineage
import Danus.Strategy.MemoryScan
import Danus.Strategy.RawOutput
import Danus.Gateway.FactSubmit
import Danus.Execution.OwnedChild
import Danus.Execution.GroupFence
import Danus.Execution.WorkerLoop
import Danus.Execution.PaidLaunches
import Danus.WritePaper.VerifyLedger
import Danus.WritePaper.PaperMath
import Danus.WritePaper.ReferenceLedger
import Danus.WritePaper.LedgerRows
import Danus.WritePaper.LedgerVerdicts
import Danus.Orchestration.ResolveRecommendation
import Danus.Observability.App
import Danus.Observability.FactPages
import Danus.Observability.Depths
import Danus.Observability.GraphPages
import Danus.Observability.ChannelPages
import Danus.Observability.Exactness
import Danus.WritePaper.FactOrder
import Danus.WritePaper.ReviserPatch
import Danus.Verify.Telemetry
import Danus.Lib.Joined
import Danus.Authoring.Common
import Danus.WritePaper.SectionPlan
import Danus.WritePaper.Chunked
import Danus.FactGraph.ExternalRefs
import Danus.HumanSummary.Bundle
import Danus.Strategy.AdvisorReceipts
import Danus.Strategy.ConsultUsage
import Danus.Strategy.SpendLedger
import Danus.Lib.Greedy
import Danus.HumanSummary.ReportOrder
import Danus.FactGraph.Bibliography
import Danus.WritePaper.FinalizedTargets
import Danus.Lib.Occurrences
import Danus.Lib.JsonSorted
import Danus.Lib.JsonEscaped
import Danus.Verify.Prompt
import Danus.WritePaper.VerdictTexts
import Danus.FactGraph.Revocation
import Danus.Execution.RoleSpecs
import Danus.Integrations.SearchFailures
import Danus.HotJoin.TelemetryAccounts
import Danus.HotJoin.SettledTurns
import Danus.HotJoin.Reconciliation
import Danus.Lib.JsonDistinct
import Danus.FactGraph.Cascades
import Danus.Coordination.Archive
import Danus.Lib.Layers
import Danus.FactGraph.Definitions
import Danus.FactGraph.Contexts
import Danus.FactGraph.Additions
import Danus.FactGraph.Histories
