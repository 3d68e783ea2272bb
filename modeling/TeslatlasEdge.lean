import TeslatlasEdge.Lib.OrdMap
import TeslatlasEdge.Lib.Effect
import TeslatlasEdge.Lib.Call
import TeslatlasEdge.Lib.Sha256
import TeslatlasEdge.Lib.Window
import TeslatlasEdge.Lib.Codes
import TeslatlasEdge.Lib.System
import TeslatlasEdge.Lib.Rely
import TeslatlasEdge.Text
import TeslatlasEdge.Json
import TeslatlasEdge.Protocol
import TeslatlasEdge.Reference
import TeslatlasEdge.Canonical
import TeslatlasEdge.Admission
import TeslatlasEdge.Separation
import TeslatlasEdge.Interop.Python
import TeslatlasEdge.Interop.MatrixContract
import TeslatlasEdge.Interop.Evidence
import TeslatlasEdge.Storage
import TeslatlasEdge.Spool.Machine
import TeslatlasEdge.Spool.Identity
import TeslatlasEdge.Spool.Sections
import TeslatlasEdge.Spool.Calls
import TeslatlasEdge.Spool.Recover
import TeslatlasEdge.Runs
import TeslatlasEdge.Scripts
import TeslatlasEdge.Spool.Labels
import TeslatlasEdge.Spool.Effects
import TeslatlasEdge.Spool.Chains
import TeslatlasEdge.Spool.Keeping
import TeslatlasEdge.Spool.Contents
import TeslatlasEdge.Spool.Changes
import TeslatlasEdge.Spool.Coherence
import TeslatlasEdge.Spool.Completion
import TeslatlasEdge.Spool.Expiry
import TeslatlasEdge.Spool.Batches
import TeslatlasEdge.Spool.Sizes
import TeslatlasEdge.Spool.Windows
import TeslatlasEdge.Spool.Scans
import TeslatlasEdge.Spool.CallChains
import TeslatlasEdge.Spool.Working
import TeslatlasEdge.Spool.Agreement
import TeslatlasEdge.Spool.Tally
import TeslatlasEdge.Spool.Accounts
import TeslatlasEdge.Spool.Custody
import TeslatlasEdge.Spool.Legibility
import TeslatlasEdge.Spool.Backing
import TeslatlasEdge.Spool.Survival
import TeslatlasEdge.Spool.Loading
import TeslatlasEdge.Spool.Reopening
import TeslatlasEdge.Spool.Deadlines
import TeslatlasEdge.Ledger
import TeslatlasEdge.Consistency
import TeslatlasEdge.Counts
import TeslatlasEdge.Spool.Orders
import TeslatlasEdge.Retention
import TeslatlasEdge.Fidelity
import TeslatlasEdge.Delivery
import TeslatlasEdge.Spool.Removal
import TeslatlasEdge.Prefixes
import TeslatlasEdge.Acknowledgement
import TeslatlasEdge.DeliveryV1
import TeslatlasEdge.Stability
import TeslatlasEdge.Emptying
import TeslatlasEdge.Telemetry
import TeslatlasEdge.Rounds
import TeslatlasEdge.Responses
import TeslatlasEdge.Completions
import TeslatlasEdge.Protocols
import TeslatlasEdge.Repetition
import TeslatlasEdge.Restarts
import TeslatlasEdge.Spool.Latch
import TeslatlasEdge.Failures
import TeslatlasEdge.Sizing
import TeslatlasEdge.Lifetimes
import TeslatlasEdge.Budgets
import TeslatlasEdge.Credentials.Store
import TeslatlasEdge.Credentials.Reference
import TeslatlasEdge.Credentials.Validity
import TeslatlasEdge.Credentials.Acceptance
import TeslatlasEdge.FileNames
import TeslatlasEdge.Digests
import TeslatlasEdge.Migration
import TeslatlasEdge.Spool.Interference
import TeslatlasEdge.Limits
import TeslatlasEdge.Sharing
import TeslatlasEdge.Interleavings
import TeslatlasEdge.Concurrency
import TeslatlasEdge.Quarantine
import TeslatlasEdge.Services.Status
import TeslatlasEdge.Services.Http
import TeslatlasEdge.Services.Receiver
import TeslatlasEdge.Services.Delivery
import TeslatlasEdge.Services.Edge
import TeslatlasEdge.Services.Handlers
import TeslatlasEdge.Services.Visits
import TeslatlasEdge.Services.Promises
import TeslatlasEdge.Services.Bridge
import TeslatlasEdge.Services.Fleet
import TeslatlasEdge.Services.Readiness
import TeslatlasEdge.Services.Config
import TeslatlasEdge.Services.Provisioning
import TeslatlasEdge.Services.Installation
