import JobDispatch.CommandLine
import JobDispatch.Config.Document
import JobDispatch.Config.Json
import JobDispatch.Engine
import JobDispatch.Json.Form
import JobDispatch.Json.Record
import JobDispatch.Main
import JobDispatch.Scenario.Session
import JobDispatch.Simulation
import JobDispatch.Proofs.Requests
import JobDispatch.Proofs.Pools
import JobDispatch.Proofs.Stores
import JobDispatch.Proofs.Tenure
import JobDispatch.Proofs.Orderly
import JobDispatch.Proofs.Upkeep
import JobDispatch.Proofs.Numbering
import JobDispatch.Proofs.Places
import JobDispatch.Proofs.Precedence
import JobDispatch.Proofs.Calls
import JobDispatch.Proofs.Composition
import JobDispatch.Proofs.Soundness
import JobDispatch.Proofs.Exclusion
import JobDispatch.Proofs.Lockstep
import JobDispatch.Proofs.Footprint
import JobDispatch.Proofs.Occupancy
import JobDispatch.Proofs.Operations
import JobDispatch.Proofs.Paging
import JobDispatch.Proofs.Ticks
import JobDispatch.Proofs.Sweeping
import JobDispatch.Proofs.Passes
import JobDispatch.Proofs.Placement
import JobDispatch.Proofs.Exhaustion
import JobDispatch.Proofs.Arrivals
import JobDispatch.Proofs.Agreement
import JobDispatch.Proofs.Sharing
import JobDispatch.Proofs.Errands
import JobDispatch.Proofs.Tickings
import JobDispatch.Proofs.Cycles
import JobDispatch.Proofs.Coverage
import JobDispatch.Proofs.Hindsight
import JobDispatch.Proofs.Fitness
import JobDispatch.Proofs.Retreat
import JobDispatch.Proofs.Leasing
import JobDispatch.Proofs.Takeover
import JobDispatch.Proofs.Admission
import JobDispatch.Proofs.Residuals
import JobDispatch.Proofs.Histories
import JobDispatch.Proofs.Books
import JobDispatch.Proofs.Tallies
import JobDispatch.Proofs.Ledger
import JobDispatch.Proofs.Balance
import JobDispatch.Proofs.Strands
import JobDispatch.Proofs.Alone
import JobDispatch.Proofs.Duties
import JobDispatch.Proofs.Turns
import JobDispatch.Proofs.Assigning
import JobDispatch.Proofs.Walks
import JobDispatch.Proofs.Service
import JobDispatch.Proofs.Snapshots
import JobDispatch.Proofs.Refusals
import JobDispatch.Proofs.Verdicts
import JobDispatch.Proofs.Retries
import JobDispatch.Proofs.Lineup
import JobDispatch.Proofs.Readings
import JobDispatch.Proofs.Audits
import JobDispatch.Proofs.Rankings
import JobDispatch.Proofs.Rotation
import JobDispatch.Proofs.Lasting
import JobDispatch.Proofs.Tours
import JobDispatch.Proofs.Cleanup
import JobDispatch.Proofs.Staleness
import JobDispatch.Proofs.Contacts
import JobDispatch.Proofs.Grammar
import JobDispatch.Proofs.Spelling
import JobDispatch.Proofs.Exchange
import JobDispatch.Proofs.Settings
import JobDispatch.Proofs.Documents
import JobDispatch.Proofs.Saturation
import JobDispatch.Proofs.Checkpoints
import JobDispatch.Proofs.Schedules
import JobDispatch.Proofs.Fleets
import JobDispatch.Proofs.Occasions
import JobDispatch.Proofs.Tableaus
import JobDispatch.Proofs.Rounds
import JobDispatch.Proofs.Drainage
import JobDispatch.Proofs.Sinks
