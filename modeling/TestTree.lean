import TestTree.Outcome
import TestTree.Suite.Basic
import TestTree.Suite.Served
import TestTree.Suite.SettingsFile
import TestTree.Script.Body
import TestTree.Cleanup.Nested
import TestTree.World.Session
import TestTree.Work.Yard
import TestTree.Proofs.Frames
import TestTree.Proofs.Declarations
import TestTree.Proofs.Plan
import TestTree.Proofs.Growth
import TestTree.Proofs.PlanVisit
import TestTree.Proofs.PlanDiscovery
import TestTree.Proofs.ContextOrder
import TestTree.Proofs.PlanReplay
import TestTree.Proofs.Uses
import TestTree.Proofs.BodiesOnce
import TestTree.Proofs.Locality
import TestTree.Proofs.DiscoveryAlike
import TestTree.Proofs.Ownership
import TestTree.Proofs.UnitRuns
import TestTree.Proofs.Independence
import TestTree.Proofs.PassBound
import TestTree.Proofs.History
import TestTree.Proofs.Duplicates
import TestTree.Proofs.Ledger
import TestTree.Proofs.Custody
import TestTree.Proofs.Moments
import TestTree.Proofs.PassLedger
import TestTree.Proofs.PassCustody
import TestTree.Proofs.Sessions
import TestTree.Proofs.Cancelling
import TestTree.Proofs.PassCount
import TestTree.Proofs.Identity
import TestTree.Proofs.Entrances
import TestTree.Proofs.FailedContexts
import TestTree.Proofs.PlanSetups
import TestTree.Proofs.SetupCount
import TestTree.Proofs.Footsteps
import TestTree.Proofs.AfterSuite
import TestTree.Proofs.Turns
import TestTree.Proofs.OneShot
import TestTree.Proofs.Protocol
import TestTree.Proofs.Queueing
import TestTree.Proofs.StartPolicies
import TestTree.Proofs.Settling
import TestTree.Proofs.Counters
import TestTree.Proofs.PoolService
import TestTree.Proofs.Gathering
import TestTree.Proofs.Aborted
import TestTree.Proofs.Incidents
import TestTree.Proofs.SuiteDiscovery
import TestTree.Proofs.Answers
import TestTree.Proofs.ServedDiscovery
import TestTree.Proofs.SuiteRuns
import TestTree.Proofs.Sweeps
import TestTree.Proofs.Registry
import TestTree.Proofs.UnitVerdict
import TestTree.Proofs.FailedSweeps
import TestTree.Proofs.Moves
import TestTree.Proofs.Waiting
import TestTree.Proofs.ContextIdentity
import TestTree.Proofs.SettingsFile
import TestTree.Proofs.Interning
import TestTree.Proofs.Arrivals
