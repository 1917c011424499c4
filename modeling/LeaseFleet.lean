import LeaseFleet.Main
import LeaseFleet.Simulation.Signal
import LeaseFleet.Sketch.World
import LeaseFleet.Store.Memory
import LeaseFleet.Utilization.Quota
import LeaseFleet.View.Settings
import LeaseFleet.Proofs.Coordinator.LivingOwners
import LeaseFleet.Proofs.Fleet.CrossingWrites
import LeaseFleet.Proofs.Worker.Lifetime
import LeaseFleet.Proofs.Sync.ParentLeases
import LeaseFleet.Proofs.Fleet.RecreatedLeases
import LeaseFleet.Proofs.Fleet.AdoptionAndStop
import LeaseFleet.Proofs.Sync.PassRuns
import LeaseFleet.Proofs.Fleet.LeaseUpdates
import LeaseFleet.Proofs.Fleet.WordCounters
import LeaseFleet.Proofs.Worker.ProcessRounds
import LeaseFleet.Proofs.Interleaving.MachineRuns
import LeaseFleet.Proofs.Consumer.StaffedFleets
import LeaseFleet.Proofs.Store.InMemoryMap
import LeaseFleet.Proofs.Fleet.TokenTenure
import LeaseFleet.Proofs.Stream.RoundTrips
import LeaseFleet.Proofs.Stream.LeaseKeys
import LeaseFleet.Proofs.Assignment.CountPlans
import LeaseFleet.Proofs.Assignment.CountPasses
import LeaseFleet.Proofs.Assignment.Convergence
import LeaseFleet.Proofs.Assignment.PlannedMoves
import LeaseFleet.Proofs.Assignment.ContestedMoves
import LeaseFleet.Proofs.Sync.PassSets
import LeaseFleet.Proofs.Assignment.GreedySelection
import LeaseFleet.Proofs.Assignment.PlanInvariance
import LeaseFleet.Proofs.Coordinator.TakingCycle
import LeaseFleet.Proofs.Coordinator.RenewalCycle
import LeaseFleet.Proofs.Json.Rereading
import LeaseFleet.Proofs.Store.SavedTables
import LeaseFleet.Proofs.Sync.TrackedStreams
import LeaseFleet.Proofs.Sync.PassOutcomes
import LeaseFleet.Proofs.Sync.StreamSeparation
import LeaseFleet.Proofs.Fleet.ShutdownHandback
import LeaseFleet.Proofs.Assignment.EngineBooks
import LeaseFleet.Proofs.Utilization.SampleAccounts
import LeaseFleet.Proofs.Worker.TableWait
import LeaseFleet.Proofs.Stream.IdentifierTexts
import LeaseFleet.Proofs.Coordinator.Leadership
import LeaseFleet.Proofs.Consumer.ConsumerPool
