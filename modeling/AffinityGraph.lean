import AffinityGraph.ActiveEffective
import AffinityGraph.Actuator
import AffinityGraph.ActuatorRestore
import AffinityGraph.AppMasks
import AffinityGraph.Backend
import AffinityGraph.BatchLoads
import AffinityGraph.BpfAggregates
import AffinityGraph.BpfHealth
import AffinityGraph.BpfProgram
import AffinityGraph.BpfRecords
import AffinityGraph.BpfRing
import AffinityGraph.CalibrationFile
import AffinityGraph.ChangeFeed
import AffinityGraph.ClosedLoop
import AffinityGraph.Collector
import AffinityGraph.CommitExact
import AffinityGraph.Components
import AffinityGraph.Confirmations
import AffinityGraph.Cooldown
import AffinityGraph.Core
import AffinityGraph.CppText
import AffinityGraph.CpuList
import AffinityGraph.Decimal
import AffinityGraph.Deferral
import AffinityGraph.Departed
import AffinityGraph.Descent
import AffinityGraph.Domain
import AffinityGraph.DomainDwell
import AffinityGraph.DomainMasks
import AffinityGraph.DomainNames
import AffinityGraph.DomainPartition
import AffinityGraph.DomainPlan
import AffinityGraph.DomainRuns
import AffinityGraph.DomainSolver
import AffinityGraph.DomainTrace
import AffinityGraph.DomainTwins
import AffinityGraph.DwellEvidence
import AffinityGraph.Emergencies
import AffinityGraph.Eviction
import AffinityGraph.Evidence
import AffinityGraph.ExactGains
import AffinityGraph.FamilyComponents
import AffinityGraph.FamilyKeys
import AffinityGraph.FamilyTotals
import AffinityGraph.Forest
import AffinityGraph.FreshPlan
import AffinityGraph.Gates
import AffinityGraph.Graph
import AffinityGraph.GraphDelta
import AffinityGraph.GraphRuns
import AffinityGraph.Greedy
import AffinityGraph.Handover
import AffinityGraph.HealthClock
import AffinityGraph.History
import AffinityGraph.Hotspots
import AffinityGraph.Incremental
import AffinityGraph.IncrementalInv
import AffinityGraph.IncrementalReach
import AffinityGraph.InitialPinning
import AffinityGraph.Isolation
import AffinityGraph.Json
import AffinityGraph.Layout
import AffinityGraph.LoadConfig
import AffinityGraph.LogReads
import AffinityGraph.LogRuns
import AffinityGraph.LogText
import AffinityGraph.ManagedThreads
import AffinityGraph.MapDrain
import AffinityGraph.NodeChoices
import AffinityGraph.NodeFloors
import AffinityGraph.NodePlanning
import AffinityGraph.NodeStreaks
import AffinityGraph.Optimizing
import AffinityGraph.OrdMap
import AffinityGraph.Pending
import AffinityGraph.PendingMerges
import AffinityGraph.PinningRounds
import AffinityGraph.Placement
import AffinityGraph.PlanSound
import AffinityGraph.Profile
import AffinityGraph.ProfileActions
import AffinityGraph.ProfileMasks
import AffinityGraph.ProfileRuns
import AffinityGraph.ProfileText
import AffinityGraph.ProposalForm
import AffinityGraph.Ranges
import AffinityGraph.Ranking
import AffinityGraph.RelationCost
import AffinityGraph.RelationWindow
import AffinityGraph.Replan
import AffinityGraph.ReplayRefine
import AffinityGraph.ReplayRuns
import AffinityGraph.ReplaySequence
import AffinityGraph.ReplaySlots
import AffinityGraph.ReplaySolver
import AffinityGraph.RotatingScan
import AffinityGraph.Run
import AffinityGraph.Runtime
import AffinityGraph.RuntimeLog
import AffinityGraph.SampledMasks
import AffinityGraph.Seating
import AffinityGraph.SharedMap
import AffinityGraph.ShrinkDwell
import AffinityGraph.SlotCap
import AffinityGraph.Solve
import AffinityGraph.StrategyFile
import AffinityGraph.Streak
import AffinityGraph.Streams
import AffinityGraph.Supervisor
import AffinityGraph.TidReuse
import AffinityGraph.Transactions
import AffinityGraph.WindowProposals
import AffinityGraph.World
import AffinityGraph.WorldMoves
import AffinityGraph.Writes
