import OutRelay.PlaneRun
import OutRelay.PlaneKeepAlive
import OutRelay.FirstMatch
import OutRelay.Policy
import OutRelay.PolicyEngine
import OutRelay.PolicyWatch
import OutRelay.GoChan
import OutRelay.ResumeMatcher
import OutRelay.PairTable
import OutRelay.Pool
import OutRelay.Handlers
import OutRelay.ModeSignal
import OutRelay.PolicyPath
import OutRelay.ResumeSplice
import OutRelay.ForwardMatcher
import OutRelay.ForwardRound
import OutRelay.DistinctAgents
import OutRelay.ForwardOwners
import OutRelay.PlaneTwins
import OutRelay.PlaneHandshake
import OutRelay.Promotion
import OutRelay.Handouts
import OutRelay.Relocation
import OutRelay.Glob
import OutRelay.PolicyScan
import OutRelay.Fleet
import OutRelay.PolicyPublish
import OutRelay.PolicyCache
import OutRelay.PlaneRelease
import OutRelay.ResumeEcho
import OutRelay.ControlStream
import OutRelay.Drain
import OutRelay.PlaneWrap
import OutRelay.LastWrite
import OutRelay.MigratedTable
import OutRelay.PromotionDeadline
import OutRelay.PlaneRooms
import OutRelay.Custody
import OutRelay.PoolCalls
import OutRelay.CopyLoop
import OutRelay.Splice
import OutRelay.Goroutines
import OutRelay.Ledger
import OutRelay.HandlerRelease
import OutRelay.HostPort
import OutRelay.Loop
import OutRelay.Connection
import OutRelay.ConnectionPaths
import OutRelay.Admission
import OutRelay.ControlRouting
import OutRelay.StreamContacts
import OutRelay.RelayNetwork
import OutRelay.Outbox
import OutRelay.Audit
import OutRelay.PolicySettle
import OutRelay.PolicyFeed
import OutRelay.Ticker
import OutRelay.PlaneCollector
import OutRelay.SpliceChain
import OutRelay.StreamVerdicts
import OutRelay.PolicyRoute
import OutRelay.NetworkVerdicts
import OutRelay.EndToEnd
