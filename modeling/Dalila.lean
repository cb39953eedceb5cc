import Dalila.Node
import Dalila.Wire
import Dalila.LocalNode
import Dalila.Lib.Register
import Dalila.State
import Dalila.StateTheorems
import Dalila.MergeOrder
import Dalila.Lib.Program
import Dalila.Dissemination
import Dalila.Udp
import Dalila.Op
import Dalila.Programs.Udp
import Dalila.Programs.Tcp
import Dalila.Programs.Detector
import Dalila.Lib.History
import Dalila.Cluster
import Dalila.OpTheorems
import Dalila.Knowledge
import Dalila.Tasks
import Dalila.Spread
import Dalila.Invariants
import Dalila.Vouching
import Dalila.Authority
import Dalila.Corpse
import Dalila.Works
import Dalila.SyncRound
import Dalila.Rounds
import Dalila.Repair
import Dalila.Detection
import Dalila.Crash
import Dalila.Join
import Dalila.Turn
import Dalila.Pair
import Dalila.Partition
import Dalila.Encoding
import Dalila.Auth
import Dalila.Frames
import Dalila.Lib.Stream
import Dalila.Framing
import Dalila.Crossing
import Dalila.Deeds
import Dalila.Conduct
import Dalila.Datagram
import Dalila.Answers
import Dalila.MergeRuns
import Dalila.Refutation
import Dalila.Reaping
import Dalila.Rotation
import Dalila.Forwarding
import Dalila.Lib.Pool
import Dalila.Overtaking
import Dalila.Repertoire
import Dalila.Storm
import Dalila.Evidence
import Dalila.Lib.Turns
import Dalila.Sends
import Dalila.Draining
import Dalila.Lib.Walk
import Dalila.Proxy
import Dalila.Marking
import Dalila.Lib.Simulation
import Dalila.Transport
import Dalila.Manner
import Dalila.FrameSizes
import Dalila.TransportTheorems
import Dalila.Lib.Ledger
import Dalila.Traffic
import Dalila.Incarnations
import Dalila.Backends
import Dalila.Replies
import Dalila.Members
import Dalila.Onlookers
import Dalila.Lib.Transcript
import Dalila.Sessions
import Dalila.Balance
import Dalila.Lib.Bracket
import Dalila.Footprint
import Dalila.Forming
import Dalila.Admission
import Dalila.Lib.Monitor
import Dalila.Startup
import Dalila.Lifecycle
import Dalila.Agreement
import Dalila.Unanswered
import Dalila.Timely
