import Dalila.Programs.Tcp
import Dalila.Programs.Detector
import Dalila.Lib.History

/-!
# The cluster

Any number of processes, each with its tasks, over a network that may lose, duplicate,
delay and reorder messages. A step is one operation of one task, or one of the moments where
a loop of the source comes round. A global clock stands for the timers of all of them.
-/

namespace Dalila

/-! ## Tasks -/

/-- What a task is running. The detector's loop has one kind for each part of its body. -/
inductive Kind where
  | datagram (src : SocketAddr) (body : UdpBody)
  | relay (relay : Relay)
  | serve (conn : Conn) (body : TcpBody)
  | sync
  | health (ready : Bool)
  | join (seeds : List SocketAddr)
  | leaving
  | announcing
  | choosing (order : List NodeId)
  | probing (target : Member)
  | judging (target : Member) (acked : Bool)
  | sweeping
  | reaping

@[reducible] def Kind.Out : Kind → Type
  | .datagram _ _ => Option Relay
  | .relay _ => Unit
  | .serve _ _ => Unit
  | .sync => Unit
  | .health _ => Unit
  | .join _ => Bool
  | .leaving => Unit
  | .announcing => ℕ
  | .choosing _ => Option Member × List NodeId
  | .probing _ => Bool
  | .judging _ _ => Unit
  | .sweeping => Unit
  | .reaping => Unit

/-- The program a kind of task starts with. -/
def Kind.start (node : LocalNode) : (kind : Kind) → Prog kind.Out
  | .datagram src body => handleDatagram node src body
  | .relay (seq, target, asker) => handlePingReq node seq target asker
  | .serve conn body => Dalila.serve node conn body
  | .sync => syncTurn node
  | .health ready => healthTurn node ready
  | .join seeds => Dalila.join node seeds
  | .leaving => Op.call .leave
  | .announcing => announceLeave node
  | .choosing order => nextTarget order
  | .probing target => probe node target
  | .judging target acked => handleResult node target acked
  | .sweeping => sweepSuspects node
  | .reaping => reapDead

/-- The parts of the detector's loop. -/
def Kind.detects : Kind → Bool
  | .choosing _ | .probing _ | .judging _ _ | .sweeping | .reaping => true
  | _ => false

/-- The kinds that wait for somebody else's message. -/
def Kind.waits : Kind → Bool
  | .relay _ | .sync | .join _ | .probing _ => true
  | _ => false

structure Task where
  kind : Kind
  prog : Prog kind.Out

def Task.start (node : LocalNode) (kind : Kind) : Task :=
  ⟨kind, kind.start node⟩

/-- Who runs a task: the main function, one of its loops, or a task one of them spawned. -/
inductive Slot where
  | main
  | udp
  | sync
  | health
  | detector
  | spawned (n : ℕ)
deriving DecidableEq, Repr

/-! ## Processes -/

structure Process where
  node : LocalNode
  shared : Shared
  tasks : Slot → Option Task
  /-- What is left of the detector's shuffle. -/
  order : List NodeId
  /-- The join is over: the detector and the sync loop run. -/
  serving : Bool
  /-- The loops have been told to stop. -/
  aborted : Bool
  stopped : Bool

namespace Process

def set (p : Process) (slot : Slot) (task : Option Task) : Process :=
  { p with tasks := Function.update p.tasks slot task }

/-- A process as `execute` starts it. Without seeds there is nothing to join. -/
def new (node : LocalNode) (seeds : List SocketAddr) : Process where
  node := node
  shared := .new
  tasks := fun slot =>
    if slot = .main ∧ seeds ≠ [] then some (Task.start node (.join seeds)) else none
  order := []
  serving := seeds = []
  aborted := false
  stopped := false

/-- What `execute` checks before it starts anything. -/
def mayStart (node : LocalNode) : Prop :=
  node.addr.ip.isUnspecified = false ∧ checkTags node.tags = .ok ()

/-- The turns a loop may start by itself: a tick of its timer, or the signal to shut down. -/
inductive Begins (p : Process) : Slot → Kind → Prop where
  | sync (h : p.serving = true) : Begins p .sync .sync
  | detector (h : p.serving = true) : Begins p .detector (.choosing p.order)
  | health (ready : Bool) : Begins p .health (.health ready)
  | shutdown (h : p.serving = true) : Begins p .main .leaving

/-- What comes after a task has returned. `free` names the task it may spawn. -/
def finish (p : Process) (slot : Slot) (free : ℕ) : (kind : Kind) → kind.Out → Process
  | .datagram _ _, relay =>
    match relay with
    | some relay => (p.set slot none).set (.spawned free) (some (Task.start p.node (.relay relay)))
    | none => p.set slot none
  | .relay _, _ => p.set slot none
  | .serve _ _, _ => p.set slot none
  | .sync, _ => p.set slot none
  | .health _, _ => p.set slot none
  -- none of the seeds accepted the join: the process ends
  | .join _, joined =>
    if joined then { p.set slot none with serving := true } else { p with stopped := true }
  | .leaving, _ => { p.set slot (some (Task.start p.node .announcing)) with aborted := true }
  | .announcing, _ => { p with stopped := true }
  | .choosing _, (some target, order) =>
    { p.set slot (some (Task.start p.node (.probing target))) with order }
  | .choosing _, (none, order) =>
    { p.set slot (some (Task.start p.node .sweeping)) with order }
  | .probing target, acked => p.set slot (some (Task.start p.node (.judging target acked)))
  | .judging _ _, _ => p.set slot (some (Task.start p.node .sweeping))
  | .sweeping, _ => p.set slot (some (Task.start p.node .reaping))
  | .reaping, _ => p.set slot none

end Process

/-! ## Steps -/

structure Cluster where
  clock : Instant
  procs : NodeId → Option Process
  net : List Packet

def Cluster.empty : Cluster where
  clock := 0
  procs _ := none
  net := []

def Cluster.setProc (c : Cluster) (q : NodeId) (p : Process) : Cluster :=
  { c with procs := Function.update c.procs q (some p) }

inductive Label where
  | tick (elapsed : ℕ)
  | start (node : LocalNode) (seeds : List SocketAddr)
  | lose (packet : Packet)
  | duplicate (packet : Packet)
  | query (conn : Conn)
  | begins (q : NodeId) (slot : Slot) (kind : Kind)
  | receive (q : NodeId) (src : SocketAddr) (body : UdpBody)
  | accept (q : NodeId) (conn : Conn) (body : TcpBody)
  | op (q : NodeId) (slot : Slot) (kind : Kind) (o : Op) (r : o.Res)
  | finish (q : NodeId) (slot : Slot) (kind : Kind) (out : kind.Out)
  | cancel (q : NodeId) (slot : Slot)
  | stop (q : NodeId)

inductive Step : Cluster → Label → Cluster → Prop where
  /-- Time passes. -/
  | tick (c : Cluster) (elapsed : ℕ) :
      Step c (.tick elapsed) { c with clock := c.clock + elapsed }
  /-- A new process, with an id of its own. -/
  | start (c : Cluster) (node : LocalNode) (seeds : List SocketAddr)
      (hnew : c.procs node.id = none) (hmay : Process.mayStart node) :
      Step c (.start node seeds) (c.setProc node.id (.new node seeds))
  | lose (c : Cluster) (packet : Packet) (hnet : packet ∈ c.net) :
      Step c (.lose packet) { c with net := c.net.erase packet }
  | duplicate (c : Cluster) (packet : Packet) (hnet : packet ∈ c.net) :
      Step c (.duplicate packet) { c with net := packet :: c.net }
  /-- Somebody with the key runs `dalila members`. -/
  | query (c : Cluster) (conn : Conn) (hconn : conn.client = none) :
      Step c (.query conn) { c with net := .request conn .membersRequest :: c.net }
  /-- A loop comes round. -/
  | begins (c : Cluster) (q : NodeId) (p : Process) (slot : Slot) (kind : Kind)
      (hp : c.procs q = some p) (hstopped : p.stopped = false) (haborted : p.aborted = false)
      (hidle : p.tasks slot = none) (h : p.Begins slot kind) :
      Step c (.begins q slot kind) (c.setProc q (p.set slot (some (Task.start p.node kind))))
  /-- The receive loop gets a datagram. -/
  | receive (c : Cluster) (q : NodeId) (p : Process) (src : SocketAddr) (body : UdpBody)
      (hp : c.procs q = some p) (hstopped : p.stopped = false) (haborted : p.aborted = false)
      (hidle : p.tasks .udp = none) (hnet : .udp src p.node.addr body ∈ c.net) :
      Step c (.receive q src body)
        { c.setProc q (p.set .udp (some (Task.start p.node (.datagram src body)))) with
          net := c.net.erase (.udp src p.node.addr body) }
  /-- The accept loop gets a request, in a task of its own. -/
  | accept (c : Cluster) (q : NodeId) (p : Process) (n : ℕ) (conn : Conn) (body : TcpBody)
      (hp : c.procs q = some p) (hstopped : p.stopped = false) (haborted : p.aborted = false)
      (hidle : p.tasks (.spawned n) = none) (hserver : conn.server = p.node.addr)
      (hnet : .request conn body ∈ c.net) :
      Step c (.accept q conn body)
        { c.setProc q (p.set (.spawned n) (some (Task.start p.node (.serve conn body)))) with
          net := c.net.erase (.request conn body) }
  /-- A task runs its next operation. -/
  | op (c : Cluster) (q : NodeId) (p : Process) (slot : Slot) (kind : Kind) (o : Op)
      (next : o.Res → Prog kind.Out) (r : o.Res) (shared : Shared) (net : List Packet)
      (hp : c.procs q = some p) (hstopped : p.stopped = false)
      (htask : p.tasks slot = some ⟨kind, .step o next⟩)
      (h : o.Run p.node c.clock ⟨p.shared, c.net⟩ r ⟨shared, net⟩) :
      Step c (.op q slot kind o r)
        { c.setProc q ({ p with shared := shared }.set slot (some ⟨kind, next r⟩)) with net := net }
  /-- A task has returned. -/
  | finish (c : Cluster) (q : NodeId) (p : Process) (slot : Slot) (kind : Kind) (out : kind.Out)
      (free : ℕ) (hp : c.procs q = some p) (hstopped : p.stopped = false)
      (htask : p.tasks slot = some ⟨kind, .ret out⟩) (hfree : p.tasks (.spawned free) = none) :
      Step c (.finish q slot kind out) (c.setProc q (p.finish slot free kind out))
  /-- An aborted loop is dropped. What it spawned is not reached. -/
  | cancel (c : Cluster) (q : NodeId) (p : Process) (slot : Slot) (hp : c.procs q = some p)
      (hstopped : p.stopped = false) (haborted : p.aborted = true)
      (hslot : slot = .udp ∨ slot = .sync ∨ slot = .health ∨ slot = .detector) :
      Step c (.cancel q slot) (c.setProc q (p.set slot none))
  /-- The process ends, whatever it was doing. -/
  | stop (c : Cluster) (q : NodeId) (p : Process) (hp : c.procs q = some p) :
      Step c (.stop q) (c.setProc q { p with stopped := true })

abbrev Trace := History Cluster Label

/-- A run of the cluster from nothing. -/
abbrev Run (h : Trace) : Prop := History.IsRun Step (fun c => c = .empty) h

/-- `h'` is `h` after some more steps. -/
abbrev Later (h h' : Trace) : Prop := History.Extends Step h h'

/-- `h'` is `h` after some more steps, all of them among `ok`. -/
abbrev LaterBy (ok : Label → Prop) (h h' : Trace) : Prop :=
  History.Extends (fun c l c' => Step c l c' ∧ ok l) h h'

/-- `q` drops its entry for `id`. -/
def Label.reaps (q id : NodeId) : Label → Prop
  | .op q' _ _ (.remove ids) _ => q' = q ∧ id ∈ ids
  | _ => False

/-! ## Records -/

/-- What `handle_leave` takes a leave for. -/
def WireIdentity.intoLeave (sender : WireIdentity) : WireMember :=
  { sender.intoMember with state := .dead }

def UdpBody.sender : UdpBody → WireIdentity
  | .ping _ sender _ => sender
  | .ack _ sender _ => sender
  | .pingReq _ sender _ _ => sender
  | .pingReqAck _ sender _ _ => sender
  | .leave sender => sender

/-- Only a request for the members comes without one. -/
def TcpBody.sender : TcpBody → Option WireIdentity
  | .joinRequest sender => some sender
  | .joinResponse sender _ => some sender
  | .membersRequest => none
  | .membersResponse sender _ => some sender
  | .syncRequest sender _ => some sender
  | .syncResponse sender _ => some sender

/-- The records of a datagram: who sent it, and the gossip on it. -/
def UdpBody.records : UdpBody → List WireMember
  | .ping _ sender gossip => sender.intoMember :: gossip
  | .ack _ sender gossip => sender.intoMember :: gossip
  | .pingReq _ sender _ gossip => sender.intoMember :: gossip
  | .pingReqAck _ sender _ gossip => sender.intoMember :: gossip
  | .leave sender => [sender.intoLeave]

/-- The records of a frame: who sent it, and the table it carries. -/
def TcpBody.records : TcpBody → List WireMember
  | .joinRequest sender => [sender.intoMember]
  | .joinResponse sender members => sender.intoMember :: members
  | .membersRequest => []
  | .membersResponse sender members => sender.intoMember :: members
  | .syncRequest sender members => sender.intoMember :: members
  | .syncResponse sender members => sender.intoMember :: members

def Packet.records : Packet → List WireMember
  | .udp _ _ body => body.records
  | .request _ body => body.records
  | .response _ body => body.records

/-- Every record there is: the entries of the tables, the rumors in the queues, and what
the messages in flight say. -/
inductive Cluster.Says (c : Cluster) : WireMember → Prop where
  | entry (q : NodeId) (p : Process) (m : Member) (hp : c.procs q = some p)
      (hm : m ∈ p.shared.table.members) : Says c (.new m)
  | pending (q : NodeId) (p : Process) (pending : Pending) (hp : c.procs q = some p)
      (hpending : pending ∈ p.shared.queue) : Says c pending.rumor
  | message (packet : Packet) (r : WireMember) (hnet : packet ∈ c.net)
      (hr : r ∈ packet.records) : Says c r

end Dalila
