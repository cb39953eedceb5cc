import Dalila.LocalNode
import Dalila.State
import Dalila.Dissemination
import Dalila.Udp
import Dalila.Lib.Program

/-!
# The critical sections of one process

Every task of a process works on the same shared state, and each of these operations is one
lock held, or one system call. What lies between two of them can interleave with anything.
-/

namespace Dalila

/-! ## The network -/

/-- A TCP connection, named by the process that opened it. `none` is a client outside the
cluster. -/
structure Conn where
  client : Option NodeId
  number : ℕ
  server : SocketAddr
deriving DecidableEq, Repr

/-- A message on its way. -/
inductive Packet where
  | udp (src dst : SocketAddr) (body : UdpBody)
  | request (conn : Conn) (body : TcpBody)
  | response (conn : Conn) (body : TcpBody)
deriving DecidableEq, Repr

/-! ## Shared state -/

/-- What the tasks of one process share. -/
structure Shared where
  guarded : Guarded
  table : MemberTable
  queue : GossipQueue
  pending : PendingAcks
  /-- Connections opened so far. -/
  conns : ℕ

def Shared.new : Shared where
  guarded := .new
  table := .new
  queue := .new
  pending := .new
  conns := 0

/-- What an operation can reach: the process's shared state and the network. -/
structure World where
  shared : Shared
  net : List Packet

/-! ## Operations -/

inductive Op where
  -- the incarnation's lock
  | incarnation
  | current
  | refute (rumored : Incarnation)
  | leave
  | setReady (ready : Bool)
  -- the table's lock
  | merge (rumor : WireMember) (me : NodeId)
  | get (id : NodeId)
  | len
  | snapshot
  | shuffledIds
  | relayCandidates (exclude : NodeId) (count : ℕ)
  | randomMember
  | membersWhere (f : Instant → Member → Bool)
  | remove (ids : List NodeId)
  -- the queue's lock
  | push (rumor : WireMember) (clusterSize : ℕ)
  | take
  -- the probes in flight
  | fetchSeq
  | register (seq : UInt32) (subject : NodeId)
  | forget (seq : UInt32)
  | resolve (seq : UInt32) (subject : NodeId)
  /-- `timeout(.., ack).await`: has a value arrived on the channel by the deadline? -/
  | acked (channel : Channel) (deadline : Instant)
  -- the clock and the sockets
  | now
  | sendUdp (target : SocketAddr) (body : UdpBody)
  | connect (addr : SocketAddr)
  | writeRequest (conn : Conn) (body : TcpBody)
  | readFrame (conn : Conn)
  | writeResponse (conn : Conn) (body : TcpBody)

@[reducible] def Op.Res : Op → Type
  | .incarnation => Incarnation
  | .current => Incarnation × Bool
  | .refute _ => Option Incarnation
  | .leave => Unit
  | .setReady _ => Bool
  | .merge _ _ => MergeOutcome
  | .get _ => Option Member
  | .len => ℕ
  | .snapshot => List Member
  | .shuffledIds => List NodeId
  | .relayCandidates _ _ => List Member
  | .randomMember => Option Member
  | .membersWhere _ => List Member
  | .remove _ => Unit
  | .push _ _ => Unit
  | .take => List WireMember
  | .fetchSeq => UInt32
  | .register _ _ => Channel
  | .forget _ => Unit
  | .resolve _ _ => Unit
  | .acked _ _ => Bool
  | .now => Instant
  | .sendUdp _ _ => Bool
  | .connect _ => Option Conn
  | .writeRequest _ _ => Bool
  | .readFrame _ => Option TcpBody
  | .writeResponse _ _ => Bool

/-- Waits on somebody else's message. Every other operation returns at once. -/
def Op.awaits : Op → Bool
  | .acked _ _ => true
  | .readFrame _ => true
  | _ => false

/-- What an operation of `node` does at time `now`. Where the source draws at random or
depends on the network, every result it can have is allowed. A send that succeeds has handed
the message to the network, which may still lose it. -/
def Op.Run (node : LocalNode) (now : Instant) : (o : Op) → World → o.Res → World → Prop
  | .incarnation, w, r, w' => r = w.shared.guarded.incarnation ∧ w' = w
  | .current, w, r, w' => r = w.shared.guarded.current ∧ w' = w
  | .refute rumored, w, r, w' =>
    r = (w.shared.guarded.refute rumored).1 ∧
      w' = { w with shared.guarded := (w.shared.guarded.refute rumored).2 }
  | .leave, w, _, w' => w' = { w with shared.guarded := w.shared.guarded.leave }
  | .setReady ready, w, r, w' =>
    r = (w.shared.guarded.setReady ready).1 ∧
      w' = { w with shared.guarded := (w.shared.guarded.setReady ready).2 }
  | .merge rumor me, w, r, w' =>
    r = (w.shared.table.merge now rumor me).1 ∧
      w' = { w with shared.table := (w.shared.table.merge now rumor me).2 }
  | .get id, w, r, w' => r = w.shared.table.get id ∧ w' = w
  | .len, w, r, w' => r = w.shared.table.len ∧ w' = w
  | .snapshot, w, r, w' => r.Perm w.shared.table.members ∧ w' = w
  | .shuffledIds, w, r, w' => r.Perm w.shared.table.ids ∧ w' = w
  | .relayCandidates exclude count, w, r, w' =>
    (∃ order : List Member, order.Perm (w.shared.table.relayPool exclude) ∧ r = order.take count) ∧
      w' = w
  | .randomMember, w, r, w' =>
    (match r with
      | none => w.shared.table.partnerPool = []
      | some member => member ∈ w.shared.table.partnerPool) ∧ w' = w
  | .membersWhere f, w, r, w' => r.Perm (w.shared.table.membersWhere (f now)) ∧ w' = w
  | .remove ids, w, _, w' => w' = { w with shared.table := w.shared.table.remove ids }
  | .push rumor clusterSize, w, _, w' =>
    w' = { w with shared.queue := w.shared.queue.push rumor clusterSize }
  | .take, w, r, w' =>
    r = w.shared.queue.take.1 ∧ w' = { w with shared.queue := w.shared.queue.take.2 }
  | .fetchSeq, w, r, w' =>
    r = w.shared.pending.fetchSeq.1 ∧
      w' = { w with shared.pending := w.shared.pending.fetchSeq.2 }
  | .register seq subject, w, r, w' =>
    r = (w.shared.pending.register seq subject).1 ∧
      w' = { w with shared.pending := (w.shared.pending.register seq subject).2 }
  | .forget seq, w, _, w' => w' = { w with shared.pending := w.shared.pending.forget seq }
  | .resolve seq subject, w, _, w' =>
    w' = { w with shared.pending := w.shared.pending.resolve seq subject }
  | .acked channel deadline, w, r, w' =>
    (match r with
      | true => channel ∈ w.shared.pending.sent
      -- the time is up, or the sending half was dropped
      | false => channel ∉ w.shared.pending.sent ∧
          (deadline ≤ now ∨ ∀ seq subject, w.shared.pending.waiting seq ≠ some (subject, channel))) ∧
      w' = w
  | .now, w, r, w' => r = now ∧ w' = w
  | .sendUdp target body, w, r, w' =>
    w' = if r then { w with net := .udp node.addr target body :: w.net } else w
  | .connect addr, w, r, w' =>
    match r with
    | none => w' = w
    | some conn =>
      conn = ⟨some node.id, w.shared.conns, addr⟩ ∧
        w' = { w with shared.conns := w.shared.conns + 1 }
  | .writeRequest conn body, w, r, w' =>
    w' = if r then { w with net := .request conn body :: w.net } else w
  | .readFrame conn, w, r, w' =>
    match r with
    -- the peer took too long, or hung up
    | none => w' = w
    | some body =>
      .response conn body ∈ w.net ∧ w' = { w with net := w.net.erase (.response conn body) }
  | .writeResponse conn body, w, r, w' =>
    w' = if r then { w with net := .response conn body :: w.net } else w

/-- A piece of one task: what the source does between two points where it returns. -/
abbrev Prog := Program Op Op.Res

abbrev Op.call (o : Op) : Prog o.Res := Program.call o

end Dalila
