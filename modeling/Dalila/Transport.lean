import Dalila.Cluster
import Dalila.Crossing
import Dalila.Framing
import Dalila.Lib.Simulation

/-!
# The cluster in bytes

This file contains
- `Wiring`: what the processes turn messages into bytes with, and which bytes they read and write
  for which messages
- `Wiring.Stranger`: what somebody without the key is taken to put on the wire
- `WireStep`: the steps of a cluster whose wire holds bytes. A process reads messages out of them
  and writes messages as them; between the two it does what it does in the cluster of messages.
-/

namespace Dalila

/-! ## Bytes on the wire -/

/-- A datagram, or what one end of a connection has written into it. -/
inductive Parcel where
  | datagram (src dst : SocketAddr) (bytes : Bytes)
  | request (conn : Conn) (bytes : Bytes)
  | response (conn : Conn) (bytes : Bytes)

/-- What the processes of a cluster turn messages into bytes with. -/
structure Wiring where
  tcp : Postcard TcpBody
  udp : Postcard UdpBody
  key : ClusterKey

namespace Wiring

variable (W : Wiring)

/-- What `recv_from` leaves of a datagram. -/
def received (bytes : Bytes) : Bytes :=
  bytes.take MAX_DATAGRAM_LEN

/-- The first frame of a connection, of which so much has arrived in these pieces. -/
def firstFrame (chunks : List Bytes) : Except FrameError (Option TcpBody) :=
  (readFrame W.tcp W.key chunks []).1

/-- What a process reads out of bytes. -/
inductive Reads : Parcel → Packet → Prop where
  /-- `start_udp_loop`: what cannot be decoded is ignored. -/
  | datagram (src dst : SocketAddr) (bytes : Bytes) (body : UdpBody)
      (h : decodeFrame W.udp W.key (received bytes) = .ok body) :
      Reads (.datagram src dst bytes) (.udp src dst body)
  /-- `start_tcp_accept_loop`: an error ends the connection. -/
  | request (conn : Conn) (bytes : Bytes) (chunks : List Bytes) (body : TcpBody)
      (harrived : chunks.flatten <+: bytes) (h : W.firstFrame chunks = .ok (some body)) :
      Reads (.request conn bytes) (.request conn body)
  /-- The client waiting for its reply. -/
  | response (conn : Conn) (bytes : Bytes) (chunks : List Bytes) (body : TcpBody)
      (harrived : chunks.flatten <+: bytes) (h : W.firstFrame chunks = .ok (some body)) :
      Reads (.response conn bytes) (.response conn body)

/-- What a process writes for a message. What cannot be encoded is not sent. -/
inductive Writes : Packet → Parcel → Prop where
  /-- `send_udp` -/
  | datagram (src dst : SocketAddr) (body : UdpBody) (bytes : Bytes)
      (h : body.encodeFrame W.udp W.key = some bytes) :
      Writes (.udp src dst body) (.datagram src dst bytes)
  /-- `write_frame` -/
  | request (conn : Conn) (body : TcpBody) (bytes : Bytes)
      (h : writeFrame W.tcp W.key body = some bytes) :
      Writes (.request conn body) (.request conn bytes)
  | response (conn : Conn) (body : TcpBody) (bytes : Bytes)
      (h : writeFrame W.tcp W.key body = some bytes) :
      Writes (.response conn body) (.response conn bytes)

end Wiring

/-! ## What fits -/

/-- A frame that can be written, and that its reader takes. -/
def Wiring.Takes (W : Wiring) (body : TcpBody) : Prop :=
  ∃ frame, writeFrame W.tcp W.key body = some frame ∧ frame.length ≤ MAX_FRAME_LEN + 4

def Packet.Taken (W : Wiring) : Packet → Prop
  | .udp _ _ _ => True
  | .request _ body | .response _ body => W.Takes body

/-- Whatever the step writes into a connection is taken. -/
def Label.Taken (W : Wiring) : Label → Prop
  | .op _ _ _ (.writeRequest _ body) true | .op _ _ _ (.writeResponse _ body) true => W.Takes body
  | _ => True

/-! ## Strangers -/

namespace Wiring

variable (W : Wiring)

/-- No part of it carries a right tag. -/
def Forged (bytes : Bytes) : Prop :=
  ∀ payload, payload <:+: bytes → ∀ message, W.key.open payload ≠ .ok message

/-- What somebody without the key puts on the wire that holds `wire`: bytes without a right tag, or
what he has seen on one transport, on the other, where nobody can read it. Left out are the replays
that somebody can read: frames that are taken as datagrams and datagrams that are taken as frames,
and whatever is sent on to another address or into another connection. -/
inductive Stranger (wire : List Parcel) : Parcel → Prop where
  | datagram (src dst : SocketAddr) (bytes : Bytes)
      (h : ∀ message, W.key.open (received bytes) ≠ .ok message) :
      Stranger wire (.datagram src dst bytes)
  | request (conn : Conn) (bytes : Bytes) (h : W.Forged bytes) :
      Stranger wire (.request conn bytes)
  | response (conn : Conn) (bytes : Bytes) (h : W.Forged bytes) :
      Stranger wire (.response conn bytes)
  /-- A frame as a datagram, where the one does not read as the other. -/
  | frame (src dst : SocketAddr) (parcel : Parcel) (conn : Conn) (body : TcpBody) (bytes : Bytes)
      (hseen : parcel ∈ wire) (hparcel : parcel = .request conn bytes ∨ parcel = .response conn bytes)
      (hwrite : writeFrame W.tcp W.key body = some bytes) (hrefused : body.RefusedByUdp)
      (hfits : (bytes.drop 4).length ≤ MAX_DATAGRAM_LEN) :
      Stranger wire (.datagram src dst (bytes.drop 4))
  /-- A datagram as a frame, likewise. -/
  | crossed (src dst : SocketAddr) (parcel : Parcel) (conn : Conn) (body : UdpBody) (bytes : Bytes)
      (hseen : .datagram src dst bytes ∈ wire) (hwrite : body.encodeFrame W.udp W.key = some bytes)
      (hlen : bytes.length < 2 ^ 32) (hrefused : body.RefusedByTcp)
      (hparcel : parcel = .request conn (toBeBytes bytes.length ++ bytes) ∨
        parcel = .response conn (toBeBytes bytes.length ++ bytes)) :
      Stranger wire parcel

end Wiring

/-! ## Steps -/

structure WireCluster where
  clock : Instant
  procs : NodeId → Option Process
  /-- Whatever has been put on the wire. It arrives at any time and any number of times, or
  never. -/
  wire : List Parcel

def WireCluster.empty : WireCluster where
  clock := 0
  procs _ := none
  wire := []

inductive WireLabel where
  | step (l : Label)
  | query (conn : Conn)
  | stranger (parcel : Parcel)

/-- What the network does by itself. -/
def Label.ofNetwork : Label → Bool
  | .lose _ | .duplicate _ | .query _ => true
  | _ => false

inductive WireStep (W : Wiring) : WireCluster → WireLabel → WireCluster → Prop where
  /-- A step of a process, or of time. What it takes off the network it reads from the wire, and
  what it hands to the network it writes to the wire. -/
  | step (w : WireCluster) (l : Label) (clock : Instant) (procs : NodeId → Option Process)
      (taken sent : List Packet) (parcels : List Parcel) (hl : l.ofNetwork = false)
      (htaken : ∀ packet ∈ taken, packet ∉ sent ∧ ∃ parcel ∈ w.wire, W.Reads parcel packet)
      (h : Step ⟨w.clock, w.procs, taken⟩ l ⟨clock, procs, sent⟩)
      (hsent : List.Forall₂ W.Writes sent parcels) :
      WireStep W w (.step l) ⟨clock, procs, parcels ++ w.wire⟩
  /-- Somebody with the key runs `dalila members`. -/
  | query (w : WireCluster) (conn : Conn) (parcel : Parcel) (hconn : conn.client = none)
      (hwrite : W.Writes (.request conn .membersRequest) parcel) :
      WireStep W w (.query conn) { w with wire := parcel :: w.wire }
  | stranger (w : WireCluster) (parcel : Parcel) (h : W.Stranger w.wire parcel) :
      WireStep W w (.stranger parcel) { w with wire := parcel :: w.wire }

abbrev WireTrace := History WireCluster WireLabel

/-- A run of a cluster in bytes from nothing. -/
abbrev WireRun (W : Wiring) (h : WireTrace) : Prop :=
  History.IsRun (WireStep W) (fun w => w = .empty) h

/-- What shows of a step: all that processes and clients do. -/
def WireLabel.shown : WireLabel → Option Label
  | .step l => some l
  | .query conn => some (.query conn)
  | .stranger _ => none

/-- What shows of a step of the cluster of messages. -/
def Label.shown : Label → Option Label
  | .lose _ | .duplicate _ => none
  | l => some l

/-- The messages a process could read from the wire are in the network. -/
structure Carries (W : Wiring) (w : WireCluster) (c : Cluster) : Prop where
  clock : c.clock = w.clock
  procs : c.procs = w.procs
  reads : ∀ parcel ∈ w.wire, ∀ packet, W.Reads parcel packet → packet ∈ c.net

end Dalila
