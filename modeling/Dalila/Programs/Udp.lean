import Dalila.Op

/-!
# What the datagram side runs

`dissemination::apply`, the probes, and the handlers of the receive loop. Logging is left
out: nothing reads it.
-/

namespace Dalila

open Op (call)

/-- `dissemination::apply`: merge a rumor, and pass on whatever it changed. -/
def apply (node : LocalNode) (rumor : WireMember) : Prog MergeOutcome := do
  let outcome ← call (.merge rumor node.id)
  -- the table counts everyone but us
  let clusterSize := (← call .len) + 1
  match outcome with
  | .added | .updated => do
    call (.push rumor clusterSize)
    pure outcome
  | .ignored => pure outcome
  | .refute rumored => do
    let _before ← call .incarnation
    match ← call (.refute rumored) with
    -- we're shutting down, and this is our own leave coming back to us
    | none => pure outcome
    | some _ => do
      let current ← call .current
      call (.push (node.aliveRumor current) clusterSize)
      pure outcome

/-- Merge rumors one after another: the loop of `handle_gossip`, `absorb` and
`handle_join_response`. -/
def applyAll (node : LocalNode) : List WireMember → Prog Unit
  | [] => pure ()
  | rumor :: rumors => do
    let _ ← apply node rumor
    applyAll node rumors

/-! ## Probing -/

/-- Ping `target` and wait for its ack. False on timeout or if the send failed. -/
def ping (node : LocalNode) (target : NodeId) (addr : SocketAddr) (seq : UInt32) : Prog Bool := do
  -- registered before sending, or a fast ack could arrive before anyone is waiting for it
  let channel ← call (.register seq target)
  let current ← call .current
  let gossip ← call .take
  if ← call (.sendUdp addr (.ping seq (node.identity current) gossip)) then do
    let started ← call .now
    let acked ← call (.acked channel (started + PROBE_TIMEOUT))
    call (.forget seq)
    pure acked
  else do
    call (.forget seq)
    pure false

/-- The loop of `ping_req`: ask every relay, and count the requests that went out. -/
def askRelays (node : LocalNode) (target : NodeId) (seq : UInt32) :
    List Member → ℕ → Prog ℕ
  | [], sent => pure sent
  | relay :: relays, sent => do
    let current ← call .current
    let gossip ← call .take
    let ok ← call (.sendUdp relay.addr (.pingReq seq (node.identity current) target gossip))
    askRelays node target seq relays (if ok then sent + 1 else sent)

/-- Ask `relays` to probe `target` for us, and wait for the first one that reports back. -/
def pingReq (node : LocalNode) (target : NodeId) (relays : List Member) (seq : UInt32) :
    Prog Bool := do
  let channel ← call (.register seq target)
  let sent ← askRelays node target seq relays 0
  if sent = 0 then do
    call (.forget seq)
    pure false
  else do
    let started ← call .now
    let acked ← call (.acked channel (started + INDIRECT_TIMEOUT))
    call (.forget seq)
    pure acked

/-! ## Handling a datagram -/

/-- Reply to the address the ping came from: that's where the prober's socket is. -/
def handlePing (node : LocalNode) (seq : UInt32) (addr : SocketAddr) : Prog Unit := do
  let current ← call .current
  let gossip ← call .take
  let _ ← call (.sendUdp addr (.ack seq (node.identity current) gossip))
  pure ()

/-- Probe `target` on someone else's behalf, and report back only if it answers. -/
def handlePingReq (node : LocalNode) (seq : UInt32) (target : NodeId) (asker : SocketAddr) :
    Prog Unit := do
  match ← call (.get target) with
  | none => pure ()
  | some member => do
    let relayed ← call .fetchSeq
    if ← ping node target member.addr relayed then do
      let current ← call .current
      let gossip ← call .take
      let _ ← call (.sendUdp asker (.pingReqAck seq (node.identity current) target gossip))
      pure ()
    else pure ()

/-- A peer says it is leaving: record it as dead at the incarnation it gave. -/
def handleLeave (node : LocalNode) (sender : WireIdentity) : Prog Unit := do
  let _ ← apply node { sender.intoMember with state := .dead }
  pure ()

/-- A relayed probe to start: the asker's number, the target and where to report. -/
abbrev Relay := UInt32 × NodeId × SocketAddr

/-- One turn of `start_udp_loop`, up to the task it spawns. Gossip first: a rumor about us
gets refuted, and the refutation can then ride out on the ack. -/
def handleDatagram (node : LocalNode) (addr : SocketAddr) : UdpBody → Prog (Option Relay)
  | .ping seq _ gossip => do
    applyAll node gossip
    handlePing node seq addr
    pure none
  | .ack seq sender gossip => do
    applyAll node gossip
    -- a direct ack speaks for whoever sent it
    call (.resolve seq sender.id)
    pure none
  | .pingReq seq _ target gossip => do
    applyAll node gossip
    pure (some (seq, target, addr))
  | .pingReqAck seq _ target gossip => do
    applyAll node gossip
    -- a relayed ack speaks for the target, not for the relay that carried it
    call (.resolve seq target)
    pure none
  | .leave sender => do
    handleLeave node sender
    pure none

/-! ## Leaving -/

/-- Send `body` to every member: the loop of `announce_leave`. -/
def sendEach (body : UdpBody) : List Member → ℕ → Prog ℕ
  | [], told => pure told
  | member :: members, told => do
    let ok ← call (.sendUdp member.addr body)
    sendEach body members (if ok then told + 1 else told)

/-- Tell every member we know of that this node is going away. -/
def announceLeave (node : LocalNode) : Prog ℕ := do
  let current ← call .current
  -- suspects too: all a suspicion says is that someone couldn't reach them
  let members ← call (.membersWhere fun _ m => !m.state.isDead)
  sendEach (.leave (node.identity current)) members 0

end Dalila
