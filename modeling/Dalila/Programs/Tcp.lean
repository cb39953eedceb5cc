import Dalila.Programs.Udp

/-!
# What the TCP side runs

Joins, syncs, and the requests the accept loop serves. A connection carries one request and
its reply, as every client here uses it.
-/

namespace Dalila

open Op (call)

/-- Merge a peer's whole table, plus the peer's own record. -/
def absorb (node : LocalNode) (sender : WireIdentity) (members : List WireMember) : Prog Unit := do
  let _ ← apply node sender.intoMember
  applyAll node members

/-! ## The client side -/

/-- Connect, send `body` and wait for the reply. `none` if any of it fails or takes too long. -/
def exchange (addr : SocketAddr) (body : Prog TcpBody) : Prog (Option TcpBody) := do
  match ← call (.connect addr) with
  | none => pure none
  | some conn => do
    let body ← body
    if ← call (.writeRequest conn body) then
      call (.readFrame conn)
    else pure none

/-- One round trip: everything we believe for everything they believe. -/
def syncWith (node : LocalNode) (partner : Member) : Prog Unit := do
  let reply ← exchange partner.addr do
    let current ← call .current
    let members ← call .snapshot
    pure (.syncRequest (node.identity current) (members.map WireMember.new))
  match reply with
  | some (.syncResponse sender members) => absorb node sender members
  | _ => pure ()

/-- One turn of `start_sync_loop`. -/
def syncTurn (node : LocalNode) : Prog Unit := do
  match ← call .randomMember with
  -- nobody to sync with: a lone node, or everyone we know is dead
  | none => pure ()
  | some partner => syncWith node partner

/-- `handle_join_response`: the seed's own record, then its table. -/
def handleJoinResponse (node : LocalNode) (sender : WireIdentity) (members : List WireMember) :
    Prog Unit :=
  absorb node sender members

/-- The loop of `join`: the first seed that answers. `body` was made once, before it. -/
def joinThrough (node : LocalNode) (body : TcpBody) : List SocketAddr → Prog Bool
  | [] => pure false
  | seed :: seeds => do
    match ← exchange seed (pure body) with
    | some (.joinResponse sender members) => do
      handleJoinResponse node sender members
      pure true
    -- a dead seed isn't fatal, try the next one
    | _ => joinThrough node body seeds

def join (node : LocalNode) (seeds : List SocketAddr) : Prog Bool := do
  let current ← call .current
  joinThrough node (.joinRequest (node.identity current)) seeds

/-! ## The server side -/

/-- `handle_join_request` -/
def handleJoinRequest (node : LocalNode) (sender : WireIdentity) : Prog TcpBody := do
  -- snapshot before adding the joiner, so it isn't told about itself
  let members ← call .snapshot
  let _ ← apply node sender.intoMember
  let current ← call .current
  pure (.joinResponse (node.identity current) (members.map WireMember.new))

/-- The reply of `start_tcp_accept_loop` to one request. `none` for a response, which never
comes in through the listener. -/
def respond (node : LocalNode) : TcpBody → Prog (Option TcpBody)
  | .joinRequest sender => do
    let reply ← handleJoinRequest node sender
    pure (some reply)
  | .membersRequest => do
    let current ← call .current
    let members ← call .snapshot
    pure (some (.membersResponse (node.identity current) (members.map WireMember.new)))
  | .syncRequest sender members => do
    -- snapshot before merging what they sent, so the reply doesn't hand it straight back
    let current ← call .current
    let ours ← call .snapshot
    absorb node sender members
    pure (some (.syncResponse (node.identity current) (ours.map WireMember.new)))
  | .joinResponse _ _ | .membersResponse _ _ | .syncResponse _ _ => pure none

def serve (node : LocalNode) (conn : Conn) (body : TcpBody) : Prog Unit := do
  match ← respond node body with
  | some reply => do
    let _ ← call (.writeResponse conn reply)
    pure ()
  | none => pure ()

end Dalila
