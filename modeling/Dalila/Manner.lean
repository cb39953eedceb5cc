import Dalila.Cluster

/-!
# What everything a node runs has in common

What holds of `apply` and of the other operations, and of a sequence if it holds of its parts,
holds of every task's program. Connections are set apart: only joins, syncs and the serving of
requests use them.
-/

namespace Dalila

/-- Works on a connection. -/
def Op.online : Op → Bool
  | .connect _ | .writeRequest _ _ | .readFrame _ | .writeResponse _ _ => true
  | _ => false

/-- Answers a doubt. Only `apply` does. -/
def Op.refutes : Op → Bool
  | .refute _ => true
  | _ => false

/-- Draws the number of a probe, or waits for an answer under one. -/
def Op.counts : Op → Bool
  | .fetchSeq | .register _ _ | .forget _ | .acked _ _ => true
  | _ => false

/-- The tasks that use connections. -/
def Kind.online : Kind → Bool
  | .serve _ _ | .sync | .join _ => true
  | _ => false

/-- The tasks that wait for an answer to a ping. -/
def Kind.counts : Kind → Bool
  | .relay _ | .probing _ => true
  | _ => false

/-- A property of a node's programs that sequencing keeps, and `apply` has, and the operations
that neither answer a doubt nor work on a connection; with `counts`, those of a probe as well. -/
structure Manner (node : LocalNode) (counts : Bool) (P : ∀ α : Type, Prog α → Prop) : Prop where
  pure : ∀ {α : Type} (a : α), P α (Pure.pure a)
  call_bind : ∀ {β : Type} (o : Op) (f : o.Res → Prog β), o.online = false → o.refutes = false →
    (o.counts && !counts) = false → (∀ r, P β (f r)) → P β (Op.call o >>= f)
  bind : ∀ {α β : Type} {p : Prog α} {f : α → Prog β}, P α p → (∀ a, P β (f a)) → P β (p >>= f)
  apply : ∀ rumor, P MergeOutcome (apply node rumor)

namespace Manner

variable {node : LocalNode} {P : ∀ α : Type, Prog α → Prop}

section

variable {counts : Bool} (H : Manner node counts P)
include H

lemma call (o : Op) (ho : o.online = false) (ho' : o.refutes = false)
    (ho'' : (o.counts && !counts) = false) : P o.Res (Op.call o) := by
  have hret := H.call_bind o Pure.pure ho ho' ho'' fun r => H.pure r
  exact hret

/-! ## What changes the table -/

lemma applyAll (rumors : List WireMember) : P Unit (applyAll node rumors) := by
  induction rumors with
  | nil => exact H.pure ()
  | cons rumor rumors ih => exact H.bind (H.apply rumor) fun _ => ih

lemma absorb (sender : WireIdentity) (members : List WireMember) :
    P Unit (absorb node sender members) :=
  H.bind (H.apply _) fun _ => H.applyAll members

/-- What a request comes to, up to the reply. -/
lemma respond (body : TcpBody) : P (Option TcpBody) (respond node body) := by
  cases body with
  | joinRequest sender =>
    refine H.bind ?_ fun _ => H.pure _
    exact H.call_bind _ _ rfl rfl rfl fun _ => H.bind (H.apply _) fun _ =>
      H.call_bind _ _ rfl rfl rfl fun _ => H.pure _
  | membersRequest =>
    exact H.call_bind _ _ rfl rfl rfl fun _ => H.call_bind _ _ rfl rfl rfl fun _ => H.pure _
  | syncRequest sender members =>
    exact H.call_bind _ _ rfl rfl rfl fun _ => H.call_bind _ _ rfl rfl rfl fun _ =>
      H.bind (H.absorb sender members) fun _ => H.pure _
  | _ => exact H.pure none

lemma mark (member : Member) (state : WireMemberState) : P Bool (mark node member state) :=
  H.bind (H.apply _) fun _ => H.pure _

lemma declareDead (members : List Member) : P Unit (declareDead node members) := by
  induction members with
  | nil => exact H.pure ()
  | cons member members ih => exact H.bind (H.mark member .dead) fun _ => ih

lemma reapDead : P Unit reapDead := by
  refine H.call_bind _ _ rfl rfl rfl fun expired => ?_
  show P Unit (if (expired.map Member.id).isEmpty then _ else _)
  split_ifs
  · exact H.pure ()
  · exact H.call (.remove _) rfl rfl rfl

lemma healthTurn (ready : Bool) : P Unit (healthTurn node ready) := by
  refine H.call_bind _ _ rfl rfl rfl fun changed => ?_
  show P Unit (if changed = true then _ else _)
  split_ifs
  · exact H.call_bind _ _ rfl rfl rfl fun _ => H.call_bind _ _ rfl rfl rfl fun _ =>
      H.call (.push _ _) rfl rfl rfl
  · exact H.pure ()

/-! ## Datagrams -/

lemma askRelays (target : NodeId) (seq : UInt32) (relays : List Member) (sent : ℕ) :
    P ℕ (askRelays node target seq relays sent) := by
  induction relays generalizing sent with
  | nil => exact H.pure sent
  | cons relay relays ih =>
    exact H.call_bind _ _ rfl rfl rfl fun _ => H.call_bind _ _ rfl rfl rfl fun _ =>
      H.call_bind _ _ rfl rfl rfl fun _ => ih _

lemma handlePing (seq : UInt32) (addr : SocketAddr) : P Unit (handlePing node seq addr) :=
  H.call_bind _ _ rfl rfl rfl fun _ => H.call_bind _ _ rfl rfl rfl fun _ =>
    H.call_bind _ _ rfl rfl rfl fun _ => H.pure ()

lemma handleDatagram (src : SocketAddr) (body : UdpBody) :
    P (Option Relay) (handleDatagram node src body) := by
  cases body with
  | ping seq sender gossip =>
    exact H.bind (H.applyAll gossip) fun _ => H.bind (H.handlePing seq src) fun _ => H.pure _
  | ack seq sender gossip =>
    exact H.bind (H.applyAll gossip) fun _ => H.call_bind _ _ rfl rfl rfl fun _ => H.pure _
  | pingReq seq sender target gossip => exact H.bind (H.applyAll gossip) fun _ => H.pure _
  | pingReqAck seq sender target gossip =>
    exact H.bind (H.applyAll gossip) fun _ => H.call_bind _ _ rfl rfl rfl fun _ => H.pure _
  | leave sender => exact H.bind (H.bind (H.apply _) fun _ => H.pure ()) fun _ => H.pure _

lemma announceLeave : P ℕ (announceLeave node) := by
  refine H.call_bind _ _ rfl rfl rfl fun current => H.call_bind _ _ rfl rfl rfl fun members => ?_
  have hall : ∀ (members : List Member) (told : ℕ),
      P ℕ (sendEach (.leave (node.identity current)) members told) := by
    intro members
    induction members with
    | nil => exact fun told => H.pure told
    | cons member members ih => exact fun told => H.call_bind _ _ rfl rfl rfl fun _ => ih _
  exact hall members 0

/-! ## The detector -/

lemma nextInPass (order : List NodeId) : P (Option Member × List NodeId) (nextInPass order) := by
  induction order with
  | nil => exact H.pure _
  | cons id order ih =>
    refine H.call_bind _ _ rfl rfl rfl fun member => ?_
    cases member with
    | none => exact ih
    | some member =>
      show P _ (if member.state.isDead then Dalila.nextInPass order
        else Pure.pure (some member, order))
      split_ifs
      · exact ih
      · exact H.pure _

lemma nextInPasses (passes : ℕ) (order : List NodeId) :
    P (Option Member × List NodeId) (nextInPasses passes order) := by
  induction passes generalizing order with
  | zero => exact H.pure _
  | succ passes ih =>
    refine H.bind (H.nextInPass order) fun found => ?_
    obtain ⟨member, rest⟩ := found
    cases member with
    | some member => exact H.pure _
    | none => exact H.call_bind _ _ rfl rfl rfl fun order => ih order

lemma handleResult (target : Member) (acked : Bool) :
    P Unit (handleResult node target acked) := by
  cases acked with
  | true => exact H.pure ()
  | false => exact H.bind (H.mark target .suspect) fun _ => H.pure ()

end

/-! ## Probing -/

section

variable (H : Manner node true P)
include H

lemma ping (target : NodeId) (addr : SocketAddr) (seq : UInt32) :
    P Bool (ping node target addr seq) := by
  refine H.call_bind _ _ rfl rfl rfl fun channel => H.call_bind _ _ rfl rfl rfl fun current => ?_
  refine H.call_bind _ _ rfl rfl rfl fun gossip => H.call_bind _ _ rfl rfl rfl fun ok => ?_
  cases ok with
  | true =>
    exact H.call_bind _ _ rfl rfl rfl fun _ => H.call_bind _ _ rfl rfl rfl fun _ =>
      H.call_bind _ _ rfl rfl rfl fun _ => H.pure _
  | false => exact H.call_bind _ _ rfl rfl rfl fun _ => H.pure _

lemma pingReq (target : NodeId) (relays : List Member) (seq : UInt32) :
    P Bool (pingReq node target relays seq) := by
  refine H.call_bind _ _ rfl rfl rfl fun channel => ?_
  refine H.bind (H.askRelays target seq relays 0) fun sent => ?_
  show P Bool (if sent = 0 then _ else _)
  split_ifs
  · exact H.call_bind _ _ rfl rfl rfl fun _ => H.pure _
  · exact H.call_bind _ _ rfl rfl rfl fun _ => H.call_bind _ _ rfl rfl rfl fun _ =>
      H.call_bind _ _ rfl rfl rfl fun _ => H.pure _

lemma handlePingReq (seq : UInt32) (target : NodeId) (asker : SocketAddr) :
    P Unit (handlePingReq node seq target asker) := by
  refine H.call_bind _ _ rfl rfl rfl fun member => ?_
  cases member with
  | none => exact H.pure ()
  | some member =>
    refine H.call_bind _ _ rfl rfl rfl fun relayed => ?_
    refine H.bind (H.ping target member.addr relayed) fun ok => ?_
    cases ok with
    | true =>
      exact H.call_bind _ _ rfl rfl rfl fun _ => H.call_bind _ _ rfl rfl rfl fun _ =>
        H.call_bind _ _ rfl rfl rfl fun _ => H.pure ()
    | false => exact H.pure ()

lemma probe (target : Member) : P Bool (probe node target) := by
  refine H.call_bind _ _ rfl rfl rfl fun seq => H.bind (H.ping _ _ _) fun acked => ?_
  cases acked with
  | true => exact H.pure true
  | false =>
    refine H.call_bind _ _ rfl rfl rfl fun relays => ?_
    show P Bool (if relays.isEmpty then _ else _)
    split_ifs
    · exact H.pure false
    · exact H.call_bind _ _ rfl rfl rfl fun seq => H.pingReq _ _ _

end

/-! ## Every task -/

section

variable {counts : Bool} (H : Manner node counts P)
include H

/-- Every kind of task that uses no connection has the property. -/
theorem start_offline {kind : Kind} (hkind : kind.online = false)
    (hcounts : kind.counts = true → counts = true) : P kind.Out (kind.start node) := by
  cases kind with
  | serve | sync | join => exact absurd hkind (by simp [Kind.online])
  | relay relay =>
    obtain rfl := hcounts rfl
    obtain ⟨seq, target, asker⟩ := relay
    exact H.handlePingReq seq target asker
  | probing target =>
    obtain rfl := hcounts rfl
    exact H.probe target
  | datagram src body => exact H.handleDatagram src body
  | health ready => exact H.healthTurn ready
  | leaving => exact H.call .leave rfl rfl rfl
  | announcing => exact H.announceLeave
  | choosing order => exact H.nextInPasses 2 order
  | judging target acked => exact H.handleResult target acked
  | sweeping => exact H.call_bind _ _ rfl rfl rfl fun expired => H.declareDead expired
  | reaping => exact H.reapDead

/-! ## Connections -/

section

variable (hexchange : ∀ (addr : SocketAddr) {body : Prog TcpBody}, P TcpBody body →
  P (Option TcpBody) (exchange addr body))
include hexchange

lemma syncTurn : P Unit (syncTurn node) := by
  refine H.call_bind _ _ rfl rfl rfl fun partner => ?_
  cases partner with
  | none => exact H.pure ()
  | some partner =>
    refine H.bind (hexchange partner.addr ?_) fun reply => ?_
    · exact H.call_bind _ _ rfl rfl rfl fun _ => H.call_bind _ _ rfl rfl rfl fun _ => H.pure _
    · split
      · exact H.absorb _ _
      · exact H.pure ()

lemma join (seeds : List SocketAddr) : P Bool (join node seeds) := by
  refine H.call_bind _ _ rfl rfl rfl fun current => ?_
  induction seeds with
  | nil => exact H.pure false
  | cons seed seeds ih =>
    refine H.bind (hexchange seed (H.pure _)) fun reply => ?_
    split
    · exact H.bind (H.absorb _ _) fun _ => H.pure true
    · exact ih

omit hexchange in
/-- Serving writes its reply last. -/
lemma serve (conn : Conn) (hwrite : ∀ reply, P Bool (Op.call (.writeResponse conn reply)))
    (body : TcpBody) : P Unit (serve node conn body) := by
  refine H.bind (H.respond body) fun reply => ?_
  cases reply with
  | none => exact H.pure ()
  | some reply => exact H.bind (hwrite reply) fun _ => H.pure ()

/-- Every kind of task has the property, if exchanges and replies do. -/
theorem start (kind : Kind) (hcounts : kind.counts = true → counts = true)
    (hwrite : ∀ conn body, kind = .serve conn body → ∀ reply,
      P Bool (Op.call (.writeResponse conn reply))) : P kind.Out (kind.start node) := by
  cases kind with
  | serve conn body => exact H.serve conn (hwrite conn body rfl) body
  | sync => exact H.syncTurn hexchange
  | join seeds => exact H.join hexchange seeds
  | _ => exact H.start_offline rfl hcounts

end

end

end Manner

/-! ## Everything off a connection -/

/-- A property of programs that sequencing keeps, and all operations off a connection have; with
`counts`, those of a probe as well. -/
structure Offline (counts : Bool) (P : ∀ α : Type, Prog α → Prop) : Prop where
  pure : ∀ {α : Type} (a : α), P α (Pure.pure a)
  call_bind : ∀ {β : Type} (o : Op) (f : o.Res → Prog β), o.online = false →
    (o.counts && !counts) = false → (∀ r, P β (f r)) → P β (Op.call o >>= f)
  bind : ∀ {α β : Type} {p : Prog α} {f : α → Prog β}, P α p → (∀ a, P β (f a)) → P β (p >>= f)

namespace Offline

variable {node : LocalNode} {counts : Bool} {P : ∀ α : Type, Prog α → Prop}
  (H : Offline counts P)
include H

lemma apply (rumor : WireMember) : P MergeOutcome (apply node rumor) := by
  refine H.call_bind _ _ rfl rfl fun outcome => H.call_bind _ _ rfl rfl fun len => ?_
  cases outcome with
  | ignored => exact H.pure _
  | refute rumored =>
    refine H.call_bind _ _ rfl rfl fun _ => H.call_bind _ _ rfl rfl fun answer => ?_
    cases answer with
    | none => exact H.pure _
    | some _ => exact H.call_bind _ _ rfl rfl fun _ => H.call_bind _ _ rfl rfl fun _ => H.pure _
  | _ => exact H.call_bind _ _ rfl rfl fun _ => H.pure _

/-- What holds of everything off a connection, refutations included, is a manner. -/
lemma manner : Manner node counts P where
  pure := H.pure
  call_bind o f ho _ ho' hf := H.call_bind o f ho ho' hf
  bind := H.bind
  apply := H.apply

end Offline

end Dalila
