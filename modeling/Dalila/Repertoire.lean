import Dalila.Cluster

/-!
# Everything a node runs

What holds of single operations, of `apply` and of a turn of the health check, and of a sequence
if it holds of its parts, holds of every task's program.
-/

namespace Dalila

/-- Writes news: into the table, or into the queue. -/
def Op.tells : Op → Bool
  | .merge _ _ | .push _ _ => true
  | _ => false

/-- Changes the table. -/
def Op.edits : Op → Bool
  | .merge _ _ | .remove _ => true
  | _ => false

/-- A property of a node's programs that sequencing keeps, and the operations that write neither
news nor the table have. -/
structure Custom (node : LocalNode) (P : ∀ α : Type, Prog α → Prop) : Prop where
  pure : ∀ {α : Type} (a : α), P α (Pure.pure a)
  call_bind : ∀ {β : Type} (o : Op) (f : o.Res → Prog β), o.tells = false → o.edits = false →
    (∀ r, P β (f r)) → P β (Op.call o >>= f)
  bind : ∀ {α β : Type} {p : Prog α} {f : α → Prog β}, P α p → (∀ a, P β (f a)) → P β (p >>= f)

namespace Custom

variable {node : LocalNode} {P : ∀ α : Type, Prog α → Prop} (H : Custom node P)
include H

lemma call (o : Op) (ho : o.tells = false) (ho' : o.edits = false) : P o.Res (Op.call o) := by
  have hret := H.call_bind o Pure.pure ho ho' fun r => H.pure r
  exact hret

/-! ## Probing -/

lemma ping (target : NodeId) (addr : SocketAddr) (seq : UInt32) :
    P Bool (ping node target addr seq) := by
  refine H.call_bind _ _ rfl rfl fun channel => H.call_bind _ _ rfl rfl fun current => ?_
  refine H.call_bind _ _ rfl rfl fun gossip => H.call_bind _ _ rfl rfl fun ok => ?_
  cases ok with
  | true =>
    exact H.call_bind _ _ rfl rfl fun _ => H.call_bind _ _ rfl rfl fun _ =>
      H.call_bind _ _ rfl rfl fun _ => H.pure _
  | false => exact H.call_bind _ _ rfl rfl fun _ => H.pure _

lemma askRelays (target : NodeId) (seq : UInt32) (relays : List Member) (sent : ℕ) :
    P ℕ (askRelays node target seq relays sent) := by
  induction relays generalizing sent with
  | nil => exact H.pure sent
  | cons relay relays ih =>
    exact H.call_bind _ _ rfl rfl fun _ => H.call_bind _ _ rfl rfl fun _ =>
      H.call_bind _ _ rfl rfl fun _ => ih _

lemma pingReq (target : NodeId) (relays : List Member) (seq : UInt32) :
    P Bool (pingReq node target relays seq) := by
  refine H.call_bind _ _ rfl rfl fun channel => ?_
  refine H.bind (H.askRelays target seq relays 0) fun sent => ?_
  show P Bool (if sent = 0 then _ else _)
  split_ifs
  · exact H.call_bind _ _ rfl rfl fun _ => H.pure _
  · exact H.call_bind _ _ rfl rfl fun _ => H.call_bind _ _ rfl rfl fun _ =>
      H.call_bind _ _ rfl rfl fun _ => H.pure _

lemma handlePing (seq : UInt32) (addr : SocketAddr) : P Unit (handlePing node seq addr) :=
  H.call_bind _ _ rfl rfl fun _ => H.call_bind _ _ rfl rfl fun _ =>
    H.call_bind _ _ rfl rfl fun _ => H.pure ()

lemma handlePingReq (seq : UInt32) (target : NodeId) (asker : SocketAddr) :
    P Unit (handlePingReq node seq target asker) := by
  refine H.call_bind _ _ rfl rfl fun member => ?_
  cases member with
  | none => exact H.pure ()
  | some member =>
    refine H.call_bind _ _ rfl rfl fun relayed => ?_
    refine H.bind (H.ping target member.addr relayed) fun ok => ?_
    cases ok with
    | true =>
      exact H.call_bind _ _ rfl rfl fun _ => H.call_bind _ _ rfl rfl fun _ =>
        H.call_bind _ _ rfl rfl fun _ => H.pure ()
    | false => exact H.pure ()

/-! ## Choosing a target, and probing it -/

lemma nextInPass (order : List NodeId) : P (Option Member × List NodeId) (nextInPass order) := by
  induction order with
  | nil => exact H.pure _
  | cons id order ih =>
    refine H.call_bind _ _ rfl rfl fun member => ?_
    cases member with
    | none => exact ih
    | some member =>
      show P _ (if member.state.isDead then Dalila.nextInPass order
        else Pure.pure (some member, order))
      split_ifs
      · exact ih
      · exact H.pure _

lemma nextInPasses (passes : ℕ) (order : List NodeId) :
    P (Option Member × List NodeId) (nextInPasses passes order) := by
  induction passes generalizing order with
  | zero => exact H.pure _
  | succ passes ih =>
    refine H.bind (H.nextInPass order) fun found => ?_
    obtain ⟨member, rest⟩ := found
    cases member with
    | some member => exact H.pure _
    | none => exact H.call_bind _ _ rfl rfl fun order => ih order

lemma probe (target : Member) : P Bool (probe node target) := by
  refine H.call_bind _ _ rfl rfl fun seq => H.bind (H.ping _ _ _) fun acked => ?_
  cases acked with
  | true => exact H.pure true
  | false =>
    refine H.call_bind _ _ rfl rfl fun relays => ?_
    show P Bool (if relays.isEmpty then _ else _)
    split_ifs
    · exact H.pure false
    · exact H.call_bind _ _ rfl rfl fun seq => H.pingReq _ _ _

/-! ## Leaving, and asking others -/

lemma announceLeave : P ℕ (announceLeave node) := by
  refine H.call_bind _ _ rfl rfl fun current => H.call_bind _ _ rfl rfl fun members => ?_
  have hall : ∀ (members : List Member) (told : ℕ),
      P ℕ (sendEach (.leave (node.identity current)) members told) := by
    intro members
    induction members with
    | nil => exact fun told => H.pure told
    | cons member members ih => exact fun told => H.call_bind _ _ rfl rfl fun _ => ih _
  exact hall members 0

lemma exchange (addr : SocketAddr) {body : Prog TcpBody} (hbody : P TcpBody body) :
    P (Option TcpBody) (exchange addr body) := by
  refine H.call_bind _ _ rfl rfl fun conn => ?_
  cases conn with
  | none => exact H.pure _
  | some conn =>
    refine H.bind hbody fun body => H.call_bind _ _ rfl rfl fun ok => ?_
    cases ok with
    | true => exact H.call (.readFrame conn) rfl rfl
    | false => exact H.pure _

/-! ## With `apply` -/

section

variable (happly : ∀ rumor, P MergeOutcome (apply node rumor))
include happly

lemma applyAll (rumors : List WireMember) : P Unit (applyAll node rumors) := by
  induction rumors with
  | nil => exact H.pure ()
  | cons rumor rumors ih => exact H.bind (happly rumor) fun _ => ih

lemma handleDatagram (src : SocketAddr) (body : UdpBody) :
    P (Option Relay) (handleDatagram node src body) := by
  cases body with
  | ping seq sender gossip =>
    exact H.bind (H.applyAll happly gossip) fun _ => H.bind (H.handlePing seq src) fun _ => H.pure _
  | ack seq sender gossip =>
    exact H.bind (H.applyAll happly gossip) fun _ => H.call_bind _ _ rfl rfl fun _ => H.pure _
  | pingReq seq sender target gossip => exact H.bind (H.applyAll happly gossip) fun _ => H.pure _
  | pingReqAck seq sender target gossip =>
    exact H.bind (H.applyAll happly gossip) fun _ => H.call_bind _ _ rfl rfl fun _ => H.pure _
  | leave sender => exact H.bind (H.bind (happly _) fun _ => H.pure ()) fun _ => H.pure _

lemma absorb (sender : WireIdentity) (members : List WireMember) :
    P Unit (absorb node sender members) :=
  H.bind (happly _) fun _ => H.applyAll happly members

lemma syncTurn : P Unit (syncTurn node) := by
  refine H.call_bind _ _ rfl rfl fun partner => ?_
  cases partner with
  | none => exact H.pure ()
  | some partner =>
    refine H.bind (H.exchange partner.addr ?_) fun reply => ?_
    · exact H.call_bind _ _ rfl rfl fun _ => H.call_bind _ _ rfl rfl fun _ => H.pure _
    · split
      · exact H.absorb happly _ _
      · exact H.pure ()

lemma join (seeds : List SocketAddr) : P Bool (join node seeds) := by
  refine H.call_bind _ _ rfl rfl fun current => ?_
  induction seeds with
  | nil => exact H.pure false
  | cons seed seeds ih =>
    refine H.bind (H.exchange seed (H.pure _)) fun reply => ?_
    split
    · exact H.bind (H.absorb happly _ _) fun _ => H.pure true
    · exact ih

lemma respond (body : TcpBody) : P (Option TcpBody) (respond node body) := by
  cases body with
  | joinRequest sender =>
    refine H.bind ?_ fun _ => H.pure _
    exact H.call_bind _ _ rfl rfl fun _ => H.bind (happly _) fun _ =>
      H.call_bind _ _ rfl rfl fun _ => H.pure _
  | membersRequest =>
    exact H.call_bind _ _ rfl rfl fun _ => H.call_bind _ _ rfl rfl fun _ => H.pure _
  | syncRequest sender members =>
    exact H.call_bind _ _ rfl rfl fun _ => H.call_bind _ _ rfl rfl fun _ =>
      H.bind (H.absorb happly _ _) fun _ => H.pure _
  | _ => exact H.pure none

lemma serve (conn : Conn) (body : TcpBody) : P Unit (serve node conn body) := by
  refine H.bind (H.respond happly body) fun reply => ?_
  cases reply with
  | none => exact H.pure ()
  | some reply => exact H.call_bind _ _ rfl rfl fun _ => H.pure ()

lemma mark (member : Member) (state : WireMemberState) : P Bool (mark node member state) :=
  H.bind (happly _) fun _ => H.pure _

lemma handleResult (target : Member) (acked : Bool) : P Unit (handleResult node target acked) := by
  cases acked with
  | true => exact H.pure ()
  | false => exact H.bind (H.mark happly target .suspect) fun _ => H.pure ()

lemma declareDead (members : List Member) : P Unit (declareDead node members) := by
  induction members with
  | nil => exact H.pure ()
  | cons member members ih => exact H.bind (H.mark happly member .dead) fun _ => ih

/-- Every kind of task has what a turn of the health check and reaping have. -/
theorem start (hhealth : ∀ ready, P Unit (healthTurn node ready)) (kind : Kind)
    (hreap : kind = .reaping → P Unit reapDead) : P kind.Out (kind.start node) := by
  cases kind with
  | datagram src body => exact H.handleDatagram happly src body
  | relay relay =>
    obtain ⟨seq, target, asker⟩ := relay
    exact H.handlePingReq seq target asker
  | serve conn body => exact H.serve happly conn body
  | sync => exact H.syncTurn happly
  | health ready => exact hhealth ready
  | join seeds => exact H.join happly seeds
  | leaving => exact H.call .leave rfl rfl
  | announcing => exact H.announceLeave
  | choosing order => exact H.nextInPasses 2 order
  | probing target => exact H.probe target
  | judging target acked => exact H.handleResult happly target acked
  | sweeping => exact H.call_bind _ _ rfl rfl fun expired => H.declareDead happly expired
  | reaping => exact hreap rfl

end

end Custom

/-! ## Everything -/

/-- A property of a node's programs that sequencing keeps, and everything has that writes no
news. -/
structure Habit (node : LocalNode) (P : ∀ α : Type, Prog α → Prop) : Prop where
  pure : ∀ {α : Type} (a : α), P α (Pure.pure a)
  call_bind : ∀ {β : Type} (o : Op) (f : o.Res → Prog β), o.tells = false → (∀ r, P β (f r)) →
    P β (Op.call o >>= f)
  bind : ∀ {α β : Type} {p : Prog α} {f : α → Prog β}, P α p → (∀ a, P β (f a)) → P β (p >>= f)
  apply : ∀ rumor, P MergeOutcome (apply node rumor)
  health : ∀ ready, P Unit (healthTurn node ready)

namespace Habit

variable {node : LocalNode} {P : ∀ α : Type, Prog α → Prop} (H : Habit node P)
include H

lemma custom : Custom node P where
  pure := H.pure
  call_bind o f ho _ hf := H.call_bind o f ho hf
  bind := H.bind

lemma reapDead : P Unit reapDead := by
  refine H.call_bind _ _ rfl fun expired => ?_
  show P Unit (if (expired.map Member.id).isEmpty then _ else _)
  split_ifs
  · exact H.pure ()
  · have hremove := H.call_bind (.remove (expired.map Member.id)) Pure.pure rfl fun r => H.pure r
    exact hremove

/-- Every kind of task has the habit. -/
theorem start (kind : Kind) : P kind.Out (kind.start node) :=
  H.custom.start H.apply H.health kind fun _ => H.reapDead

end Habit

end Dalila
