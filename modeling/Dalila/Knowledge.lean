import Dalila.OpTheorems

/-!
# What a task may know and say

A `Knowledge` is a view of which records are around after a run so far. Its contract lets a
task merge, queue and send only what is known by then, and gives it back what it reads. Every
program of the source follows the contract of every knowledge, so what a record needs to be
true cluster-wide is a matter of the operations alone.
-/

namespace Dalila

open Program

/-- The rumor a task may make up: the detector's own suspicion of the target it is judging. -/
def Kind.marks : Kind → WireMember → Prop
  | .judging target false, rumor => rumor = markRumor target .suspect
  | _, _ => False

/-! ## Knowledge -/

/-- What may be known of a record after a run, and of what a task is given and leaves behind. -/
structure Knowledge where
  /-- A record that may be merged. -/
  knows : Trace → WireMember → Prop
  /-- An entry of some table. -/
  holds : Trace → Member → Prop
  /-- The detector's copy of an entry, which may be out of date. -/
  copied : Trace → Member → Prop
  /-- The sender of a message that is no leave. -/
  said : Trace → WireIdentity → Prop
  /-- The sender of a leave. -/
  departs : Trace → WireIdentity → Prop
  /-- Is what a stopped process remembers looked at? -/
  postmortem : Prop
  knows_later : ∀ {h h' r}, Later h h' → knows h r → knows h' r
  holds_later : ∀ {h h' m}, Later h h' → holds h m → holds h' m
  copied_later : ∀ {h h' m}, Later h h' → copied h m → copied h' m
  said_later : ∀ {h h' i}, Later h h' → said h i → said h' i
  departs_later : ∀ {h h' i}, Later h h' → departs h i → departs h' i
  knows_of_holds : ∀ {h m}, holds h m → knows h (.new m)
  copied_of_holds : ∀ {h m}, holds h m → copied h m
  /-- A suspicion that has lasted may be called a death. -/
  knows_of_expired : ∀ {h m}, holds h m → suspicionExpired h.now.clock m = true →
    knows h (markRumor m .dead)
  knows_of_departs : ∀ {h i}, departs h i → knows h i.intoLeave

namespace Knowledge

variable (K : Knowledge)

/-- What a datagram tells is known. -/
def Udp (h : Trace) : UdpBody → Prop
  | .ping _ sender gossip => K.said h sender ∧ ∀ r ∈ gossip, K.knows h r
  | .ack _ sender gossip => K.said h sender ∧ ∀ r ∈ gossip, K.knows h r
  | .pingReq _ sender _ gossip => K.said h sender ∧ ∀ r ∈ gossip, K.knows h r
  | .pingReqAck _ sender _ gossip => K.said h sender ∧ ∀ r ∈ gossip, K.knows h r
  | .leave sender => K.departs h sender

/-- What a frame tells is known. A reply to `dalila members` is read by no node, so its
sender need not be. -/
def Tcp (h : Trace) : TcpBody → Prop
  | .joinRequest sender => K.knows h sender.intoMember
  | .joinResponse sender members => K.knows h sender.intoMember ∧ ∀ r ∈ members, K.knows h r
  | .membersRequest => True
  | .membersResponse sender members => K.said h sender ∧ ∀ r ∈ members, K.knows h r
  | .syncRequest sender members => K.knows h sender.intoMember ∧ ∀ r ∈ members, K.knows h r
  | .syncResponse sender members => K.knows h sender.intoMember ∧ ∀ r ∈ members, K.knows h r

/-- A datagram `node` may send. -/
structure UdpFrom (node : LocalNode) (h : Trace) (body : UdpBody) : Prop where
  told : K.Udp h body
  sender : body.sender.id = node.id

/-- A frame `node` may send. -/
structure TcpFrom (node : LocalNode) (h : Trace) (body : TcpBody) : Prop where
  told : K.Tcp h body
  sender : ∀ sender ∈ body.sender, sender.id = node.id

/-- What `current` gives: the node may introduce itself, and say goodbye if it is leaving. -/
structure Own (node : LocalNode) (kind : Kind) (current : Incarnation × Bool) (h : Trace) :
    Prop where
  knows : K.knows h (node.aliveRumor current)
  said : K.said h (node.identity current)
  departs : kind = .announcing → K.departs h (node.identity current)

/-- What a task running `kind` on `node` must know to call an operation, and what the
operation tells it. -/
def contract (node : LocalNode) (kind : Kind) : Contract Op Op.Res Trace where
  later := Later
  later_refl := .refl
  later_trans := .trans
  pre o h :=
    match o with
    | .merge rumor me => me = node.id ∧ (K.knows h rumor ∨ kind.marks rumor)
    | .remove _ => kind = .reaping
    | .push rumor _ => K.knows h rumor
    | .sendUdp _ body => K.UdpFrom node h body
    | .writeRequest _ body => K.TcpFrom node h body
    | .writeResponse _ body => K.TcpFrom node h body
    | .acked _ _ => kind.waits = true
    | .readFrame _ => kind.waits = true
    | _ => True
  post o r h :=
    match o, r with
    | .merge rumor _, outcome => outcome = .added ∨ outcome = .updated → K.knows h rumor
    | .current, current => K.Own node kind current h
    | .get _, member => ∀ m ∈ member, K.holds h m
    | .randomMember, member => ∀ m ∈ member, K.holds h m
    | .snapshot, members => ∀ m ∈ members, K.holds h m
    | .relayCandidates _ _, members => ∀ m ∈ members, K.holds h m
    | .membersWhere f, members => ∀ m ∈ members, K.holds h m ∧ f h.now.clock m = true
    | .take, rumors => ∀ r ∈ rumors, K.knows h r
    | .readFrame _, body => ∀ b ∈ body, K.Tcp h b
    | _, _ => True

variable {K} {node : LocalNode} {kind : Kind} {h h' : Trace}

lemma Udp.later {body : UdpBody} (hlater : Later h h') (hbody : K.Udp h body) :
    K.Udp h' body := by
  cases body with
  | leave sender => exact K.departs_later hlater hbody
  | _ => exact ⟨K.said_later hlater hbody.1, fun r hr => K.knows_later hlater (hbody.2 r hr)⟩

lemma Tcp.later {body : TcpBody} (hlater : Later h h') (hbody : K.Tcp h body) :
    K.Tcp h' body := by
  cases body with
  | joinRequest sender => exact K.knows_later hlater hbody
  | membersRequest => trivial
  | membersResponse sender members =>
    exact ⟨K.said_later hlater hbody.1, fun r hr => K.knows_later hlater (hbody.2 r hr)⟩
  | _ => exact ⟨K.knows_later hlater hbody.1, fun r hr => K.knows_later hlater (hbody.2 r hr)⟩

lemma UdpFrom.later {body : UdpBody} (hlater : Later h h') (hbody : K.UdpFrom node h body) :
    K.UdpFrom node h' body := ⟨Udp.later hlater hbody.told, hbody.sender⟩

lemma TcpFrom.later {body : TcpBody} (hlater : Later h h') (hbody : K.TcpFrom node h body) :
    K.TcpFrom node h' body := ⟨Tcp.later hlater hbody.told, hbody.sender⟩

/-- A snapshot, as it is sent. -/
lemma knows_snapshot {members : List Member} (hmembers : ∀ m ∈ members, K.holds h m) :
    ∀ r ∈ members.map WireMember.new, K.knows h r := by
  intro r hr
  obtain ⟨m, hm, rfl⟩ := List.mem_map.mp hr
  exact K.knows_of_holds (hmembers m hm)

/-! ## Absorbing what others say -/

/-- `apply` merges what is known, and queues what it merged or what the node says of itself. -/
lemma follows_apply {rumor : WireMember} (hrumor : K.knows h rumor ∨ kind.marks rumor) :
    Follows (K.contract node kind) (fun _ _ => True) (apply node rumor) h := by
  unfold apply
  refine Follows.call_bind ?_ ?_
  · intro h₁ hlater
    exact ⟨rfl, hrumor.imp_left (K.knows_later hlater)⟩
  intro outcome h₁ _ houtcome
  refine Follows.call_bind (fun _ _ => trivial) ?_
  intro len h₂ hlater₂ _
  have hpush : outcome = .added ∨ outcome = .updated →
      Follows (K.contract node kind) (fun _ _ => True)
        (do Op.call (.push rumor (len + 1)); pure outcome) h₂ := by
    intro hchanged
    refine Follows.call_bind ?_ fun _ _ _ _ => Follows.pure fun _ _ => trivial
    intro h₃ hlater₃
    exact K.knows_later (hlater₂.trans hlater₃) (houtcome hchanged)
  cases outcome with
  | added => exact hpush (.inl rfl)
  | updated => exact hpush (.inr rfl)
  | ignored => exact Follows.pure fun _ _ => trivial
  | refute rumored =>
    refine Follows.call_bind (fun _ _ => trivial) fun _ h₃ _ _ => ?_
    refine Follows.call_bind (fun _ _ => trivial) fun answer h₄ _ _ => ?_
    cases answer with
    | none => exact Follows.pure fun _ _ => trivial
    | some _ =>
      refine Follows.call_bind (fun _ _ => trivial) fun current h₅ _ hown => ?_
      refine Follows.call_bind ?_ fun _ _ _ _ => Follows.pure fun _ _ => trivial
      exact fun h₆ hlater₆ => K.knows_later hlater₆ hown.knows

lemma follows_applyAll {rumors : List WireMember} (hrumors : ∀ r ∈ rumors, K.knows h r) :
    Follows (K.contract node kind) (fun _ _ => True) (applyAll node rumors) h := by
  induction rumors generalizing h with
  | nil => exact Follows.pure fun _ _ => trivial
  | cons rumor rumors ih =>
    refine Follows.bind (follows_apply (.inl (hrumors rumor (by simp)))) ?_
    intro _ h₁ hlater _
    exact ih fun r hr => K.knows_later hlater (hrumors r (by simp [hr]))

lemma follows_absorb {sender : WireIdentity} {members : List WireMember}
    (hsender : K.knows h sender.intoMember) (hmembers : ∀ r ∈ members, K.knows h r) :
    Follows (K.contract node kind) (fun _ _ => True) (absorb node sender members) h := by
  refine Follows.bind (follows_apply (.inl hsender)) ?_
  intro _ h₁ hlater _
  exact follows_applyAll fun r hr => K.knows_later hlater (hmembers r hr)

/-! ## Probes and relays -/

/-- Reading `current`, taking gossip and sending both. -/
lemma follows_tell {α : Type} {addr : SocketAddr} {B : WireIdentity → List WireMember → UdpBody}
    (hbody : ∀ h' sender gossip, K.said h' sender → (∀ r ∈ gossip, K.knows h' r) →
      K.Udp h' (B sender gossip))
    (hsender : ∀ sender gossip, (B sender gossip).sender = sender)
    {next : Incarnation × Bool → List WireMember → Bool → Prog α}
    (hnext : ∀ current gossip ok h', Later h h' →
      Follows (K.contract node kind) (fun _ _ => True) (next current gossip ok) h') :
    Follows (K.contract node kind) (fun _ _ => True)
      (do
        let current ← Op.call .current
        let gossip ← Op.call .take
        let ok ← Op.call (.sendUdp addr (B (node.identity current) gossip))
        next current gossip ok) h := by
  refine Follows.call_bind (fun _ _ => trivial) fun current h₁ hlater₁ hown => ?_
  refine Follows.call_bind (fun _ _ => trivial) fun gossip h₂ hlater₂ hgossip => ?_
  refine Follows.call_bind ?_ fun ok h₃ hlater₃ _ =>
    hnext current gossip ok h₃ ((hlater₁.trans hlater₂).trans hlater₃)
  intro h₃ hlater₃
  refine ⟨hbody h₃ _ _ (K.said_later (hlater₂.trans hlater₃) hown.said)
    fun r hr => K.knows_later hlater₃ (hgossip r hr), ?_⟩
  rw [hsender]
  rfl

lemma follows_forget {α : Type} {seq : UInt32} {a : α} :
    Follows (K.contract node kind) (fun _ _ => True)
      (do Op.call (.forget seq); pure a) h :=
  Follows.call_bind (fun _ _ => trivial) fun _ _ _ _ => Follows.pure fun _ _ => trivial

/-- Waiting for an ack. -/
lemma follows_await {channel : Channel} {timeout : Instant} {seq : UInt32}
    (hkind : kind.waits = true) :
    Follows (K.contract node kind) (fun _ _ => True)
      (do
        let started ← Op.call .now
        let acked ← Op.call (.acked channel (started + timeout))
        Op.call (.forget seq)
        pure acked) h :=
  Follows.call_bind (fun _ _ => trivial) fun _ _ _ _ =>
    Follows.call_bind (fun _ _ => hkind) fun _ _ _ _ => follows_forget

/-- A ping carries gossip and the node's identity, both of which are known. -/
lemma follows_ping {target : NodeId} {addr : SocketAddr} {seq : UInt32}
    (hkind : kind.waits = true) :
    Follows (K.contract node kind) (fun _ _ => True) (ping node target addr seq) h := by
  unfold ping
  refine Follows.call_bind (fun _ _ => trivial) fun channel h₁ _ _ => ?_
  refine follows_tell (B := .ping seq) (fun _ _ _ hsaid hgossip => ⟨hsaid, hgossip⟩)
    (fun _ _ => rfl) ?_
  intro _ _ ok h₂ _
  cases ok with
  | true => exact follows_await hkind
  | false => exact follows_forget

lemma follows_askRelays {target : NodeId} {seq : UInt32} (relays : List Member) (sent : ℕ) :
    Follows (K.contract node kind) (fun _ _ => True)
      (askRelays node target seq relays sent) h := by
  induction relays generalizing sent h with
  | nil => exact Follows.pure fun _ _ => trivial
  | cons relay relays ih =>
    unfold askRelays
    refine follows_tell (B := fun sender => .pingReq seq sender target)
      (fun _ _ _ hsaid hgossip => ⟨hsaid, hgossip⟩) (fun _ _ => rfl) ?_
    intro _ _ ok h₁ _
    exact ih _

lemma follows_pingReq {target : NodeId} {relays : List Member} {seq : UInt32}
    (hkind : kind.waits = true) :
    Follows (K.contract node kind) (fun _ _ => True) (pingReq node target relays seq) h := by
  unfold pingReq
  refine Follows.call_bind (fun _ _ => trivial) fun channel h₁ _ _ => ?_
  refine Follows.bind (follows_askRelays relays 0) fun sent h₂ _ _ => ?_
  split_ifs
  · exact follows_forget
  · exact follows_await hkind

/-- What `probe` does when its own ping got nothing. -/
lemma follows_probe_rest {target : Member} (hkind : kind.waits = true) (acked : Bool) :
    Follows (K.contract node kind) (fun _ _ => True)
      (if acked then pure true
        else do
          let relays ← Op.call (.relayCandidates target.id INDIRECT_PROBES)
          if relays.isEmpty then pure false
          else do
            let seq ← Op.call .fetchSeq
            pingReq node target.id relays seq) h := by
  split_ifs
  · exact Follows.pure fun _ _ => trivial
  refine Follows.call_bind (fun _ _ => trivial) fun relays h₃ _ _ => ?_
  split_ifs
  · exact Follows.pure fun _ _ => trivial
  exact Follows.call_bind (fun _ _ => trivial) fun seq h₄ _ _ => follows_pingReq hkind

lemma follows_probe {target : Member} (hkind : kind.waits = true) :
    Follows (K.contract node kind) (fun _ _ => True) (probe node target) h := by
  refine Follows.call_bind (fun _ _ => trivial) fun seq h₁ _ _ => ?_
  exact Follows.bind (follows_ping hkind) fun acked h₂ _ _ => follows_probe_rest hkind acked

lemma follows_handlePing {seq : UInt32} {addr : SocketAddr} :
    Follows (K.contract node kind) (fun _ _ => True) (handlePing node seq addr) h := by
  unfold handlePing
  exact follows_tell (B := .ack seq) (fun _ _ _ hsaid hgossip => ⟨hsaid, hgossip⟩)
    (fun _ _ => rfl) fun _ _ _ _ _ => Follows.pure fun _ _ => trivial

/-- What a relayed probe does with its result. -/
lemma follows_report {seq : UInt32} {target : NodeId} {asker : SocketAddr} (acked : Bool) :
    Follows (K.contract node kind) (fun _ _ => True)
      (if acked then do
        let current ← Op.call .current
        let gossip ← Op.call .take
        let _ ← Op.call (.sendUdp asker (.pingReqAck seq (node.identity current) target gossip))
        pure ()
      else pure ()) h := by
  split_ifs
  · exact follows_tell (B := fun sender => .pingReqAck seq sender target)
      (fun _ _ _ hsaid hgossip => ⟨hsaid, hgossip⟩) (fun _ _ => rfl)
      fun _ _ _ _ _ => Follows.pure fun _ _ => trivial
  · exact Follows.pure fun _ _ => trivial

lemma follows_handlePingReq {seq : UInt32} {target : NodeId} {asker : SocketAddr}
    (hkind : kind.waits = true) :
    Follows (K.contract node kind) (fun _ _ => True) (handlePingReq node seq target asker) h := by
  unfold handlePingReq
  refine Follows.call_bind (fun _ _ => trivial) fun member h₁ _ _ => ?_
  cases member with
  | none => exact Follows.pure fun _ _ => trivial
  | some member =>
    refine Follows.call_bind (fun _ _ => trivial) fun relayed h₂ _ _ => ?_
    exact Follows.bind (follows_ping hkind) fun acked h₃ _ _ => follows_report acked

/-- The gossip is merged before the body is dealt with, as the source has it. -/
lemma follows_handleDatagram {src : SocketAddr} {body : UdpBody} (hbody : K.Udp h body) :
    Follows (K.contract node kind) (fun _ _ => True) (handleDatagram node src body) h := by
  cases body with
  | ping seq sender gossip =>
    refine Follows.bind (follows_applyAll hbody.2) fun _ _ _ _ => ?_
    exact Follows.bind follows_handlePing fun _ _ _ _ => Follows.pure fun _ _ => trivial
  | pingReq seq sender target gossip =>
    exact Follows.bind (follows_applyAll hbody.2) fun _ _ _ _ => Follows.pure fun _ _ => trivial
  | ack seq sender gossip =>
    refine Follows.bind (follows_applyAll hbody.2) fun _ _ _ _ => ?_
    exact Follows.call_bind (fun _ _ => trivial) fun _ _ _ _ => Follows.pure fun _ _ => trivial
  | pingReqAck seq sender target gossip =>
    refine Follows.bind (follows_applyAll hbody.2) fun _ _ _ _ => ?_
    exact Follows.call_bind (fun _ _ => trivial) fun _ _ _ _ => Follows.pure fun _ _ => trivial
  | leave sender =>
    have hdead : K.knows h sender.intoLeave := K.knows_of_departs hbody
    refine Follows.bind (Q := fun _ _ => True) ?_ fun _ _ _ _ => Follows.pure fun _ _ => trivial
    exact Follows.bind (follows_apply (.inl hdead)) fun _ _ _ _ => Follows.pure fun _ _ => trivial

/-! ## Leaving -/

lemma follows_sendEach {body : UdpBody} (hbody : K.UdpFrom node h body) (members : List Member)
    (told : ℕ) :
    Follows (K.contract node kind) (fun _ _ => True) (sendEach body members told) h := by
  induction members generalizing told h with
  | nil => exact Follows.pure fun _ _ => trivial
  | cons member members ih =>
    refine Follows.call_bind ?_ ?_
    · exact fun h₁ hlater => hbody.later hlater
    · exact fun ok h₁ hlater _ => ih (hbody.later hlater) _

lemma follows_announceLeave :
    Follows (K.contract node .announcing) (fun _ _ => True) (announceLeave node) h := by
  unfold announceLeave
  refine Follows.call_bind (fun _ _ => trivial) fun current h₁ _ hown => ?_
  refine Follows.call_bind (fun _ _ => trivial) fun members h₂ hlater _ => ?_
  have hbody : K.UdpFrom node h₂ (.leave (node.identity current)) :=
    ⟨K.departs_later hlater (hown.departs rfl), rfl⟩
  exact follows_sendEach hbody members 0

/-! ## The TCP side -/

/-- Sending a request that is made, and reading its reply. -/
lemma follows_request {conn : Conn} {body : TcpBody} (hkind : kind.waits = true)
    (hbody : K.TcpFrom node h body) :
    Follows (K.contract node kind) (fun reply h => ∀ b ∈ reply, K.Tcp h b)
      (do
        if ← Op.call (.writeRequest conn body) then
          Op.call (.readFrame conn)
        else pure none) h := by
  refine Follows.call_bind (fun h₃ hlater₃ => hbody.later hlater₃) fun ok h₃ _ _ => ?_
  split_ifs
  · refine Follows.call (fun _ _ => hkind) fun reply h₄ _ hreply h₅ hlater₅ => ?_
    exact fun b hb => (hreply b hb).later hlater₅
  · exact Follows.pure fun _ _ => by simp

/-- What comes back on the connection was said by somebody. -/
lemma follows_exchange {addr : SocketAddr} {body : Prog TcpBody} (hkind : kind.waits = true)
    (hbody : ∀ h', Later h h' →
      Follows (K.contract node kind) (fun b h => K.TcpFrom node h b) body h') :
    Follows (K.contract node kind) (fun reply h => ∀ b ∈ reply, K.Tcp h b)
      (exchange addr body) h := by
  unfold exchange
  refine Follows.call_bind (fun _ _ => trivial) fun conn h₁ hlater₁ _ => ?_
  cases conn with
  | none => exact Follows.pure fun _ _ => by simp
  | some conn =>
    exact Follows.bind (hbody h₁ hlater₁) fun body h₂ _ hsent => follows_request hkind hsent

/-- What `sync_with` does with the reply. -/
lemma follows_sync_reply {reply : Option TcpBody} (hreply : ∀ b ∈ reply, K.Tcp h b) :
    Follows (K.contract node kind) (fun _ _ => True)
      (match reply with
        | some (.syncResponse sender members) => absorb node sender members
        | _ => pure ()) h := by
  split
  · rename_i sender members
    have hbody := hreply (.syncResponse sender members) rfl
    exact follows_absorb hbody.1 hbody.2
  · exact Follows.pure fun _ _ => trivial

lemma follows_syncWith {partner : Member} (hkind : kind.waits = true) :
    Follows (K.contract node kind) (fun _ _ => True) (syncWith node partner) h := by
  unfold syncWith
  refine Follows.bind (follows_exchange hkind fun h' _ => ?_) fun reply h₁ _ hreply =>
    follows_sync_reply hreply
  refine Follows.call_bind (fun _ _ => trivial) fun current h₁ _ hown => ?_
  refine Follows.call_bind (fun _ _ => trivial) fun members h₂ hlater₂ hmembers => ?_
  refine Follows.pure fun h₃ hlater₃ => ⟨⟨?_, ?_⟩, ?_⟩
  · exact K.knows_later (hlater₂.trans hlater₃) hown.knows
  · exact fun r hr => K.knows_later hlater₃ (knows_snapshot hmembers r hr)
  · exact fun sender hsender => Option.some.inj hsender ▸ rfl

lemma follows_syncTurn (hkind : kind.waits = true) :
    Follows (K.contract node kind) (fun _ _ => True) (syncTurn node) h := by
  unfold syncTurn
  refine Follows.call_bind (fun _ _ => trivial) fun partner h₁ _ _ => ?_
  cases partner with
  | none => exact Follows.pure fun _ _ => trivial
  | some partner => exact follows_syncWith hkind

/-- What `join` does with a seed's reply, `rest` being the other seeds. -/
lemma follows_join_reply {reply : Option TcpBody} {rest : Prog Bool}
    (hreply : ∀ b ∈ reply, K.Tcp h b)
    (hrest : Follows (K.contract node kind) (fun _ _ => True) rest h) :
    Follows (K.contract node kind) (fun _ _ => True)
      (match reply with
        | some (.joinResponse sender members) => do
          handleJoinResponse node sender members
          pure true
        | _ => rest) h := by
  split
  · rename_i sender members
    have htold := hreply (.joinResponse sender members) rfl
    exact Follows.bind (follows_absorb htold.1 htold.2) fun _ _ _ _ =>
      Follows.pure fun _ _ => trivial
  · exact hrest

lemma follows_joinThrough {body : TcpBody} (hkind : kind.waits = true)
    (hbody : K.TcpFrom node h body) (seeds : List SocketAddr) :
    Follows (K.contract node kind) (fun _ _ => True) (joinThrough node body seeds) h := by
  induction seeds generalizing h with
  | nil => exact Follows.pure fun _ _ => trivial
  | cons seed seeds ih =>
    refine Follows.bind (follows_exchange hkind fun h' hlater =>
      Follows.pure fun h'' hlater' => hbody.later (hlater.trans hlater')) ?_
    exact fun reply h₁ hlater₁ hreply => follows_join_reply hreply (ih (hbody.later hlater₁))

lemma follows_join {seeds : List SocketAddr} (hkind : kind.waits = true) :
    Follows (K.contract node kind) (fun _ _ => True) (join node seeds) h := by
  refine Follows.call_bind (fun _ _ => trivial) fun current h₁ _ hown => ?_
  have hbody : K.TcpFrom node h₁ (.joinRequest (node.identity current)) :=
    ⟨hown.knows, fun sender hsender => Option.some.inj hsender ▸ rfl⟩
  exact follows_joinThrough hkind hbody seeds

lemma follows_handleJoinRequest {sender : WireIdentity} (hsender : K.knows h sender.intoMember) :
    Follows (K.contract node kind) (fun b h => K.TcpFrom node h b)
      (handleJoinRequest node sender) h := by
  unfold handleJoinRequest
  refine Follows.call_bind (fun _ _ => trivial) fun members h₁ hlater₁ hmembers => ?_
  refine Follows.bind (follows_apply (.inl (K.knows_later hlater₁ hsender))) ?_
  intro _ h₂ hlater₂ _
  refine Follows.call_bind (fun _ _ => trivial) fun current h₃ hlater₃ hown => ?_
  have hlater := hlater₂.trans hlater₃
  refine Follows.pure fun h₄ hlater₄ => ⟨⟨K.knows_later hlater₄ hown.knows, ?_⟩, ?_⟩
  · exact fun r hr => K.knows_later (hlater.trans hlater₄) (knows_snapshot hmembers r hr)
  · exact fun sender hsender => Option.some.inj hsender ▸ rfl

/-- A reply is made of a snapshot, and the request is absorbed after it was taken. -/
lemma follows_respond {body : TcpBody} (hbody : K.Tcp h body) :
    Follows (K.contract node kind) (fun reply h => ∀ b ∈ reply, K.TcpFrom node h b)
      (respond node body) h := by
  cases body with
  | joinRequest sender =>
    refine Follows.bind (follows_handleJoinRequest hbody) fun reply h₁ _ hreply => ?_
    refine Follows.pure fun h₂ hlater₂ b hb => ?_
    obtain rfl : reply = b := by simpa using hb
    exact hreply.later hlater₂
  | membersRequest =>
    refine Follows.call_bind (fun _ _ => trivial) fun current h₁ _ hown => ?_
    refine Follows.call_bind (fun _ _ => trivial) fun members h₂ hlater₂ hmembers => ?_
    refine Follows.pure fun h₃ hlater₃ b hb => ?_
    obtain rfl := Option.some.inj hb
    refine ⟨⟨K.said_later (hlater₂.trans hlater₃) hown.said, ?_⟩, ?_⟩
    · exact fun r hr => K.knows_later hlater₃ (knows_snapshot hmembers r hr)
    · exact fun sender hsender => Option.some.inj hsender ▸ rfl
  | syncRequest sender members =>
    refine Follows.call_bind (fun _ _ => trivial) fun current h₁ hlater₁ hown => ?_
    refine Follows.call_bind (fun _ _ => trivial) fun ours h₂ hlater₂ hours => ?_
    have hlater := hlater₁.trans hlater₂
    refine Follows.bind (follows_absorb (K.knows_later hlater hbody.1)
      fun r hr => K.knows_later hlater (hbody.2 r hr)) fun _ h₃ hlater₃ _ => ?_
    refine Follows.pure fun h₄ hlater₄ b hb => ?_
    obtain rfl := Option.some.inj hb
    have hlater' := hlater₃.trans hlater₄
    refine ⟨⟨K.knows_later (hlater₂.trans hlater') hown.knows, ?_⟩, ?_⟩
    · exact fun r hr => K.knows_later hlater' (knows_snapshot hours r hr)
    · exact fun sender hsender => Option.some.inj hsender ▸ rfl
  | _ => exact Follows.pure fun _ _ => by simp

lemma follows_serve {conn : Conn} {body : TcpBody} (hbody : K.Tcp h body) :
    Follows (K.contract node kind) (fun _ _ => True) (serve node conn body) h := by
  unfold serve
  refine Follows.bind (follows_respond hbody) fun reply h₁ _ hreply => ?_
  cases reply with
  | none => exact Follows.pure fun _ _ => trivial
  | some reply =>
    refine Follows.call_bind (fun h₂ hlater₂ => (hreply reply rfl).later hlater₂) ?_
    exact fun _ _ _ _ => Follows.pure fun _ _ => trivial

/-! ## The detector and the health check -/

/-- The target that was chosen is a copy of an entry. -/
def Copies (K : Knowledge) (found : Option Member × List NodeId) (h : Trace) : Prop :=
  ∀ target ∈ found.1, K.copied h target

lemma follows_nextInPass (order : List NodeId) :
    Follows (K.contract node kind) K.Copies (nextInPass order) h := by
  induction order generalizing h with
  | nil => exact Follows.pure fun _ _ target htarget => absurd htarget (by simp)
  | cons id order ih =>
    refine Follows.call_bind (fun _ _ => trivial) fun member h₁ _ hholds => ?_
    cases member with
    | none => exact ih
    | some member =>
      simp only
      split_ifs
      · exact ih
      · refine Follows.pure fun h₂ hlater₂ target htarget => ?_
        obtain rfl : member = target := by simpa using htarget
        exact K.copied_later hlater₂ (K.copied_of_holds (hholds member rfl))

lemma follows_nextInPasses (passes : ℕ) (order : List NodeId) :
    Follows (K.contract node kind) K.Copies (nextInPasses passes order) h := by
  induction passes generalizing order h with
  | zero => exact Follows.pure fun _ _ target htarget => absurd htarget (by simp)
  | succ passes ih =>
    refine Follows.bind (follows_nextInPass order) fun found h₁ _ hcopies => ?_
    obtain ⟨found, rest⟩ := found
    cases found with
    | some member =>
      exact Follows.pure fun h₂ hlater₂ target htarget =>
        K.copied_later hlater₂ (hcopies target htarget)
    | none => exact Follows.call_bind (fun _ _ => trivial) fun order h₂ _ _ => ih order

/-- A target that did not answer is marked suspect at the incarnation it was read at. -/
lemma follows_handleResult {target : Member} {acked : Bool} :
    Follows (K.contract node (.judging target acked)) (fun _ _ => True)
      (handleResult node target acked) h := by
  unfold handleResult
  cases acked with
  | true => exact Follows.pure fun _ _ => trivial
  | false =>
    have hmark : Kind.marks (.judging target false) (markRumor target .suspect) := rfl
    refine Follows.bind (Q := fun _ _ => True) ?_ fun _ _ _ _ => Follows.pure fun _ _ => trivial
    exact Follows.bind (follows_apply (.inr hmark)) fun _ _ _ _ => Follows.pure fun _ _ => trivial

lemma follows_declareDead {expired : List Member}
    (hexpired : ∀ m ∈ expired, K.knows h (markRumor m .dead)) :
    Follows (K.contract node kind) (fun _ _ => True) (declareDead node expired) h := by
  induction expired generalizing h with
  | nil => exact Follows.pure fun _ _ => trivial
  | cons m expired ih =>
    refine Follows.bind (Q := fun _ _ => True) ?_ ?_
    · exact Follows.bind (follows_apply (.inl (hexpired m (by simp)))) fun _ _ _ _ =>
        Follows.pure fun _ _ => trivial
    · intro _ h₁ hlater _
      exact ih fun m' hm' => K.knows_later hlater (hexpired m' (by simp [hm']))

/-- Suspects that have been so for long enough are marked dead. -/
lemma follows_sweepSuspects :
    Follows (K.contract node kind) (fun _ _ => True) (sweepSuspects node) h := by
  refine Follows.call_bind (fun _ _ => trivial) fun expired h₁ _ hexpired => ?_
  exact follows_declareDead fun m hm => K.knows_of_expired (hexpired m hm).1 (hexpired m hm).2

lemma follows_reapDead :
    Follows (K.contract node .reaping) (fun _ _ => True) reapDead h := by
  refine Follows.call_bind (fun _ _ => trivial) fun expired h₁ _ _ => ?_
  simp only
  split_ifs
  · exact Follows.pure fun _ _ => trivial
  · exact Follows.call (fun _ _ => rfl) fun _ _ _ _ _ _ => trivial

/-- A change of readiness is told in a record of the node's own. -/
lemma follows_healthTurn {ready : Bool} :
    Follows (K.contract node kind) (fun _ _ => True) (healthTurn node ready) h := by
  refine Follows.call_bind (fun _ _ => trivial) fun changed h₁ _ _ => ?_
  split_ifs
  · refine Follows.call_bind (fun _ _ => trivial) fun current h₂ _ hown => ?_
    refine Follows.call_bind (fun _ _ => trivial) fun len h₃ hlater₃ _ => ?_
    exact Follows.call (fun h₄ hlater₄ => K.knows_later (hlater₃.trans hlater₄) hown.knows)
      fun _ _ _ _ _ _ => trivial
  · exact Follows.pure fun _ _ => trivial

/-! ## Every task -/

/-- What a task of a kind works on: the message it handles, or the detector's target. -/
def Starts (K : Knowledge) (h : Trace) : Kind → Prop
  | .datagram _ body => K.Udp h body
  | .serve _ body => K.Tcp h body
  | .probing target => K.copied h target
  | .judging target _ => K.copied h target
  | _ => True

/-- What a task of a kind returns. -/
def Returns (K : Knowledge) : (kind : Kind) → kind.Out → Trace → Prop
  | .choosing _, found, h => K.Copies found h
  | _, _, _ => True

lemma Starts.later (hlater : Later h h') (hkind : K.Starts h kind) : K.Starts h' kind := by
  cases kind with
  | datagram src body => exact Udp.later hlater hkind
  | serve conn body => exact Tcp.later hlater hkind
  | probing target => exact K.copied_later hlater hkind
  | judging target acked => exact K.copied_later hlater hkind
  | _ => trivial

theorem follows_start (hkind : K.Starts h kind) :
    Follows (K.contract node kind) (K.Returns kind) (kind.start node) h := by
  cases kind with
  | datagram src body => exact follows_handleDatagram hkind
  | relay relay => exact follows_handlePingReq rfl
  | serve conn body => exact follows_serve hkind
  | sync => exact follows_syncTurn rfl
  | health ready => exact follows_healthTurn
  | join seeds => exact follows_join rfl
  | leaving => exact Follows.call (fun _ _ => trivial) fun _ _ _ _ _ _ => trivial
  | announcing => exact follows_announceLeave
  | choosing order => exact follows_nextInPasses 2 order
  | probing target => exact follows_probe rfl
  | judging target acked => exact follows_handleResult
  | sweeping => exact follows_sweepSuspects
  | reaping => exact follows_reapDead

end Knowledge

end Dalila
