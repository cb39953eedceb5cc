import Dalila.Deeds

/-!
# How nodes talk about probes

`conduct` is what has happened before a task sends a datagram, waits for an answer or takes one for
the answer to a probe. The file proves that every operation of every run keeps to it
(`Run.conduct`): in particular, acks answer pings that were handled, and relays report acks that
arrived.
-/

namespace Dalila

open Program

/-- The gossip on a datagram. -/
def UdpBody.gossip : UdpBody → List WireMember
  | .ping _ _ gossip => gossip
  | .ack _ _ gossip => gossip
  | .pingReq _ _ _ gossip => gossip
  | .pingReqAck _ _ _ gossip => gossip
  | .leave _ => []

lemma GossipQueue.length_take_le (queue : GossipQueue) : queue.take.1.length ≤ MAX_PIGGYBACK := by
  show ((List.take MAX_PIGGYBACK queue.freshestFirst).map Pending.rumor).length ≤ MAX_PIGGYBACK
  rw [List.length_map]
  exact List.length_take_le _ _

section

variable (h₀ : Trace) (q : NodeId) (slot : Slot) (kind : Kind)

/-- The task has drawn this number since it started. -/
def Drew (seq : UInt32) (h : Trace) : Prop :=
  ∃ h₁, Later h₀ h₁ ∧ Happened (.op q slot kind .fetchSeq seq) h₁ h

/-- The task has waited for an answer about `subject`, under a number it had drawn, and got
one. -/
def Answered (subject : NodeId) (h : Trace) : Prop :=
  ∃ seq channel deadline h₁ h₂, Drew h₀ q slot kind seq h₁ ∧
    Happened (.op q slot kind (.register seq subject) channel) h₁ h₂ ∧
    Happened (.op q slot kind (.acked channel deadline) true) h₂ h

/-- Every probe the task has registered since it started has been forgotten again, but for
those it `owes`. -/
def Settled (owes : UInt32 → Prop) (h : Trace) : Prop :=
  ∀ seq subject channel h₁, Later h₀ h₁ →
    Happened (.op q slot kind (.register seq subject) channel) h₁ h →
    owes seq ∨ ∃ h₂, Happened (.op q slot kind (.register seq subject) channel) h₁ h₂ ∧
      Happened (.op q slot kind (.forget seq) ()) h₂ h

/-- What stands behind a datagram. -/
structure Speaks (dst : SocketAddr) (body : UdpBody) (h : Trace) : Prop where
  sender : body.sender.id = q
  gossip : body.gossip.length ≤ MAX_PIGGYBACK
  grounds : match body with
    | .ping seq _ _ => Drew h₀ q slot kind seq h
    | .ack seq _ _ => ∃ sender gossip, kind = .datagram dst (.ping seq sender gossip)
    | .pingReq seq _ target _ => Drew h₀ q slot kind seq h ∧
        ∃ member : Member, kind = .probing member ∧ member.id = target
    | .pingReqAck seq _ target _ => kind = .relay (seq, target, dst) ∧
        Answered h₀ q slot kind target h
    | .leave _ => True

/-- What a task may do. -/
def conduct : Op → Trace → Prop
  | .sendUdp dst body, h => Speaks h₀ q slot kind dst body h
  | .register seq _, h => Drew h₀ q slot kind seq h
  | .resolve seq subject, _ => ∃ src sender gossip,
      kind = .datagram src (.ack seq sender gossip) ∧ sender.id = subject ∨
        kind = .datagram src (.pingReqAck seq sender subject gossip)
  | _, _ => True

/-- What a task of `kind` leaves behind. -/
def Leaves : (kind : Kind) → kind.Out → Trace → Prop
  | .datagram src body, relay, _ => ∀ seq target asker, relay = some (seq, target, asker) →
      asker = src ∧ ∃ sender gossip, body = .pingReq seq sender target gossip
  | .relay relay, _, h => Settled h₀ q slot (.relay relay) (fun _ => False) h
  | .probing target, acked, h => Settled h₀ q slot (.probing target) (fun _ => False) h ∧
      (acked = true → Answered h₀ q slot (.probing target) target.id h)
  | _, _, _ => True

end

variable {h₀ h h' : Trace} {q : NodeId} {slot : Slot} {kind : Kind} {owes : UInt32 → Prop}
  {seq : UInt32} {subject : NodeId} {may : Op → Trace → Prop}

/-! ## What stays true -/

/-- A number once drawn stays drawn. -/
lemma Drew.later (hdrew : Drew h₀ q slot kind seq h) (hlater : Later h h') :
    Drew h₀ q slot kind seq h' := by
  obtain ⟨h₁, hafter, hl⟩ := hdrew
  exact ⟨h₁, hafter, hl.later hlater⟩

lemma Answered.later (hans : Answered h₀ q slot kind subject h) (hlater : Later h h') :
    Answered h₀ q slot kind subject h' := by
  obtain ⟨seq, channel, deadline, h₁, h₂, hdrew, hreg, hacked⟩ := hans
  exact ⟨seq, channel, deadline, h₁, h₂, hdrew, hreg, hacked.later hlater⟩

/-- Nobody else registers or forgets a number for this task. -/
lemma Settled.others (hset : Settled h₀ q slot kind owes h)
    (hothers : (deeds q slot kind may).others h h') : Settled h₀ q slot kind owes h' := by
  replace hothers : LaterBy (fun l => ¬ l.acts q slot) h h' := hothers
  induction hothers with
  | refl => exact hset
  | push _ hstep ih =>
    intro seq subject channel h₁ hafter hreg
    rcases hreg.of_push with ⟨_, rfl⟩ | hbefore
    · exact absurd ⟨rfl, rfl⟩ hstep.2
    · refine (ih seq subject channel h₁ hafter hbefore).imp id ?_
      rintro ⟨h₂, hfirst, hforget⟩
      exact ⟨h₂, hfirst, hforget.later (.single hstep.1)⟩

lemma Settled.does {o : Op} {r : o.Res} (hset : Settled h₀ q slot kind owes h)
    (hdoes : (deeds q slot kind may).does o r h h') (ho : ∀ seq subject, o ≠ .register seq subject) :
    Settled h₀ q slot kind owes h' := by
  obtain ⟨_, c, hstep, rfl⟩ := hdoes
  intro seq subject channel h₁ hafter hreg
  rcases hreg.of_push with ⟨_, hlabel⟩ | hbefore
  · injection hlabel with _ _ _ hop
    exact absurd hop.symm (ho seq subject)
  · refine (hset seq subject channel h₁ hafter hbefore).imp id ?_
    rintro ⟨h₂, hfirst, hforget⟩
    exact ⟨h₂, hfirst, hforget.later (.single hstep)⟩

/-- What is registered is owed. -/
lemma Settled.register {channel : Channel} (hset : Settled h₀ q slot kind (fun _ => False) h)
    (hdoes : (deeds q slot kind may).does (.register seq subject) channel h h') :
    Settled h₀ q slot kind (fun seq' => seq' = seq) h' := by
  obtain ⟨_, c, hstep, rfl⟩ := hdoes
  intro seq' subject' channel' h₁ hafter hreg
  rcases hreg.of_push with ⟨_, hlabel⟩ | hbefore
  · injection hlabel with _ _ _ hop
    injection hop with hseq
    exact .inl hseq
  · refine .inr ?_
    obtain ⟨h₂, hfirst, hforget⟩ := (hset seq' subject' channel' h₁ hafter hbefore).resolve_left id
    exact ⟨h₂, hfirst, hforget.later (.single hstep)⟩

/-- Who has forgotten its number owes nothing. -/
lemma Settled.forget {u : Unit} (hset : Settled h₀ q slot kind (fun seq' => seq' = seq) h)
    (hdoes : (deeds q slot kind may).does (.forget seq) u h h') :
    Settled h₀ q slot kind (fun _ => False) h' := by
  obtain ⟨hrun, c, hstep, rfl⟩ := hdoes
  intro seq' subject channel h₁ hafter hreg
  rcases hreg.of_push with ⟨_, hlabel⟩ | hbefore
  · injection hlabel with _ _ _ hop
    exact absurd hop (by simp)
  · refine .inr ?_
    rcases hset seq' subject channel h₁ hafter hbefore with rfl | ⟨h₂, hfirst, hforget⟩
    · exact ⟨h, hbefore, .of_step hrun hstep⟩
    · exact ⟨h₂, hfirst, hforget.later (.single hstep)⟩

/-! ## Programs that are not about probes -/

/-- The program sends no datagram, and neither registers nor answers a probe. -/
abbrev Discreet {α : Type} : Prog α → Prop :=
  AtWaits (fun o => match o with
    | .sendUdp _ _ | .register _ _ | .resolve _ _ => True
    | _ => False) fun _ => False

section

variable {node : LocalNode}

lemma Discreet.bind {α β : Type} {prog : Prog α} {f : α → Prog β} (hprog : Discreet prog)
    (hf : ∀ a, Discreet (f a)) : Discreet (prog >>= f) :=
  AtWaits.bind hprog (fun _ => False.elim) hf

lemma discreet_apply (rumor : WireMember) : Discreet (apply node rumor) := by
  unfold apply
  refine AtWaits.call_bind id fun outcome => AtWaits.call_bind id fun len => ?_
  cases outcome with
  | ignored => trivial
  | refute rumored =>
    refine AtWaits.call_bind id fun _ => AtWaits.call_bind id fun answer => ?_
    cases answer with
    | none => trivial
    | some _ => exact AtWaits.call_bind id fun _ => AtWaits.call_bind id fun _ => trivial
  | _ => exact AtWaits.call_bind id fun _ => trivial

lemma discreet_applyAll (rumors : List WireMember) : Discreet (applyAll node rumors) := by
  induction rumors with
  | nil => trivial
  | cons rumor rumors ih => exact (discreet_apply rumor).bind fun _ => ih

lemma discreet_absorb (sender : WireIdentity) (members : List WireMember) :
    Discreet (absorb node sender members) :=
  (discreet_apply _).bind fun _ => discreet_applyAll members

lemma discreet_exchange (addr : SocketAddr) {body : Prog TcpBody} (hbody : Discreet body) :
    Discreet (exchange addr body) := by
  unfold exchange
  refine AtWaits.call_bind id fun conn => ?_
  cases conn with
  | none => trivial
  | some conn =>
    refine hbody.bind fun body => AtWaits.call_bind id fun ok => ?_
    split_ifs
    · exact ⟨id, fun _ => trivial⟩
    · trivial

lemma discreet_syncTurn : Discreet (syncTurn node) := by
  unfold syncTurn
  refine AtWaits.call_bind id fun partner => ?_
  cases partner with
  | none => trivial
  | some partner =>
    refine (discreet_exchange _ ?_).bind fun reply => ?_
    · exact AtWaits.call_bind id fun _ => AtWaits.call_bind id fun _ => trivial
    · split
      · exact discreet_absorb _ _
      · trivial

lemma discreet_join (seeds : List SocketAddr) : Discreet (join node seeds) := by
  refine AtWaits.call_bind id fun current => ?_
  induction seeds with
  | nil => trivial
  | cons seed seeds ih =>
    refine (discreet_exchange _ (show Discreet (pure _) from trivial)).bind fun reply => ?_
    split
    · exact (discreet_absorb _ _).bind fun _ => trivial
    · exact ih

lemma discreet_respond (body : TcpBody) : Discreet (respond node body) := by
  cases body with
  | joinRequest sender =>
    refine Discreet.bind ?_ fun _ => trivial
    exact AtWaits.call_bind id fun _ => (discreet_apply _).bind fun _ =>
      AtWaits.call_bind id fun _ => trivial
  | membersRequest => exact AtWaits.call_bind id fun _ => AtWaits.call_bind id fun _ => trivial
  | syncRequest sender members =>
    exact AtWaits.call_bind id fun _ => AtWaits.call_bind id fun _ =>
      (discreet_absorb _ _).bind fun _ => trivial
  | _ => trivial

lemma discreet_serve (conn : Conn) (body : TcpBody) : Discreet (serve node conn body) := by
  refine (discreet_respond body).bind fun reply => ?_
  cases reply with
  | none => trivial
  | some reply => exact AtWaits.call_bind id fun _ => trivial

lemma discreet_nextInPass (order : List NodeId) : Discreet (nextInPass order) := by
  induction order with
  | nil => trivial
  | cons id order ih =>
    refine AtWaits.call_bind (fun hno => hno) fun member => ?_
    cases member with
    | none => exact ih
    | some member =>
      show Discreet (if member.state.isDead then nextInPass order else pure (some member, order))
      split_ifs
      · exact ih
      · trivial

lemma discreet_nextTarget (order : List NodeId) : Discreet (nextTarget order) := by
  unfold nextTarget
  generalize 2 = passes
  induction passes generalizing order with
  | zero => trivial
  | succ passes ih =>
    refine (discreet_nextInPass order).bind fun found => ?_
    obtain ⟨member, rest⟩ := found
    cases member with
    | some member => trivial
    | none => exact AtWaits.call_bind id fun order => ih order

lemma discreet_mark (member : Member) (state : WireMemberState) :
    Discreet (mark node member state) := (discreet_apply _).bind fun _ => trivial

lemma discreet_declareDead (members : List Member) : Discreet (declareDead node members) := by
  induction members with
  | nil => trivial
  | cons member members ih => exact (discreet_mark member .dead).bind fun _ => ih

lemma discreet_reapDead : Discreet reapDead := by
  refine AtWaits.call_bind id fun expired => ?_
  show Discreet (if (expired.map Member.id).isEmpty then pure () else Op.call (.remove _))
  split_ifs
  · trivial
  · exact ⟨id, fun _ => trivial⟩

lemma discreet_healthTurn (ready : Bool) : Discreet (healthTurn node ready) := by
  refine AtWaits.call_bind id fun changed => ?_
  show Discreet (if changed = true then _ else _)
  split_ifs
  · exact AtWaits.call_bind id fun _ => AtWaits.call_bind id fun _ => ⟨id, fun _ => trivial⟩
  · trivial

/-- The tasks that have to do with datagrams. -/
def Kind.speaks : Kind → Bool
  | .datagram _ _ | .relay _ | .probing _ | .announcing => true
  | _ => false

/-- The other tasks are not about probes. -/
lemma discreet_start (hkind : ¬ kind.speaks = true) : Discreet (kind.start node) := by
  cases kind with
  | datagram | relay | probing | announcing => exact absurd rfl hkind
  | serve conn body => exact discreet_serve conn body
  | sync => exact discreet_syncTurn
  | health ready => exact discreet_healthTurn ready
  | join seeds => exact discreet_join seeds
  | leaving => exact ⟨id, fun _ => trivial⟩
  | choosing order => exact discreet_nextTarget order
  | judging target acked =>
    cases acked with
    | true => trivial
    | false => exact (discreet_mark target .suspect).bind fun _ => trivial
  | sweeping => exact AtWaits.call_bind id fun _ => discreet_declareDead _
  | reaping => exact discreet_reapDead

end

/-- A program that is not about probes has nothing to keep to. -/
lemma Discreet.keeps {α : Type} {prog : Prog α} (hprog : Discreet prog) (h : Trace) :
    Keeps (deeds q slot kind (conduct h₀ q slot kind)) (fun _ _ => True) prog h := by
  refine AtWaits.keeps hprog ?_ h
  intro o ho _
  cases o with
  | sendUdp => exact absurd trivial ho
  | register => exact absurd trivial ho
  | resolve => exact absurd trivial ho
  | _ => trivial

/-! ## Programs that are -/

section

variable {node : LocalNode} {target : NodeId} {addr : SocketAddr}

/-- What holds as long as the task's own operations are not about probes. -/
abbrev Probing (h₀ : Trace) (q : NodeId) (slot : Slot) (kind : Kind) : Regime Op Op.Res Trace :=
  deeds q slot kind (conduct h₀ q slot kind)

/-- Reading `current`, taking gossip and sending both. -/
lemma keeps_tell {α : Type} {B : WireIdentity → List WireMember → UdpBody}
    {next : Incarnation × Bool → List WireMember → Bool → Prog α} {Q : α → Trace → Prop}
    (hset : Settled h₀ q slot kind owes h)
    (hsay : ∀ current gossip h', Later h h' → gossip.length ≤ MAX_PIGGYBACK →
      Speaks h₀ q slot kind addr (B (node.identity current) gossip) h')
    (hnext : ∀ current gossip ok h', Later h h' → Settled h₀ q slot kind owes h' →
      Keeps (Probing h₀ q slot kind) Q (next current gossip ok) h') :
    Keeps (Probing h₀ q slot kind) Q
      (do
        let current ← Op.call .current
        let gossip ← Op.call .take
        let ok ← Op.call (.sendUdp addr (B (node.identity current) gossip))
        next current gossip ok) h := by
  refine Keeps.call_bind (fun _ _ => trivial) fun current t₁ h₁ ho₁ hd₁ => ?_
  refine Keeps.call_bind (fun _ _ => trivial) fun gossip t₂ h₂ ho₂ hd₂ => ?_
  have hlater : Later h h₂ :=
    (Later.of_both ho₁ hd₁).trans (Later.of_both ho₂ hd₂)
  have hset₂ := ((((hset.others ho₁).does hd₁ (by simp)).others ho₂).does hd₂ (by simp))
  have hgossip : gossip.length ≤ MAX_PIGGYBACK := by
    obtain ⟨_, c, hstep, _⟩ := hd₂
    obtain ⟨p, _, shared, net, _, _, _, hop, _⟩ := hstep.of_op
    have htake : gossip = p.shared.queue.take.1 := hop.1
    rw [htake]
    exact GossipQueue.length_take_le _
  refine Keeps.call_bind ?_ fun ok t₃ h₃ ho₃ hd₃ => ?_
  · exact fun h₃ ho₃ => hsay current gossip h₃ (hlater.trans (Later.of_others ho₃)) hgossip
  · refine hnext current gossip ok h₃ ?_ ((hset₂.others ho₃).does hd₃ (by simp))
    exact hlater.trans (Later.of_both ho₃ hd₃)

/-- Giving up, or having been answered. -/
lemma keeps_forget {α : Type} {a : α} {Q : α → Trace → Prop}
    (hset : Settled h₀ q slot kind (fun seq' => seq' = seq) h)
    (hdone : ∀ h', Later h h' → Settled h₀ q slot kind (fun _ => False) h' → Q a h') :
    Keeps (Probing h₀ q slot kind) Q (do Op.call (.forget seq); pure a) h := by
  refine Keeps.call_bind (fun _ _ => trivial) fun _ t₁ h₁ ho₁ hd₁ => Keeps.pure fun h₂ ho₂ => ?_
  refine hdone h₂ ?_ (((hset.others ho₁).forget hd₁).others ho₂)
  exact (Later.of_both ho₁ hd₁).trans (Later.of_others ho₂)

/-- Waiting for the answer to what was registered. -/
lemma keeps_await {channel : Channel} {timeout : Instant} {h₁ : Trace}
    (hset : Settled h₀ q slot kind (fun seq' => seq' = seq) h)
    (hdrew : Drew h₀ q slot kind seq h₁)
    (hreg : Happened (.op q slot kind (.register seq subject) channel) h₁ h) :
    Keeps (Probing h₀ q slot kind)
      (fun acked h' => Settled h₀ q slot kind (fun _ => False) h' ∧
        (acked = true → Answered h₀ q slot kind subject h'))
      (do
        let started ← Op.call .now
        let acked ← Op.call (.acked channel (started + timeout))
        Op.call (.forget seq)
        pure acked) h := by
  refine Keeps.call_bind (fun _ _ => trivial) fun started t₂ h₂ ho₂ hd₂ => ?_
  refine Keeps.call_bind (fun _ _ => trivial) fun acked t₃ h₃ ho₃ hd₃ => ?_
  have hset₃ := ((((hset.others ho₂).does hd₂ (by simp)).others ho₃).does hd₃ (by simp))
  refine keeps_forget hset₃ fun h₄ hlater hdone => ⟨hdone, ?_⟩
  rintro rfl
  have hbefore : Later h t₃ :=
    (Later.of_both ho₂ hd₂).trans (Later.of_others ho₃)
  exact ⟨seq, channel, started + timeout, h₁, t₃, hdrew, hreg.later hbefore,
    (Happened.of_does hd₃).later hlater⟩

/-- A ping goes out under the number its task drew, and an answer to it is the target's. -/
lemma keeps_ping (hid : node.id = q) (hset : Settled h₀ q slot kind (fun _ => False) h)
    (hdrew : Drew h₀ q slot kind seq h) :
    Keeps (Probing h₀ q slot kind)
      (fun acked h' => Settled h₀ q slot kind (fun _ => False) h' ∧
        (acked = true → Answered h₀ q slot kind target h'))
      (ping node target addr seq) h := by
  unfold ping
  refine Keeps.call_bind (fun t ho => hdrew.later (Later.of_others ho))
    fun channel t₁ h₁ ho₁ hd₁ => ?_
  have hdrew₁ := hdrew.later (Later.of_others ho₁)
  have hset₁ := (hset.others ho₁).register hd₁
  refine keeps_tell (B := .ping seq) hset₁ ?_ ?_
  · intro current gossip h₂ hlater hgossip
    have hgrounds := hdrew₁.later ((Later.of_does hd₁).trans hlater)
    exact ⟨hid, hgossip, hgrounds⟩
  · intro _ _ ok h₂ hlater hset₂
    cases ok with
    | true => exact keeps_await hset₂ hdrew₁ ((Happened.of_does hd₁).later hlater)
    | false => exact keeps_forget hset₂ fun h₃ _ hdone => ⟨hdone, by simp⟩

lemma keeps_askRelays (hid : node.id = q) (relays : List Member) (sent : ℕ)
    (hset : Settled h₀ q slot kind owes h) (hdrew : Drew h₀ q slot kind seq h)
    (hkind : ∃ member : Member, kind = .probing member ∧ member.id = target) :
    Keeps (Probing h₀ q slot kind) (fun _ h' => Settled h₀ q slot kind owes h')
      (askRelays node target seq relays sent) h := by
  induction relays generalizing sent h with
  | nil => exact Keeps.pure fun h' ho => hset.others ho
  | cons relay relays ih =>
    unfold askRelays
    refine keeps_tell (B := fun sender => .pingReq seq sender target) hset ?_ ?_
    · intro current gossip h₁ hlater hgossip
      have hgrounds := hdrew.later hlater
      exact ⟨hid, hgossip, hgrounds, hkind⟩
    · intro _ _ ok h₁ hlater hset₁
      exact ih _ hset₁ (hdrew.later hlater)

/-- Relays are asked only for a target that is being probed. -/
lemma keeps_pingReq (hid : node.id = q) (relays : List Member)
    (hset : Settled h₀ q slot kind (fun _ => False) h) (hdrew : Drew h₀ q slot kind seq h)
    (hkind : ∃ member : Member, kind = .probing member ∧ member.id = target) :
    Keeps (Probing h₀ q slot kind)
      (fun acked h' => Settled h₀ q slot kind (fun _ => False) h' ∧
        (acked = true → Answered h₀ q slot kind target h'))
      (pingReq node target relays seq) h := by
  unfold pingReq
  refine Keeps.call_bind (fun t ho => hdrew.later (Later.of_others ho))
    fun channel t₁ h₁ ho₁ hd₁ => ?_
  have hdrew₁ := hdrew.later (Later.of_others ho₁)
  have hset₁ := (hset.others ho₁).register hd₁
  have hask : Keeps _ _ (askRelays node target seq relays 0) h₁ :=
    keeps_askRelays hid relays 0 hset₁ (hdrew₁.later (Later.of_does hd₁)) hkind
  refine Keeps.bind (keeps_later hask) ?_
  rintro sent h₂ ⟨hset₂, hlater⟩
  split_ifs
  · exact keeps_forget hset₂ fun h₃ _ hdone => ⟨hdone, by simp⟩
  · exact keeps_await hset₂ hdrew₁ ((Happened.of_does hd₁).later hlater)

/-- Drawing a number. -/
lemma Drew.of_does {t : Trace} (hafter : Later h₀ t)
    (hdoes : (deeds q slot kind may).does .fetchSeq seq t h) : Drew h₀ q slot kind seq h :=
  ⟨t, hafter, .of_does hdoes⟩

/-- A task that has just started has registered nothing. -/
lemma settled_start : Settled h₀ q slot kind (fun _ => False) h₀ := by
  intro seq subject channel h₁ hafter hreg
  exact absurd (hreg.later hafter) Happened.irrefl

lemma settled_true : Settled h₀ q slot kind (fun _ => True) h :=
  fun _ _ _ _ _ _ => .inl trivial

/-- A probe pings directly and then through relays, under one number. -/
lemma keeps_probe {member : Member} (hid : node.id = q) :
    Keeps (Probing h₀ q slot (.probing member)) (Leaves h₀ q slot (.probing member))
      (probe node member) h₀ := by
  have hset : Settled h₀ q slot (.probing member) (fun _ => False) h₀ := settled_start
  unfold probe
  refine Keeps.call_bind (fun _ _ => trivial) fun seq t₁ h₁ ho₁ hd₁ => ?_
  have hdrew : Drew h₀ q slot (.probing member) seq h₁ := .of_does (Later.of_others ho₁) hd₁
  have hping : Keeps _ _ (ping node member.id member.addr seq) h₁ :=
    keeps_ping hid ((hset.others ho₁).does hd₁ (by simp)) hdrew
  refine Keeps.bind (keeps_later hping) ?_
  rintro acked h₂ ⟨⟨hset₂, hans⟩, hlater₂⟩
  cases acked with
  | true => exact Keeps.pure fun h₃ ho₃ =>
      ⟨hset₂.others ho₃, fun _ => (hans rfl).later (Later.of_others ho₃)⟩
  | false =>
    -- our own ping got nothing
    refine Keeps.call_bind (fun _ _ => trivial) fun relays t₃ h₃ ho₃ hd₃ => ?_
    have hset₃ := (hset₂.others ho₃).does hd₃ (by simp)
    show Keeps _ _ (if relays.isEmpty then pure false else _) h₃
    split_ifs
    · exact Keeps.pure fun h₄ ho₄ => ⟨hset₃.others ho₄, by simp⟩
    · refine Keeps.call_bind (fun _ _ => trivial) fun seq' t₄ h₄ ho₄ hd₄ => ?_
      have hlater₄ : Later h₀ t₄ :=
        ((Later.of_both ho₁ hd₁).trans hlater₂).trans
          ((Later.of_both ho₃ hd₃).trans (Later.of_others ho₄))
      exact keeps_pingReq hid relays ((hset₃.others ho₄).does hd₄ (by simp))
        (.of_does hlater₄ hd₄) ⟨member, rfl, rfl⟩

/-- A relay reports an ack only if one has arrived. -/
lemma keeps_handlePingReq {relay : UInt32 × NodeId × SocketAddr} (hid : node.id = q) :
    Keeps (Probing h₀ q slot (.relay relay)) (Leaves h₀ q slot (.relay relay))
      (handlePingReq node relay.1 relay.2.1 relay.2.2) h₀ := by
  have hset : Settled h₀ q slot (.relay relay) (fun _ => False) h₀ := settled_start
  unfold handlePingReq
  refine Keeps.call_bind (fun _ _ => trivial) fun found t₁ h₁ ho₁ hd₁ => ?_
  have hset₁ := (hset.others ho₁).does hd₁ (by simp)
  cases found with
  | none => exact Keeps.pure fun h₂ ho₂ => hset₁.others ho₂
  | some member =>
    refine Keeps.call_bind (fun _ _ => trivial) fun seq t₂ h₂ ho₂ hd₂ => ?_
    have hdrew : Drew h₀ q slot (.relay relay) seq h₂ :=
      .of_does ((Later.of_both ho₁ hd₁).trans (Later.of_others ho₂)) hd₂
    have hping : Keeps _ _ (ping node relay.2.1 member.addr seq) h₂ :=
      keeps_ping hid ((hset₁.others ho₂).does hd₂ (by simp)) hdrew
    refine Keeps.bind hping ?_
    rintro acked h₃ ⟨hset₃, hans⟩
    cases acked with
    | false => exact Keeps.pure fun h₄ ho₄ => hset₃.others ho₄
    | true =>
      refine keeps_tell (B := fun sender => .pingReqAck relay.1 sender relay.2.1) hset₃ ?_ ?_
      · intro current gossip h₄ hlater hlen
        exact ⟨hid, hlen, rfl, (hans rfl).later hlater⟩
      · intro _ _ _ h₄ _ hset₄
        exact Keeps.pure fun h₅ ho₅ => hset₄.others ho₅

/-- An ack is sent for the very ping that is being handled. -/
lemma keeps_handleDatagram {src : SocketAddr} {body : UdpBody} (hid : node.id = q) :
    Keeps (Probing h₀ q slot (.datagram src body)) (Leaves h₀ q slot (.datagram src body))
      (handleDatagram node src body) h₀ := by
  cases body with
  | ping seq sender gossip =>
    refine Keeps.bind ((discreet_applyAll gossip).keeps h₀) fun _ h₁ _ => ?_
    refine Keeps.bind (Q := fun _ _ => True) ?_ fun _ h₂ _ => Keeps.pure fun _ _ => by simp [Leaves]
    unfold handlePing
    refine keeps_tell (B := .ack seq) settled_true ?_
      fun _ _ _ _ _ _ => Keeps.pure fun _ _ => trivial
    intro current gossip' h' _ hlen
    exact ⟨hid, hlen, sender, gossip, rfl⟩
  | pingReq seq sender target gossip =>
    refine Keeps.bind ((discreet_applyAll gossip).keeps h₀) fun _ h₁ _ => Keeps.pure fun _ _ => ?_
    intro seq' target' asker heq
    injection heq with heq
    obtain ⟨rfl, rfl, rfl⟩ : seq = seq' ∧ target = target' ∧ src = asker := by simpa using heq
    exact ⟨rfl, sender, gossip, rfl⟩
  | ack seq sender gossip =>
    refine Keeps.bind ((discreet_applyAll gossip).keeps h₀) fun _ h₁ _ => ?_
    refine Keeps.call_bind ?_ fun _ _ _ _ _ => Keeps.pure fun _ _ => by simp [Leaves]
    exact fun _ _ => ⟨src, sender, gossip, .inl ⟨rfl, rfl⟩⟩
  | pingReqAck seq sender target gossip =>
    refine Keeps.bind ((discreet_applyAll gossip).keeps h₀) fun _ h₁ _ => ?_
    refine Keeps.call_bind ?_ fun _ _ _ _ _ => Keeps.pure fun _ _ => by simp [Leaves]
    exact fun _ _ => ⟨src, sender, gossip, .inr rfl⟩
  | leave sender =>
    refine Keeps.bind (Q := fun _ _ => True) ?_ fun _ h₂ _ => Keeps.pure fun _ _ => by simp [Leaves]
    have hdeath : Discreet (handleLeave node sender) := (discreet_apply _).bind fun _ => trivial
    exact hdeath.keeps h₀

lemma keeps_sendEach {body : UdpBody} (hbody : ∀ dst h, Speaks h₀ q slot kind dst body h)
    (members : List Member) (told : ℕ) :
    Keeps (Probing h₀ q slot kind) (fun _ _ => True) (sendEach body members told) h := by
  induction members generalizing told h with
  | nil => exact Keeps.pure fun _ _ => trivial
  | cons member members ih => exact Keeps.call_bind (fun _ _ => hbody _ _) fun _ _ _ _ _ => ih _

lemma keeps_announceLeave (hid : node.id = q) :
    Keeps (Probing h₀ q slot kind) (fun _ _ => True) (announceLeave node) h := by
  unfold announceLeave
  refine Keeps.call_bind (fun _ _ => trivial) fun current t₁ h₁ _ _ => ?_
  refine Keeps.call_bind (fun _ _ => trivial) fun members t₂ h₂ _ _ => ?_
  refine keeps_sendEach (fun dst h => ?_) members 0
  exact ⟨hid, Nat.zero_le _, trivial⟩

/-- Every kind of task behaves. -/
lemma keeps_start (h₀ : Trace) (q : NodeId) (node : LocalNode) (slot : Slot) (kind : Kind)
    (hid : node.id = q) :
    Keeps (Probing h₀ q slot kind) (Leaves h₀ q slot kind) (kind.start node) h₀ := by
  by_cases hkind : kind.speaks = true
  · cases kind with
    | datagram src body => exact keeps_handleDatagram hid
    | relay relay => exact keeps_handlePingReq hid
    | probing member => exact keeps_probe hid
    | announcing => exact (keeps_announceLeave hid).imp fun _ _ _ => trivial
    | _ => exact absurd hkind (by simp [Kind.speaks])
  · refine ((discreet_start hkind).keeps h₀).imp fun out h _ => ?_
    cases kind with
    | datagram | relay | probing => exact absurd rfl hkind
    | _ => trivial

end

/-- What every task has done, and what it leaves behind. -/
theorem Run.conduct {p : Process} (hrun : Run h) (hp : h.now.procs q = some p)
    (halive : p.stopped = false) {task : Task} (htask : p.tasks slot = some task) :
    ∃ h₀, Since q slot task.kind h₀ h ∧
      Keeps (Probing h₀ q slot task.kind) (Leaves h₀ q slot task.kind) task.prog h :=
  Run.deeds keeps_start hrun hp halive htask

end Dalila
