import Dalila.Manner
import Dalila.Vouching

/-!
# What replies say

A connection belongs to the process that opened it, and carries one request and its reply. `Replies`
says what a reply tells of the server between the moment it began to serve the request and the
moment it wrote the answer, and `Replied` names these moments. The file proves that every reply in a
run is one of these, and what a join has gone through when it succeeds (`LetIn`).
-/

namespace Dalila

open Program

variable {h h' a : Trace} {q : NodeId} {p p' : Process} {slot : Slot} {kind : Kind}
  {node : LocalNode} {conn : Conn} {body reply : TcpBody}

/-! ## Requests and their replies -/

/-- The request says who it comes from. -/
def TcpBody.SentBy (node : LocalNode) (body : TcpBody) : Prop :=
  ∃ sender, body.sender = some sender ∧ sender.id = node.id ∧ sender.addr = node.addr

/-- The request was made: by a process on a connection of its own, or by a client outside. -/
inductive Asked (h : Trace) (conn : Conn) : TcpBody → Prop where
  | request (id : NodeId) (slot : Slot) (kind : Kind) (body : TcpBody) (h₀ : Trace)
      (hclient : conn.client = some id)
      (hbody : ∃ p, h₀.now.procs id = some p ∧ body.SentBy p.node)
      (htook : History.Took Step (.op id slot kind (.writeRequest conn body) true) h₀ h) :
      Asked h conn body
  | query (h₀ : Trace) (hclient : conn.client = none)
      (htook : History.Took Step (.query conn) h₀ h) : Asked h conn .membersRequest

lemma Asked.later (hlater : Later h h') (hasked : Asked h conn body) : Asked h' conn body := by
  cases hasked with
  | request id slot kind body h₀ hclient hbody htook =>
    exact .request id slot kind body h₀ hclient hbody (htook.later hlater)
  | query h₀ hclient htook => exact .query h₀ hclient (htook.later hlater)

/-- Somewhere between `a` and `h` the node was as `sender` says, and somewhere its table was as
`members` says. -/
structure Listed (node : LocalNode) (a h : Trace) (sender : WireIdentity)
    (members : List WireMember) : Prop where
  sender : ∃ h₁ p, Later a h₁ ∧ Later h₁ h ∧ h₁.now.procs node.id = some p ∧
    sender = node.identity p.shared.guarded.current
  members : ∃ h₁ p, Later a h₁ ∧ Later h₁ h ∧ h₁.now.procs node.id = some p ∧
    ∃ snapshot : List Member, snapshot.Perm p.shared.table.members ∧
      members = snapshot.map WireMember.new

lemma Listed.later {sender : WireIdentity} {members : List WireMember} (hlater : Later h h')
    (hlisted : Listed node a h sender members) : Listed node a h' sender members where
  sender := by
    obtain ⟨h₁, p, ha, hh, hrest⟩ := hlisted.sender
    exact ⟨h₁, p, ha, hh.trans hlater, hrest⟩
  members := by
    obtain ⟨h₁, p, ha, hh, hrest⟩ := hlisted.members
    exact ⟨h₁, p, ha, hh.trans hlater, hrest⟩

/-- The process holds nothing lower than `r`, if it can hold what `r` is about. -/
def Process.Heeds (p : Process) (r : WireMember) : Prop :=
  r.id = p.node.id ∨ r.admissible = false ∨
    ∃ m, p.shared.table.get r.id = some m ∧ r.key ≤ m.key

/-- Somewhere between `a` and `h` the node has taken in `r`. -/
def Heeded (node : LocalNode) (a h : Trace) (r : WireMember) : Prop :=
  ∃ h₁ p, Later a h₁ ∧ Later h₁ h ∧ h₁.now.procs node.id = some p ∧ p.node = node ∧ p.Heeds r

lemma Heeded.later {r : WireMember} (hlater : Later h h') (hheeded : Heeded node a h r) :
    Heeded node a h' r := by
  obtain ⟨h₁, p, ha, hh, hrest⟩ := hheeded
  exact ⟨h₁, p, ha, hh.trans hlater, hrest⟩

/-- What was heeded since `b` was heeded since an earlier moment. -/
lemma Heeded.since {b : Trace} {r : WireMember} (hafter : Later a b) (hheeded : Heeded node b h r) :
    Heeded node a h r := by
  obtain ⟨h₁, p, hb, hrest⟩ := hheeded
  exact ⟨h₁, p, hafter.trans hb, hrest⟩

/-- A reply to a request accepted at `a`. -/
def Replies (node : LocalNode) (a h : Trace) : TcpBody → TcpBody → Prop
  | .joinRequest joiner, .joinResponse sender members =>
    Listed node a h sender members ∧ Heeded node a h joiner.intoMember
  | .membersRequest, .membersResponse sender members => Listed node a h sender members
  | .syncRequest caller theirs, .syncResponse sender members =>
    Listed node a h sender members ∧ ∀ r ∈ caller.intoMember :: theirs, Heeded node a h r
  | _, _ => False

lemma Replies.later (hlater : Later h h') (hreplies : Replies node a h body reply) :
    Replies node a h' body reply := by
  cases body <;> cases reply <;> first | exact hreplies.elim | skip
  · exact ⟨hreplies.1.later hlater, hreplies.2.later hlater⟩
  · exact Listed.later hlater hreplies
  · exact ⟨hreplies.1.later hlater, fun r hr => (hreplies.2 r hr).later hlater⟩

/-- `q` accepted the request, served it from `a` on and at `w` had the reply ready. -/
structure ServedRequest (conn : Conn) (body reply : TcpBody) (q : NodeId) (p : Process) (b a w : Trace) :
    Prop where
  asked : Asked b conn body
  accepted : History.Took Step (.accept q conn body) b a
  during : Later a w
  there : w.now.procs q = some p
  addr : p.node.addr = conn.server
  replies : Replies p.node a w body reply

/-- The reply was written: the step after `w`. -/
def WroteReply (conn : Conn) (body reply : TcpBody) (q : NodeId) (w h : Trace) : Prop :=
  ∃ slot, History.Took Step (.op q slot (.serve conn body) (.writeResponse conn reply) true) w h

/-- The reply was read: the step after `r`. -/
def ReadReply (conn : Conn) (reply : TcpBody) (q : NodeId) (kind : Kind) (r h : Trace) : Prop :=
  ∃ slot, History.Took Step (.op q slot kind (.readFrame conn) (some reply)) r h

/-- A reply that was written to a request, by the server that had accepted it. -/
def Replied (h : Trace) (conn : Conn) (reply : TcpBody) : Prop :=
  ∃ q p body b a w, ServedRequest conn body reply q p b a w ∧ WroteReply conn body reply q w h

lemma WroteReply.later {w : Trace} (hlater : Later h h') (hwrote : WroteReply conn body reply q w h) :
    WroteReply conn body reply q w h' := by
  obtain ⟨slot, htook⟩ := hwrote
  exact ⟨slot, htook.later hlater⟩

lemma WroteReply.before {w : Trace} (hwrote : WroteReply conn body reply q w h) : Later w h := by
  obtain ⟨_, htook⟩ := hwrote
  exact htook.before

lemma ReadReply.later {r : Trace} (hlater : Later h h') (hread : ReadReply conn reply q kind r h) :
    ReadReply conn reply q kind r h' := by
  obtain ⟨slot, htook⟩ := hread
  exact ⟨slot, htook.later hlater⟩

lemma ReadReply.before {r : Trace} (hread : ReadReply conn reply q kind r h) : Later r h := by
  obtain ⟨_, htook⟩ := hread
  exact htook.before

/-- A reply once written stays written. -/
lemma Replied.later (hlater : Later h h') (hreplied : Replied h conn reply) :
    Replied h' conn reply := by
  obtain ⟨q, p, body, b, a, w, hserved, hwrote⟩ := hreplied
  exact ⟨q, p, body, b, a, w, hserved, hwrote.later hlater⟩

/-- One of `seeds` has let the node in: it has accepted its request and answered, and the node has
read the answer and taken in what it says. -/
def LetIn (node : LocalNode) (seeds : List SocketAddr) (h : Trace) : Prop :=
  ∃ conn joiner sender members s seed b a w r,
    conn.client = some node.id ∧ conn.server ∈ seeds ∧
    ServedRequest conn (.joinRequest joiner) (.joinResponse sender members) s seed b a w ∧
    WroteReply conn (.joinRequest joiner) (.joinResponse sender members) s w r ∧
    ReadReply conn (.joinResponse sender members) node.id (.join seeds) r h ∧
    ∀ record ∈ sender.intoMember :: members, Heeded node r h record

lemma LetIn.later {seeds : List SocketAddr} (hlater : Later h h') (hin : LetIn node seeds h) :
    LetIn node seeds h' := by
  obtain ⟨conn, joiner, sender, members, s, seed, b, a, w, r, hclient, hserver, hserved, hwrote,
    hread, hall⟩ := hin
  exact ⟨conn, joiner, sender, members, s, seed, b, a, w, r, hclient, hserver, hserved, hwrote,
    hread.later hlater, fun record hr => (hall record hr).later hlater⟩

/-- What a task that joins leaves behind. -/
def Kind.Arrives (node : LocalNode) : (kind : Kind) → kind.Out → Trace → Prop
  | .join seeds, joined, h => joined = true → LetIn node seeds h
  | _, _, _ => True

/-! ## Who works on which connection -/

/-- A task writes requests to connections of its own process and reads their replies, and it
replies to the request it serves. -/
def dealing (node : LocalNode) (kind : Kind) (a : Trace) : Contract Op Op.Res Trace where
  later := Later
  later_refl := .refl
  later_trans := .trans
  pre o h :=
    match o with
    | .writeRequest conn body => conn.client = some node.id ∧ body.SentBy node
    | .readFrame conn => conn.client = some node.id
    | .writeResponse conn reply => ∃ body, kind = .serve conn body ∧ Replies node a h body reply
    | _ => True
  post o r h :=
    match o, r with
    | .connect addr, some conn => conn.client = some node.id ∧ conn.server = addr
    | .readFrame conn, some reply =>
      ∃ h₀, Replied h₀ conn reply ∧ ReadReply conn reply node.id kind h₀ h
    | .current, current =>
      ∃ p, h.now.procs node.id = some p ∧ current = p.shared.guarded.current
    | .snapshot, snapshot =>
      ∃ p, h.now.procs node.id = some p ∧ snapshot.Perm p.shared.table.members
    | .merge rumor me, _ => me = node.id →
      ∃ p, h.now.procs node.id = some p ∧ p.node = node ∧ p.Heeds rumor
    | _, _ => True

abbrev Deals {α : Type} (node : LocalNode) (kind : Kind) (a : Trace) (prog : Prog α) (h : Trace) :
    Prop :=
  Follows (dealing node kind a) (fun _ _ => True) prog h

lemma offline_deals (node : LocalNode) (kind : Kind) (a : Trace) :
    Offline true fun _ prog => ∀ h, Deals node kind a prog h where
  pure _ _ := Follows.pure fun _ _ => trivial
  call_bind o f ho _ hf h := by
    refine Follows.call_bind (fun _ _ => ?_) fun r h' _ _ => hf r h'
    cases o with
    | connect | writeRequest | readFrame | writeResponse => exact absurd ho (by simp [Op.online])
    | _ => trivial
  bind hp hf h := Follows.bind (hp h) fun a h' _ _ => hf a h'

section

variable {α : Type}

/-- A task that asks reads the reply on the connection it has opened. -/
lemma deals_exchange (addr : SocketAddr) {body : Prog TcpBody}
    (hbody : ∀ h, Follows (dealing node kind a) (fun body _ => body.SentBy node) body h) :
    Deals node kind a (exchange addr body) h := by
  refine Follows.call_bind (fun _ _ => trivial) fun conn h₁ _ hconn => ?_
  cases conn with
  | none => exact Follows.pure fun _ _ => trivial
  | some conn =>
    have hclient : conn.client = some node.id := hconn.1
    refine Follows.bind (hbody h₁) fun body h₂ _ hne => ?_
    refine Follows.call_bind (fun _ _ => ⟨hclient, hne⟩) fun ok h₃ _ _ => ?_
    cases ok with
    | true => exact Follows.call (fun _ _ => hclient) fun _ _ _ _ _ _ => trivial
    | false => exact Follows.pure fun _ _ => trivial

lemma deals_syncTurn : Deals node kind a (syncTurn node) h := by
  refine Follows.call_bind (fun _ _ => trivial) fun partner h₁ _ _ => ?_
  cases partner with
  | none => exact Follows.pure fun _ _ => trivial
  | some partner =>
    refine Follows.bind (deals_exchange partner.addr fun h₂ => ?_) fun reply h₃ _ _ => ?_
    · exact Follows.call_bind (fun _ _ => trivial) fun _ _ _ _ =>
        Follows.call_bind (fun _ _ => trivial) fun _ _ _ _ =>
          Follows.pure fun _ _ => ⟨_, rfl, rfl, rfl⟩
    · split
      · exact (offline_deals node kind a).manner.absorb _ _ h₃
      · exact Follows.pure fun _ _ => trivial

/-- Who applies a record has taken it in. -/
lemma heeds_apply (rumor : WireMember) :
    Follows (dealing node kind a) (fun _ h' => Heeded node h h' rumor) (apply node rumor) h := by
  refine Follows.imp_call_bind ((offline_deals node kind a).apply rumor h)
    fun _ h₁ hlater₁ hmerged _ h₂ hlater₂ _ => ?_
  obtain ⟨p, hp, hnode, hheeds⟩ := hmerged rfl
  exact ⟨h₁, p, hlater₁, hlater₂, hp, hnode, hheeds⟩

lemma heeds_applyAll (rumors : List WireMember) :
    Follows (dealing node kind a) (fun _ h' => ∀ r ∈ rumors, Heeded node h h' r)
      (applyAll node rumors) h := by
  induction rumors generalizing h with
  | nil => exact Follows.pure fun _ _ r hr => absurd hr List.not_mem_nil
  | cons rumor rumors ih =>
    refine Follows.bind (heeds_apply rumor) fun _ h₁ hlater₁ hheeded => ?_
    refine Follows.imp ih fun _ h₂ hlater₂ hall r hr => ?_
    rcases List.mem_cons.mp hr with rfl | hr
    · exact hheeded.later hlater₂
    · exact (hall r hr).since hlater₁

/-- Absorbing heeds the sender and all members. -/
lemma heeds_absorb (sender : WireIdentity) (members : List WireMember) :
    Follows (dealing node kind a)
      (fun _ h' => ∀ r ∈ sender.intoMember :: members, Heeded node h h' r)
      (absorb node sender members) h :=
  heeds_applyAll (sender.intoMember :: members)

/-- What is read in the course of serving a request is what the reply may say. -/
lemma replies_respond (body : TcpBody) :
    Follows (dealing node kind a) (fun reply h => ∀ b ∈ reply, Replies node a h body b)
      (respond node body) a := by
  have hpure : ∀ {h : Trace} {b : TcpBody}, Replies node a h body b →
      Follows (dealing node kind a) (fun reply h => ∀ b ∈ reply, Replies node a h body b)
        (Pure.pure (some b)) h := by
    intro h b hb
    refine Follows.pure fun h' hlater b' hb' => ?_
    rw [← Option.some.inj hb']
    exact hb.later hlater
  cases body with
  | joinRequest sender =>
    refine Follows.bind (Q := fun b h => Replies node a h (.joinRequest sender) b) ?_
      fun b h₁ _ hb => hpure hb
    refine Follows.call_bind (fun _ _ => trivial) fun members h₁ ha₁ hmembers => ?_
    obtain ⟨p₁, hp₁, hperm⟩ := hmembers
    refine Follows.bind (heeds_apply sender.intoMember) fun _ h₂ hlater₂ hheeded => ?_
    refine Follows.call_bind (fun _ _ => trivial) fun current h₃ hlater₃ hcurrent => ?_
    obtain ⟨p₃, hp₃, rfl⟩ := hcurrent
    have hlater : Later h₁ h₃ := hlater₂.trans hlater₃
    refine Follows.pure fun h₄ hlater₄ => ⟨⟨⟨h₃, p₃, ha₁.trans hlater, hlater₄, hp₃, rfl⟩, ?_⟩, ?_⟩
    · exact ⟨h₁, p₁, ha₁, hlater.trans hlater₄, hp₁, members, hperm, rfl⟩
    · exact (hheeded.since ha₁).later (hlater₃.trans hlater₄)
  | membersRequest =>
    refine Follows.call_bind (fun _ _ => trivial) fun current h₁ ha₁ hcurrent => ?_
    obtain ⟨p₁, hp₁, rfl⟩ := hcurrent
    refine Follows.call_bind (fun _ _ => trivial) fun members h₂ hlater₂ hmembers => ?_
    obtain ⟨p₂, hp₂, hperm⟩ := hmembers
    exact hpure ⟨⟨h₁, p₁, ha₁, hlater₂, hp₁, rfl⟩,
      ⟨h₂, p₂, ha₁.trans hlater₂, .refl h₂, hp₂, members, hperm, rfl⟩⟩
  | syncRequest sender theirs =>
    refine Follows.call_bind (fun _ _ => trivial) fun current h₁ ha₁ hcurrent => ?_
    obtain ⟨p₁, hp₁, rfl⟩ := hcurrent
    refine Follows.call_bind (fun _ _ => trivial) fun members h₂ hlater₂ hmembers => ?_
    obtain ⟨p₂, hp₂, hperm⟩ := hmembers
    refine Follows.bind (heeds_absorb sender theirs) fun _ h₃ hlater₃ hheeded => ?_
    exact hpure ⟨⟨⟨h₁, p₁, ha₁, hlater₂.trans hlater₃, hp₁, rfl⟩,
      ⟨h₂, p₂, ha₁.trans hlater₂, hlater₃, hp₂, members, hperm, rfl⟩⟩,
      fun r hr => (hheeded r hr).since (ha₁.trans hlater₂)⟩
  | _ => exact Follows.pure fun _ _ b hb => absurd hb (by simp)

/-- Serving replies to the request it was started with. -/
lemma deals_serve (conn : Conn) (body : TcpBody) :
    Deals node (.serve conn body) a (serve node conn body) a := by
  refine Follows.bind (replies_respond body) fun reply h₁ _ hreply => ?_
  cases reply with
  | none => exact Follows.pure fun _ _ => trivial
  | some reply =>
    refine Follows.call_bind ?_ fun _ _ _ _ => Follows.pure fun _ _ => trivial
    exact fun h₂ hlater => ⟨body, rfl, (hreply reply rfl).later hlater⟩

/-- A reply to a request to join is a seed's that has taken the node in. -/
lemma Replied.letIn {seeds : List SocketAddr} {sender : WireIdentity} {members : List WireMember}
    {r : Trace} (hreplied : Replied r conn (.joinResponse sender members))
    (hread : ReadReply conn (.joinResponse sender members) node.id (.join seeds) r h)
    (hclient : conn.client = some node.id) (hserver : conn.server ∈ seeds) (hlater : Later h h')
    (hheeded : ∀ record ∈ sender.intoMember :: members, Heeded node h h' record) :
    LetIn node seeds h' := by
  obtain ⟨s, seed, body, b, a, w, hserved, hwrote⟩ := hreplied
  have hreplies := hserved.replies
  cases body with
  | joinRequest joiner =>
    exact ⟨conn, joiner, sender, members, s, seed, b, a, w, r, hclient, hserver, hserved, hwrote,
      hread.later hlater, fun record hr => (hheeded record hr).since hread.before⟩
  | _ => exact hreplies.elim

/-- The first seed that answers ends the search. -/
lemma arrives_joinThrough {body : TcpBody} (hbody : body.SentBy node) (all seeds : List SocketAddr)
    (hseeds : ∀ seed ∈ seeds, seed ∈ all) :
    Follows (dealing node (.join all) a) (fun joined h => joined = true → LetIn node all h)
      (joinThrough node body seeds) h := by
  induction seeds generalizing h with
  | nil => exact Follows.pure fun _ _ hjoined => absurd hjoined (by simp)
  | cons seed seeds ih =>
    have hrest : ∀ h, Follows (dealing node (.join all) a)
        (fun joined h => joined = true → LetIn node all h) (joinThrough node body seeds) h :=
      fun h => ih fun seed hseed => hseeds seed (List.mem_cons_of_mem _ hseed)
    refine Follows.bind (Q := fun reply h => ∀ b ∈ reply, ∃ conn r, conn.client = some node.id ∧
      conn.server ∈ all ∧ Replied r conn b ∧ ReadReply conn b node.id (.join all) r h) ?_
        fun reply h₁ _ hreply => ?_
    · refine Follows.call_bind (fun _ _ => trivial) fun conn h₁ _ hconn => ?_
      cases conn with
      | none => exact Follows.pure fun _ _ b hb => absurd hb (by simp)
      | some conn =>
        obtain ⟨hclient, hserver⟩ := hconn
        refine Follows.bind (Q := fun b _ => b = body) (Follows.pure fun _ _ => rfl)
          fun b h₂ _ hb => ?_
        refine Follows.call_bind (fun _ _ => ⟨hclient, hb ▸ hbody⟩) fun ok h₃ _ _ => ?_
        cases ok with
        | false => exact Follows.pure fun _ _ b hb => absurd hb (by simp)
        | true =>
          refine Follows.call (fun _ _ => hclient) fun reply h₄ _ hpost h₅ hlater b hb => ?_
          obtain rfl : reply = some b := hb
          obtain ⟨r, hreplied, hread⟩ := hpost
          exact ⟨conn, r, hclient, hserver ▸ hseeds seed List.mem_cons_self, hreplied,
            hread.later hlater⟩
    · split
      · obtain ⟨conn, r, hclient, hserver, hreplied, hread⟩ := hreply _ rfl
        refine Follows.bind (heeds_absorb _ _) fun _ h₂ hlater₂ hheeded => ?_
        refine Follows.pure fun h₃ hlater₃ _ => ?_
        exact (hreplied.letIn hread hclient hserver hlater₂ hheeded).later hlater₃
      · exact hrest h₁

/-- Who has joined has been let in by one of the seeds. -/
lemma arrives_join (seeds : List SocketAddr) :
    Follows (dealing node (.join seeds) a) (fun joined h => joined = true → LetIn node seeds h)
      (join node seeds) h :=
  Follows.call_bind (fun _ _ => trivial) fun _ _ _ _ =>
    arrives_joinThrough ⟨_, rfl, rfl, rfl⟩ seeds seeds fun _ => id

/-- Every kind of task deals with connections as its kind may. -/
lemma deals_start (node : LocalNode) (kind : Kind) (a : Trace) :
    Follows (dealing node kind a) (kind.Arrives node) (kind.start node) a := by
  cases kind with
  | serve conn body => exact deals_serve conn body
  | sync => exact deals_syncTurn
  | join seeds => exact arrives_join seeds
  | _ => exact (offline_deals node _ a).manner.start_offline rfl (fun _ => rfl) a

end

/-! ## In every run -/

/-- What is behind a frame in the network. -/
def Packet.Made (h : Trace) : Packet → Prop
  | .udp _ _ _ => True
  | .request conn body => Asked h conn body
  | .response conn reply => Replied h conn reply

lemma Packet.Made.later {packet : Packet} (hlater : Later h h') (hmade : packet.Made h) :
    packet.Made h' := by
  cases packet with
  | udp => trivial
  | request conn body => exact Asked.later hlater hmade
  | response conn reply => exact Replied.later hlater hmade

/-- Whoever serves a request has accepted it. -/
def Kind.Accepted (node : LocalNode) (kind : Kind) (a : Trace) : Prop :=
  ∀ conn body, kind = .serve conn body → node.addr = conn.server ∧
    ∃ b, Asked b conn body ∧ History.Took Step (.accept node.id conn body) b a

/-- What a task may do to connections, and why. -/
def Task.Deals (h : Trace) (node : LocalNode) (task : Task) : Prop :=
  ∃ a, Later a h ∧ task.kind.Accepted node a ∧
    Follows (dealing node task.kind a) (task.kind.Arrives node) task.prog h

lemma Task.Deals.later {task : Task} (hlater : Later h h') (hdeals : task.Deals h node) :
    task.Deals h' node := by
  obtain ⟨a, ha, haccepted, hprog⟩ := hdeals
  exact ⟨a, ha.trans hlater, haccepted, hprog.mono hlater⟩

lemma Task.deals_start (h : Trace) (node : LocalNode) (haccepted : kind.Accepted node h) :
    (Task.start node kind).Deals h node :=
  ⟨h, .refl h, haccepted, Dalila.deals_start node kind h⟩

/-- A request is accepted by the process at the address it was sent to. -/
lemma Step.server_of_accept {c c' : Cluster} (hstep : Step c (.accept q conn body) c')
    (hp : c.procs q = some p) : p.node.addr = conn.server := by
  cases hstep with
  | accept _ p₀ n _ _ hp₀ _ _ _ hserver _ =>
    rw [Option.some.inj (hp.symm.trans hp₀), hserver]

/-- What a merge leaves. -/
lemma MemberTable.heeds_merge (table : MemberTable) (now : Instant) (rumor : WireMember)
    (me : NodeId) : rumor.id = me ∨ rumor.admissible = false ∨
      ∃ m, (table.merge now rumor me).2.get rumor.id = some m ∧ rumor.key ≤ m.key := by
  by_cases hid : rumor.id = me
  · exact .inl hid
  refine .inr ?_
  cases hget : table.get rumor.id with
  | some member =>
    obtain ⟨m, hm, hle, _⟩ := le_get_merge now hid hget
    exact .inr ⟨m, hm, hle⟩
  | none =>
    cases hadm : rumor.admissible with
    | false => exact .inl rfl
    | true =>
      refine .inr ⟨rumor.toMember now, ?_, le_of_eq (WireMember.key_toMember now rumor).symm⟩
      rw [get_merge, if_pos ⟨rfl, hid⟩, hget]
      exact Register.offer_none_of_admits entryRules (w := (rumor, now)) hadm

/-- What an operation finds out about its process. -/
lemma dealing_post {o : Op} {r : o.Res} {c : Cluster} {net : List Packet}
    (hnet : ∀ packet ∈ h.now.net, packet.Made h) (hstep : Step h.now (.op q slot kind o r) c)
    (hid : p.node.id = q) (hp' : c.procs q = some p') (hnode : p'.node = p.node)
    (hop : o.Run p.node h.now.clock ⟨p.shared, h.now.net⟩ r ⟨p'.shared, net⟩) :
    (dealing p.node kind a).post o r (h.push (.op q slot kind o r) c) := by
  cases o with
  | connect addr =>
    cases r with
    | none => trivial
    | some conn =>
      obtain ⟨rfl, _⟩ := hop
      exact ⟨rfl, rfl⟩
  | readFrame conn =>
    cases r with
    | none => trivial
    | some reply =>
      have hmade : Replied h conn reply := hnet _ hop.1
      rw [← hid]
      rw [← hid] at hstep
      exact ⟨h, hmade, slot, .of_step hstep⟩
  | current =>
    obtain ⟨rfl, hw⟩ := hop
    have hshared : p'.shared = p.shared := congrArg World.shared hw
    refine ⟨p', by rw [hid]; exact hp', ?_⟩
    rw [hshared]
  | snapshot =>
    obtain ⟨hperm, hw⟩ := hop
    have hshared : p'.shared = p.shared := congrArg World.shared hw
    refine ⟨p', by rw [hid]; exact hp', ?_⟩
    rw [hshared]
    exact hperm
  | merge rumor me =>
    rintro rfl
    obtain ⟨_, hw⟩ := hop
    have htable : p'.shared.table = (p.shared.table.merge h.now.clock rumor p.node.id).2 :=
      congrArg (fun w => w.shared.table) hw
    refine ⟨p', by rw [hid]; exact hp', hnode, ?_⟩
    unfold Process.Heeds
    rw [hnode, htable]
    exact MemberTable.heeds_merge _ _ _ _
  | _ => trivial

/-- Every frame in the network was made for a reason, and every task knows its connections. -/
lemma Run.made (hrun : Run h) : (∀ packet ∈ h.now.net, packet.Made h) ∧
    ∀ q p slot task, h.now.procs q = some p → p.stopped = false →
      p.tasks slot = some task → task.Deals h p.node := by
  refine History.IsRun.induction (P := fun h => (∀ packet ∈ h.now.net, packet.Made h) ∧
    ∀ q p slot task, h.now.procs q = some p → p.stopped = false →
      p.tasks slot = some task → task.Deals h p.node) hrun ?_ ?_
  · rintro c rfl
    exact ⟨fun packet hnet => absurd hnet List.not_mem_nil,
      fun q p slot task hp => absurd hp (by simp [History.init, Cluster.empty])⟩
  · intro h l c hrun ih hstep
    have hrun : Run h := hrun
    have hlater : Later h (h.push l c) := .single hstep
    obtain ⟨hnet, htasks⟩ := ih
    constructor
    · intro packet hpacket
      -- a frame was there before, is a query from outside, or has just been written by a task
      rcases hstep.mem_net hpacket with hold | ⟨conn, hclient, rfl, rfl⟩ | hsends
      · exact (hnet packet hold).later hlater
      · exact .query h hclient (.of_step hstep)
      · obtain ⟨q, p, slot, kind, o, next, r, hp, halive, htask, rfl, hsends⟩ := hsends
        obtain ⟨a, ha, haccepted, hprog⟩ := htasks q p slot _ hp halive htask
        have hid := (hrun.sane hp).id
        have hpre := hprog.step.1
        cases o with
        | sendUdp target body =>
          cases r with
          | false => exact absurd hsends (by simp [Op.sends])
          | true =>
            obtain rfl := Option.some.inj hsends
            trivial
        | writeRequest conn body =>
          cases r with
          | false => exact absurd hsends (by simp [Op.sends])
          | true =>
            obtain rfl := Option.some.inj hsends
            have hclient : conn.client = some q := hid ▸ hpre.1
            exact .request q slot kind body h hclient ⟨p, hp, hpre.2⟩ (.of_step hstep)
        | writeResponse conn reply =>
          cases r with
          | false => exact absurd hsends (by simp [Op.sends])
          | true =>
            obtain rfl := Option.some.inj hsends
            obtain ⟨body, rfl, hreplies⟩ := hpre
            obtain ⟨haddr, b, hasked, htook⟩ := haccepted conn body rfl
            rw [hid] at htook
            exact ⟨q, p, body, b, a, h, ⟨hasked, htook, ha, hp, haddr, hreplies⟩, slot,
              .of_step hstep⟩
        | _ => exact absurd hsends (by simp [Op.sends])
    · intro q p' slot task hp' halive htask
      have hother : ∀ kind, (∀ conn body, kind ≠ .serve conn body) →
          (Task.start p'.node kind).Deals (h.push l c) p'.node := fun kind hkind =>
        Task.deals_start _ _ fun conn body heq => absurd heq (hkind conn body)
      -- a task is bound by its contract from its start; only serving starts with a connection
      cases Task.arises hstep hp' halive htask with
      | kept p _ hp halive htask₀ =>
        rw [(hstep.grows hp hp').node]
        exact (htasks q p slot task hp halive htask₀).later hlater
      | moved p kind o next r net hp halive htask₀ hl hop =>
        subst hl
        obtain ⟨a, ha, haccepted, hprog⟩ := htasks q p slot _ hp halive htask₀
        have hnode := (hstep.grows hp hp').node
        have hpost : (dealing p.node kind a).post o r (h.push (.op q slot kind o r) c) :=
          dealing_post hnet hstep (hrun.sane hp).id hp' hnode hop
        rw [hnode]
        exact ⟨a, ha.trans hlater, haccepted, hprog.step.2 r _ hlater hpost⟩
      | followed p slot₀ kind₀ out free kind _ _ _ _ hnext =>
        refine hother kind ?_
        cases hnext <;> simp
      | begun p kind _ _ _ _ hbegins =>
        refine hother kind ?_
        cases hbegins <;> simp
      | received p src body => exact hother _ (by simp)
      | accepted p n conn body hp halive hslot hl hmem =>
        subst hl
        refine Task.deals_start _ _ fun conn' body' heq => ?_
        obtain ⟨rfl, rfl⟩ := Kind.serve.inj heq
        have hnode := (hstep.grows hp hp').node
        rw [hnode, (hrun.sane hp).id]
        exact ⟨hstep.server_of_accept hp, h, hnet _ hmem, .of_step hstep⟩
      | joining seeds => exact hother _ (by simp)

end Dalila
