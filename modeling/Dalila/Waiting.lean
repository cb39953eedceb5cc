import Dalila.Invariants

/-!
# Tasks that wait

Four kinds of task wait for somebody else's message: relays, syncs, joins and probes. What
such a task still carries while it waits says nothing about anybody but its own node.
-/

namespace Dalila

open Program

/-! ## Programs that wait -/

/-- The program never waits for anybody. -/
abbrev Silent {α : Type} : Prog α → Prop :=
  Program.AtWaits (fun o => o.awaits = true) fun _ => False

/-- Hands something to the network. -/
def Op.talks : Op → Bool
  | .sendUdp _ _ | .connect _ | .writeRequest _ _ | .writeResponse _ _ => true
  | _ => false

/-- The program works on the shared state, and neither waits nor talks. -/
abbrev Inward {α : Type} : Prog α → Prop :=
  Program.AtWaits (fun o => o.awaits = true ∨ o.talks = true) fun _ => False

/-- From every wait on, the rest of the program keeps to the contract, whatever was before. -/
abbrev Parks {α : Type} (C : Contract Op Op.Res Trace) (Q : α → Trace → Prop) : Prog α → Prop :=
  Program.AtWaits (fun o => o.awaits = true) fun p => ∀ h, Follows C Q p h

section

variable {α β : Type} {C : Contract Op Op.Res Trace} {Q : α → Trace → Prop}
  {R : β → Trace → Prop}

lemma Silent.call_bind {o : Op} {f : o.Res → Prog β} (ho : o.awaits = false)
    (hf : ∀ r, Silent (f r)) : Silent (Op.call o >>= f) :=
  AtWaits.call_bind (fun hwait => absurd (ho.symm.trans hwait) (by simp)) hf

lemma Silent.bind {p : Prog α} {f : α → Prog β} (hp : Silent p) (hf : ∀ a, Silent (f a)) :
    Silent (p >>= f) := AtWaits.bind hp (fun _ => False.elim) hf

lemma Silent.parks {p : Prog α} (hp : Silent p) : Parks C Q p :=
  AtWaits.imp hp fun _ => False.elim

lemma Inward.call_bind {o : Op} {f : o.Res → Prog β} (ho : o.awaits = false)
    (ho' : o.talks = false) (hf : ∀ r, Inward (f r)) : Inward (Op.call o >>= f) :=
  AtWaits.call_bind (fun hbad => absurd hbad (by simp [ho, ho'])) hf

lemma Inward.bind {p : Prog α} {f : α → Prog β} (hp : Inward p) (hf : ∀ a, Inward (f a)) :
    Inward (p >>= f) := AtWaits.bind hp (fun _ => False.elim) hf

lemma Inward.silent {p : Prog α} (hp : Inward p) : Silent p :=
  AtWaits.of_le (fun _ => .inl) hp

lemma Parks.call_bind {o : Op} {f : o.Res → Prog β} (ho : o.awaits = false)
    (hf : ∀ r, Parks C R (f r)) : Parks C R (Op.call o >>= f) :=
  AtWaits.call_bind (fun hwait => absurd (ho.symm.trans hwait) (by simp)) hf

lemma Parks.bind {p : Prog α} {f : α → Prog β} (hp : Parks C Q p)
    (hrest : ∀ a h, Q a h → Follows C R (f a) h) (hf : ∀ a, Parks C R (f a)) :
    Parks C R (p >>= f) :=
  AtWaits.bind hp (fun _ hfollows h => Follows.bind (hfollows h) fun a h' _ => hrest a h') hf

lemma Parks.silent_bind {p : Prog α} {f : α → Prog β} (hp : Silent p)
    (hf : ∀ a, Parks C R (f a)) : Parks C R (p >>= f) :=
  AtWaits.bind hp (fun _ => False.elim) hf

end

/-! ## What does not wait -/

section

variable {node : LocalNode}

lemma inward_apply (rumor : WireMember) : Inward (apply node rumor) := by
  unfold apply
  refine Inward.call_bind rfl rfl fun outcome => Inward.call_bind rfl rfl fun len => ?_
  cases outcome with
  | ignored => trivial
  | refute rumored =>
    refine Inward.call_bind rfl rfl fun _ => Inward.call_bind rfl rfl fun answer => ?_
    cases answer with
    | none => trivial
    | some _ => exact Inward.call_bind rfl rfl fun _ => Inward.call_bind rfl rfl fun _ => trivial
  | _ => exact Inward.call_bind rfl rfl fun _ => trivial

lemma inward_applyAll (rumors : List WireMember) : Inward (applyAll node rumors) := by
  induction rumors with
  | nil => trivial
  | cons rumor rumors ih => exact Inward.bind (inward_apply rumor) fun _ => ih

lemma inward_absorb (sender : WireIdentity) (members : List WireMember) :
    Inward (absorb node sender members) :=
  Inward.bind (inward_apply _) fun _ => inward_applyAll members

lemma silent_askRelays (target : NodeId) (seq : UInt32) (relays : List Member) (sent : ℕ) :
    Silent (askRelays node target seq relays sent) := by
  induction relays generalizing sent with
  | nil => trivial
  | cons relay relays ih =>
    exact Silent.call_bind rfl fun _ => Silent.call_bind rfl fun _ => Silent.call_bind rfl
      fun _ => ih _

end

/-! ## What is left after a wait -/

namespace Knowledge

variable {K : Knowledge} {node : LocalNode} {kind : Kind}

/-- The wait of `ping`, and the forgetting after it. -/
lemma parks_await {channel : Channel} {timeout : Instant} {seq : UInt32}
    (hkind : kind.waits = true) :
    Parks (K.contract node kind) (fun _ _ => True)
      (do
        let started ← Op.call .now
        let acked ← Op.call (.acked channel (started + timeout))
        Op.call (.forget seq)
        pure acked) := by
  refine Parks.call_bind rfl fun started => AtWaits.call_bind (fun _ h => ?_) fun acked => ?_
  · exact Follows.call_bind (fun _ _ => hkind) fun _ _ _ _ => follows_forget
  · exact Parks.call_bind rfl fun _ => trivial

lemma parks_ping (target : NodeId) (addr : SocketAddr) (seq : UInt32)
    (hkind : kind.waits = true) :
    Parks (K.contract node kind) (fun _ _ => True) (ping node target addr seq) := by
  unfold ping
  refine Parks.call_bind rfl fun channel => Parks.call_bind rfl fun current =>
    Parks.call_bind rfl fun gossip => Parks.call_bind rfl fun ok => ?_
  split_ifs
  · exact parks_await hkind
  · exact Parks.call_bind rfl fun _ => trivial

lemma parks_pingReq (target : NodeId) (relays : List Member) (seq : UInt32)
    (hkind : kind.waits = true) :
    Parks (K.contract node kind) (fun _ _ => True) (pingReq node target relays seq) := by
  unfold pingReq
  refine Parks.call_bind rfl fun channel => Parks.silent_bind (silent_askRelays ..) fun sent => ?_
  split_ifs
  · exact Parks.call_bind rfl fun _ => trivial
  · exact parks_await hkind

lemma parks_probe (target : Member) (hkind : kind.waits = true) :
    Parks (K.contract node kind) (fun _ _ => True) (probe node target) := by
  unfold probe
  refine Parks.call_bind rfl fun seq => Parks.bind (parks_ping _ _ _ hkind)
    (fun acked h _ => follows_probe_rest hkind acked) fun acked => ?_
  split_ifs
  · trivial
  refine Parks.call_bind rfl fun relays => ?_
  split_ifs
  · trivial
  exact Parks.call_bind rfl fun seq => parks_pingReq _ _ _ hkind

lemma parks_handlePingReq (seq : UInt32) (target : NodeId) (asker : SocketAddr)
    (hkind : kind.waits = true) :
    Parks (K.contract node kind) (fun _ _ => True) (handlePingReq node seq target asker) := by
  unfold handlePingReq
  refine Parks.call_bind rfl fun member => ?_
  cases member with
  | none => trivial
  | some member =>
    refine Parks.call_bind rfl fun relayed => Parks.bind (parks_ping _ _ _ hkind)
      (fun acked h _ => follows_report acked) fun acked => ?_
    split_ifs
    · exact Parks.call_bind rfl fun _ => Parks.call_bind rfl fun _ => Parks.call_bind rfl
        fun _ => trivial
    · trivial

/-- The request is sent before the wait, and the reply is what is waited for. -/
lemma parks_exchange (addr : SocketAddr) {body : Prog TcpBody} (hkind : kind.waits = true)
    (hbody : Silent body) :
    Parks (K.contract node kind) (fun reply h => ∀ b ∈ reply, K.Tcp h b)
      (exchange addr body) := by
  unfold exchange
  refine Parks.call_bind rfl fun conn => ?_
  cases conn with
  | none => trivial
  | some conn =>
    refine Parks.silent_bind hbody fun body => Parks.call_bind rfl fun ok => ?_
    split_ifs
    · refine ⟨fun _ h => ?_, fun _ => trivial⟩
      exact Follows.call (fun _ _ => hkind) fun reply h₄ _ hreply h₅ hlater₅ b hb =>
        (hreply b hb).later hlater₅
    · trivial

lemma parks_syncWith (partner : Member) (hkind : kind.waits = true) :
    Parks (K.contract node kind) (fun _ _ => True) (syncWith node partner) := by
  unfold syncWith
  refine Parks.bind (parks_exchange _ hkind ?_) (fun reply h hreply => follows_sync_reply hreply)
    fun reply => ?_
  · exact Silent.call_bind rfl fun _ => Silent.call_bind rfl fun _ => trivial
  · split
    · exact (inward_absorb _ _).silent.parks
    · trivial

lemma parks_syncTurn (hkind : kind.waits = true) :
    Parks (K.contract node kind) (fun _ _ => True) (syncTurn node) := by
  unfold syncTurn
  refine Parks.call_bind rfl fun partner => ?_
  cases partner with
  | none => trivial
  | some partner => exact parks_syncWith partner hkind

/-- A join keeps its request from seed to seed, so that has to be known for good. -/
lemma parks_joinThrough {body : TcpBody} (hkind : kind.waits = true)
    (hbody : ∀ h, K.TcpFrom node h body) (seeds : List SocketAddr) :
    Parks (K.contract node kind) (fun _ _ => True) (joinThrough node body seeds) := by
  induction seeds with
  | nil => trivial
  | cons seed seeds ih =>
    refine Parks.bind (parks_exchange _ hkind trivial)
      (fun reply h hreply => follows_join_reply hreply (follows_joinThrough hkind (hbody h) seeds))
      fun reply => ?_
    split
    · exact Silent.parks (Silent.bind (inward_absorb _ _).silent fun _ => trivial)
    · exact ih

/-- What a node says about itself is always known. -/
def Owns (K : Knowledge) (node : LocalNode) : Prop :=
  ∀ h current, K.knows h (node.aliveRumor current)

/-- After its wait, such a task goes on as its kind may, whatever has become known meanwhile. -/
lemma parks_start (hown : K.Owns node) (hkind : kind.waits = true) :
    Parks (K.contract node kind) (K.Returns kind) (kind.start node) := by
  cases kind with
  | relay relay => exact parks_handlePingReq _ _ _ rfl
  | sync => exact parks_syncTurn rfl
  | join seeds =>
    refine Parks.call_bind rfl fun current => parks_joinThrough rfl (fun h => ?_) seeds
    exact ⟨hown h current, fun sender hsender => Option.some.inj hsender ▸ rfl⟩
  | probing target => exact parks_probe target rfl
  | _ => exact absurd hkind (by simp [Kind.waits])

end Knowledge

/-- What is left of a task that waits, in every run. -/
lemma Run.parks {h : Trace} (hrun : Run h) {K : Knowledge} {q : NodeId}
    (hown : ∀ node : LocalNode, node.id = q → K.Owns node) {p : Process}
    (hp : h.now.procs q = some p) (halive : p.stopped = false) {slot : Slot} {task : Task}
    (htask : p.tasks slot = some task) (hkind : task.kind.waits = true) :
    Parks (K.contract p.node task.kind) (K.Returns task.kind) task.prog := by
  have hall : ∀ p slot task, h.now.procs q = some p → p.stopped = false →
      p.tasks slot = some task → task.kind.waits = true →
      Parks (K.contract p.node task.kind) (K.Returns task.kind) task.prog := by
    refine hrun.invariant (P := fun c => ∀ p slot task, c.procs q = some p → p.stopped = false →
      p.tasks slot = some task → task.kind.waits = true →
      Parks (K.contract p.node task.kind) (K.Returns task.kind) task.prog) ?_ ?_
    · exact fun p slot task hp => absurd hp (by simp [Cluster.empty])
    · intro h l c hrun ih hstep p' slot task hp' halive htask hkind
      have hid := ((hrun.push hstep).sane hp').id
      cases Task.arises hstep hp' halive htask with
      | kept p _ hp halive htask₀ =>
        rw [(hstep.grows hp hp').node]
        exact ih p slot task hp halive htask₀ hkind
      | moved p kind o next r net hp halive htask₀ =>
        have hih := ih p slot _ hp halive htask₀ hkind
        rw [(hstep.grows hp hp').node]
        exact hih.2 r
      | _ => exact Knowledge.parks_start (hown p'.node hid) hkind
  exact hall p slot task hp halive htask hkind

end Dalila
