import Dalila.Pair
import Dalila.Vouching

/-!
# A corpse that is forgotten

`Cluster.Offers` are the records of a cluster that a table could still take over. The file proves
that once none of them says of a stopped process that it is anything but dead, no table that does
not hold it ever will again (`reaping_sticks`). Detectors may still be probing it from an old copy;
their marks are refused.
-/

namespace Dalila

open Program

/-! ## What could be taken over -/

/-- The records whoever handles a datagram merges. -/
def UdpBody.offers : UdpBody → List WireMember
  | .ping _ _ gossip => gossip
  | .ack _ _ gossip => gossip
  | .pingReq _ _ _ gossip => gossip
  | .pingReqAck _ _ _ gossip => gossip
  | .leave sender => [sender.intoLeave]

/-- The records whoever handles a frame merges: the sender of a join or a sync, and what it
sent along. -/
def TcpBody.offers : TcpBody → List WireMember
  | .joinRequest sender => [sender.intoMember]
  | .joinResponse sender members => sender.intoMember :: members
  | .membersRequest => []
  | .membersResponse _ members => members
  | .syncRequest sender members => sender.intoMember :: members
  | .syncResponse sender members => sender.intoMember :: members

def Packet.offers : Packet → List WireMember
  | .udp _ _ body => body.offers
  | .request _ body => body.offers
  | .response _ body => body.offers

/-- What a task was started to handle. -/
def Kind.offers : Kind → List WireMember
  | .datagram _ body => body.offers
  | .serve _ body => body.offers
  | _ => []

/-- A record that may still be taken over: from the table or the queue of a running node, or
from a message in flight or being handled. -/
inductive Cluster.Offers (c : Cluster) : WireMember → Prop where
  | entry (q : NodeId) (p : Process) (m : Member) (hp : c.procs q = some p)
      (halive : p.stopped = false) (hm : m ∈ p.shared.table.members) : Offers c (.new m)
  | pending (q : NodeId) (p : Process) (pending : Pending) (hp : c.procs q = some p)
      (halive : p.stopped = false) (hpending : pending ∈ p.shared.queue) : Offers c pending.rumor
  | message (packet : Packet) (r : WireMember) (hnet : packet ∈ c.net)
      (hr : r ∈ packet.offers) : Offers c r
  | handled (q : NodeId) (p : Process) (slot : Slot) (task : Task) (r : WireMember)
      (hp : c.procs q = some p) (halive : p.stopped = false) (htask : p.tasks slot = some task)
      (hr : r ∈ task.kind.offers) : Offers c r

/-- The task has not begun, or it waits for somebody else. -/
def Task.AtRest (node : LocalNode) (task : Task) : Prop :=
  task.prog = task.kind.start node ∨ ∃ o next, task.prog = .step o next ∧ o.awaits = true

/-! ## Knowing a process only as dead -/

/-- Whatever is said about `id` is that it is dead. -/
def corpse (id : NodeId) : Knowledge where
  knows _ r := r.id = id → r.state = .dead
  holds _ m := m.id = id → m.state.isDead = true
  copied _ _ := True
  said _ _ := True
  departs _ _ := True
  postmortem := False
  knows_later _ hr := hr
  holds_later _ hm := hm
  copied_later _ _ := trivial
  said_later _ _ := trivial
  departs_later _ _ := trivial
  knows_of_holds hm hid := MemberState.isDead_iff.mp (hm hid)
  copied_of_holds _ := trivial
  knows_of_expired _ _ _ := rfl
  knows_of_departs _ _ := rfl

variable {id : NodeId} {h h₀ : Trace} {p : Process}

/-- A stopped process is no running one, then or later. -/
lemma Later.ne_of_stopped (hlater : Later h₀ h) (hp : h₀.now.procs id = some p)
    (hstopped : p.stopped = true) {q : NodeId} {p' : Process} (hp' : h.now.procs q = some p')
    (halive : p'.stopped = false) : q ≠ id := by
  rintro rfl
  have hgrows := hlater.grows hp hp'
  exact absurd (hgrows.running halive) (by simp [hstopped])

theorem sound_corpse (hp : h₀.now.procs id = some p) (hstopped : p.stopped = true) :
    (corpse id).Sound fun h => Run h ∧ Later h₀ h where
  own {h q p'} hvalid hp' halive := by
    refine ⟨fun hid => ?_, trivial⟩
    have hq : p'.node.id = q := (hvalid.1.sane hp').id
    exact absurd (hq.symm.trans hid) (hvalid.2.ne_of_stopped hp hstopped hp' halive)
  leaving _ _ _ _ := trivial
  fresh {h r} _ hr hadm hid := by
    have hdead := hr hid
    exact absurd hadm (by simp [WireMember.admissible, hdead])
  update {h m r} _ _ hr hid _ hmid := by
    have hdead : r.state = .dead := hr (hid.trans hmid)
    show (r.state.toMember h.now.clock).isDead = true
    rw [hdead]
    rfl
  marked {h c q p' slot target outcome} hvalid hp' halive hcov _ hstep hout hid := by
    obtain ⟨_, _, entry, hget, _, hstate⟩ := hvalid.1.alive_of_mark hp' halive hstep hout
    have hdead := hcov.table hp' (.inl halive) entry (MemberTable.mem_of_get hget)
      ((MemberTable.id_of_get hget).trans hid)
    rw [hstate] at hdead
    exact absurd hdead (by simp [MemberState.isDead])

/-! ## Messages -/

lemma corpse_udp {body : UdpBody} :
    (corpse id).Udp h body ↔ ∀ r ∈ body.offers, r.id = id → r.state = .dead := by
  cases body <;> simp [Knowledge.Udp, UdpBody.offers, corpse, WireIdentity.intoLeave]

lemma corpse_tcp {body : TcpBody} :
    (corpse id).Tcp h body ↔ ∀ r ∈ body.offers, r.id = id → r.state = .dead := by
  cases body <;> simp [Knowledge.Tcp, TcpBody.offers, corpse]

lemma corpse_packet {packet : Packet} :
    (corpse id).Packet h packet ↔ ∀ r ∈ packet.offers, r.id = id → r.state = .dead := by
  cases packet with
  | udp src dst body => exact corpse_udp
  | request conn body => exact corpse_tcp
  | response conn body => exact corpse_tcp

lemma corpse_starts {kind : Kind} :
    (corpse id).Starts h kind ↔ ∀ r ∈ kind.offers, r.id = id → r.state = .dead := by
  cases kind with
  | datagram src body => exact corpse_udp
  | serve conn body => exact corpse_tcp
  | _ => simp [Knowledge.Starts, Kind.offers, corpse]

/-- What is covered offers nothing but deaths. -/
lemma dead_of_covers (hcov : (corpse id).Covers h) {r : WireMember} (hr : h.now.Offers r)
    (hid : r.id = id) : r.state = .dead := by
  cases hr with
  | entry q p m hp halive hm =>
    exact MemberState.isDead_iff.mp (hcov.table hp (.inl halive) m hm hid)
  | pending q p pending hp halive hpending => exact hcov.queue hp (.inl halive) _ hpending hid
  | message packet _ hnet hmem => exact corpse_packet.mp (hcov.net packet hnet) _ hmem hid
  | handled q p slot task _ hp halive htask hmem =>
    exact corpse_starts.mp (hcov.tasks hp halive htask).1 _ hmem hid

/-- Between two pieces of work, what offers nothing but deaths is covered. -/
lemma covers_of_rest (hrun : Run h) (hp : h.now.procs id = some p) (hstopped : p.stopped = true)
    (hrest : ∀ q p slot task, h.now.procs q = some p → p.stopped = false →
      p.tasks slot = some task → task.AtRest p.node)
    (hdead : ∀ r, h.now.Offers r → r.id = id → r.state = .dead) : (corpse id).Covers h where
  table {q p'} hp' hminds m hm hid := by
    have halive : p'.stopped = false := hminds.resolve_right fun hpost => hpost
    exact MemberState.isDead_iff.mpr (hdead _ (.entry q p' m hp' halive hm) hid)
  queue {q p'} hp' hminds pending hpending hid := by
    have halive : p'.stopped = false := hminds.resolve_right fun hpost => hpost
    exact hdead _ (.pending q p' pending hp' halive hpending) hid
  net packet hnet := corpse_packet.mpr fun r hr hid => hdead r (.message packet r hnet hr) hid
  tasks {q p' slot task} hp' halive htask := by
    obtain ⟨kind, prog⟩ := task
    have hstarts : (corpse id).Starts h kind :=
      corpse_starts.mpr fun r hr hid => hdead r (.handled q p' slot _ r hp' halive htask hr) hid
    refine ⟨hstarts, ?_⟩
    have hatrest : prog = kind.start p'.node ∨
        ∃ (o : Op) (next : o.Res → Prog kind.Out), prog = .step o next ∧ o.awaits = true :=
      hrest q p' slot _ hp' halive htask
    rcases hatrest with rfl | ⟨o, next, rfl, hawaits⟩
    · exact Knowledge.follows_start hstarts
    · have hne := Later.ne_of_stopped (.refl h) hp hstopped hp' halive
      have hown : ∀ node : LocalNode, node.id = q → (corpse id).Owns node :=
        fun node hnode _ _ hid => absurd (hnode.symm.trans hid) hne
      have hkind : kind.waits = true := by
        have hpre := hrun.pre hp' halive htask
        cases o with
        | acked channel deadline => exact hpre
        | readFrame conn => exact hpre
        | _ => exact absurd hawaits (by simp [Op.awaits])
      exact (hrun.parks hown hp' halive htask hkind).1 hawaits h

/-! ## It stays forgotten -/

/-- While only deaths of `id` go around, nobody without an entry for it gains one. -/
lemma get_none_of_covers {l : Label} {c : Cluster} (hcov : (corpse id).Covers h) (hrun : Run h)
    (hstep : Step h.now l c) {q : NodeId} {p p' : Process} (hp : h.now.procs q = some p)
    (hnone : p.shared.table.get id = none) (hp' : c.procs q = some p') :
    p'.shared.table.get id = none := by
  obtain ⟨p'', hp'', hev⟩ := hstep.exists_evolves hp
  obtain rfl : p'' = p' := Option.some.inj (hp''.symm.trans hp')
  cases hev with
  | quiet _ _ hshared =>
    rw [hshared]
    exact hnone
  | op slot kind o next r shared net halive htask hl hop =>
    have htable : shared.table = o.tableAfter h.now.clock p.shared.table := hop.table
    show shared.table.get id = none
    rw [htable]
    cases o with
    | merge rumor me =>
      have hfollows := (hcov.tasks hp halive htask).2.step.1
      have hspec := p.shared.table.merge_spec h.now.clock rumor me
      have hout : r = (p.shared.table.merge h.now.clock rumor me).1 := hop.1
      show (p.shared.table.merge h.now.clock rumor me).2.get id = none
      rw [← hout] at hspec
      generalize (p.shared.table.merge h.now.clock rumor me).2 = table at hspec ⊢
      -- a record about `id` is a death, and a death adds no entry
      cases hspec with
      | own | doubted | refused | stale => exact hnone
      | updated hid member hget hkey =>
        rw [MemberTable.get_put, if_neg, hnone]
        rintro rfl
        have hmid : member.id = rumor.id := MemberTable.id_of_get hget
        rw [show (member.update h.now.clock rumor).id = rumor.id from hmid, hget] at hnone
        exact absurd hnone (by simp)
      | added hid hget hadm =>
        rw [MemberTable.get_put, if_neg, hnone]
        rintro rfl
        rcases hfollows.2 with hknows | hmarks
        · exact absurd hadm (by simp [WireMember.admissible, hknows rfl])
        · -- the detector's target has an entry, so its mark adds none
          cases kind with
          | judging target acked =>
            cases acked with
            | true => exact absurd hmarks (by simp [Kind.marks])
            | false =>
              obtain rfl : rumor = markRumor target .suspect := hmarks
              subst hl
              have hadded := hrun.alive_of_mark hp halive hstep (.inl rfl)
              exact absurd hadded.1 (by simp)
          | _ => exact absurd hmarks (by simp [Kind.marks])
    | remove ids =>
      show (p.shared.table.remove ids).get id = none
      rw [MemberTable.get_remove, hnone]
      exact ite_self none
    | _ => exact hnone

/-- A running node speaks for itself. -/
lemma sends_dead_of_covers {c : Cluster} (hcov : (corpse id).Covers h) (hrun : Run h) {q : NodeId}
    (hne : q ≠ id) {p : Process} {slot : Slot} {kind : Kind} {o : Op} {r : o.Res}
    (hp : h.now.procs q = some p) (hstep : Step h.now (.op q slot kind o r) c) {packet : Packet}
    (hsends : o.sends p.node r = some packet) :
    ∀ rumor ∈ packet.records, rumor.id = id → rumor.state = .dead := by
  obtain ⟨p₀, next, shared, net, hp₀, halive, htask, _⟩ := hstep.of_op
  obtain rfl : p₀ = p := Option.some.inj (hp₀.symm.trans hp)
  have hpre := (hcov.tasks hp halive htask).2.step.1
  have hid : p₀.node.id = q := (hrun.sane hp).id
  have hsender : ∀ sender : WireIdentity, sender.id = p₀.node.id → sender.intoMember.id ≠ id :=
    fun sender hsender hrid => hne (hid.symm.trans (hsender.symm.trans hrid))
  -- whatever is sent is the sender's own record and records it knows
  have hcons : ∀ {sender : WireIdentity} {records : List WireMember}, sender.id = p₀.node.id →
      (∀ r ∈ records, (corpse id).knows h r) →
      ∀ rumor ∈ sender.intoMember :: records, rumor.id = id → rumor.state = .dead := by
    intro sender records hs hrecords rumor hmem hrid
    rcases List.mem_cons.mp hmem with rfl | hmem
    · exact absurd hrid (hsender sender hs)
    · exact hrecords rumor hmem hrid
  have htcp : ∀ body, (corpse id).TcpFrom p₀.node h body →
      ∀ rumor ∈ body.records, rumor.id = id → rumor.state = .dead := by
    intro body hbody
    cases body with
    | joinRequest sender => exact hcons (hbody.sender sender rfl) (by simp)
    | membersRequest => simp [TcpBody.records]
    | _ => exact hcons (hbody.sender _ rfl) hbody.told.2
  cases o with
  | sendUdp target body =>
    cases r with
    | false => exact absurd hsends (by simp [Op.sends])
    | true =>
      obtain rfl := Option.some.inj hsends
      cases body with
      | leave sender =>
        intro rumor hmem _
        obtain rfl := List.mem_singleton.mp hmem
        rfl
      | _ => exact hcons hpre.sender hpre.told.2
  | writeRequest conn body =>
    cases r with
    | false => exact absurd hsends (by simp [Op.sends])
    | true => exact Option.some.inj hsends ▸ htcp body hpre
  | writeResponse conn body =>
    cases r with
    | false => exact absurd hsends (by simp [Op.sends])
    | true => exact Option.some.inj hsends ▸ htcp body hpre
  | _ => exact absurd hsends (by simp [Op.sends])

/-- Let a process have stopped, with every task of the others between two pieces of work and
nothing to be taken over that describes it as anything but dead. Then nothing ever will, no
node sends such a record, no node without an entry for it gains one, and every reap of it is
final. -/
theorem reaping_sticks (hrun : Run h₀) (hp : h₀.now.procs id = some p) (hstopped : p.stopped = true)
    (hrest : ∀ q p slot task, h₀.now.procs q = some p → p.stopped = false →
      p.tasks slot = some task → task.AtRest p.node)
    (hdead : ∀ r, h₀.now.Offers r → r.id = id → r.state = .dead) :
    ∀ h, Later h₀ h →
      (∀ r, h.now.Offers r → r.id = id → r.state = .dead) ∧
      (∀ q p slot kind o (r : o.Res) c packet, h.now.procs q = some p →
        Step h.now (.op q slot kind o r) c → o.sends p.node r = some packet →
        ∀ rumor ∈ packet.records, rumor.id = id → rumor.state = .dead) ∧
      (∀ q p, h.now.procs q = some p → p.shared.table.get id = none →
        ∀ h' p', Later h h' → h'.now.procs q = some p' → p'.shared.table.get id = none) ∧
      ∀ q l c, Step h.now l c → l.reaps q id →
        ∀ h' p', Later (h.push l c) h' → h'.now.procs q = some p' →
          p'.shared.table.get id = none := by
  have hsound := sound_corpse hp hstopped
  have hcov₀ := covers_of_rest hrun hp hstopped hrest hdead
  -- whatever is said about `id` is a death of it, in every state reached
  have hcov : ∀ h, Later h₀ h → (corpse id).Covers h := fun h =>
    hsound.covers_later hrun hcov₀
  have hnone : ∀ h, Later h₀ h → ∀ q p, h.now.procs q = some p → p.shared.table.get id = none →
      ∀ h' p', Later h h' → h'.now.procs q = some p' → p'.shared.table.get id = none := by
    intro h hlater q p hp hget h' p' hlater' hp'
    induction hlater' generalizing p' with
    | refl =>
      obtain rfl : p = p' := Option.some.inj (hp.symm.trans hp')
      exact hget
    | @push h₁ l c hext hstep ih =>
      obtain ⟨p₁, hp₁, _⟩ := Later.exists_grows hext hp
      have hlater₁ := hlater.trans hext
      exact get_none_of_covers (hcov h₁ hlater₁) (hrun.extends hlater₁) hstep hp₁ (ih p₁ hp₁) hp'
  intro h hlater
  have hrun' := hrun.extends hlater
  refine ⟨fun r => dead_of_covers (hcov h hlater), ?_, hnone h hlater, ?_⟩
  · intro q p' slot kind o r c packet hp' hstep hsends
    obtain ⟨p₁, _, _, _, hp₁, halive, _⟩ := hstep.of_op
    have hne := hlater.ne_of_stopped hp hstopped hp₁ halive
    exact sends_dead_of_covers (hcov h hlater) hrun' hne hp' hstep hsends
  · intro q l c hstep hreaps h' p' hlater' hp'
    have hpush : Later h₀ (h.push l c) := hlater.push hstep
    cases l with
    | op q' slot kind o r =>
      cases o with
      | remove ids =>
        obtain ⟨rfl, hid⟩ := hreaps
        obtain ⟨p₁, next, shared, net, hp₁, _, _, hop, hc⟩ := hstep.of_op
        have htable : shared.table = p₁.shared.table.remove ids := hop.table
        have hp₂ : c.procs q' =
            some ({ p₁ with shared := shared }.set slot (some ⟨kind, next r⟩)) := by
          rw [hc]
          simp [Cluster.setProc]
        refine hnone (h.push _ c) hpush q' _ hp₂ ?_ h' p' hlater' hp'
        show shared.table.get id = none
        rw [htable, MemberTable.get_remove, if_pos hid]
      | _ => exact absurd hreaps (by simp [Label.reaps])
    | _ => exact absurd hreaps (by simp [Label.reaps])

/-- One of two nodes crashes in a cut, and the other holds it dead. -/
theorem reaping_sticks_cut : ∃ h₀ p, Run h₀ ∧ h₀.now.procs beta.id = some p ∧ p.stopped = true ∧
    (∃ m, h₀.now.entry alpha.id beta.id = some m ∧ m.state.isDead = true) ∧
    ∀ h, Later h₀ h → ∀ r, h.now.Offers r → r.id = beta.id → r.state = .dead := by
  obtain ⟨h₁, hcut⟩ := exists_cut alpha_ne_beta alpha_mayStart beta_mayStart
  obtain ⟨shared, shared', hnow₁, _, _, hmembers, _, hqueue, _⟩ := hcut.split
  have hbeta₁ : h₁.now.procs beta.id = some { Process.new beta [] with shared := shared' } := by
    rw [hnow₁]
    exact Cluster.procs_pair_right
  have hstops := Step.stop h₁.now beta.id _ hbeta₁
  set p : Process := { Process.new beta [] with shared := shared', stopped := true } with hp
  set h₀ := h₁.push (.stop beta.id) (h₁.now.setProc beta.id p) with hh₀
  have hrun : Run h₀ := Run.push hcut.run hstops
  have hbeta : h₀.now.procs beta.id = some p := by
    rw [hh₀, History.now_push]
    simp
  have halpha : h₀.now.procs alpha.id = some { Process.new alpha [] with shared := shared } := by
    rw [hh₀, History.now_push, Cluster.procs_setProc, if_neg alpha_ne_beta, hnow₁]
    exact Cluster.procs_pair_left alpha_ne_beta
  -- whoever runs is `alpha`, between turns
  have halone : ∀ {q p'}, h₀.now.procs q = some p' → p'.stopped = false →
      p'.shared = shared ∧ ∀ slot, p'.tasks slot = none := by
    intro q p' hp' halive
    by_cases hq : q = beta.id
    · subst hq
      obtain rfl := Option.some.inj (hbeta.symm.trans hp')
      exact absurd halive (by simp [hp])
    · have hq' : q = alpha.id := by
        rw [hh₀, History.now_push, Cluster.procs_setProc, if_neg hq, hnow₁] at hp'
        exact (Cluster.eq_or_eq_of_pair hp').resolve_right hq
      subst hq'
      obtain rfl := Option.some.inj (halpha.symm.trans hp')
      exact ⟨rfl, by simp [Process.new]⟩
  have hdead : ∀ r, h₀.now.Offers r → r.id = beta.id → r.state = .dead := by
    intro r hr hid
    cases hr with
    | entry q p' m hp' halive hm =>
      rw [(halone hp' halive).1, hmembers] at hm
      obtain rfl := List.mem_singleton.mp hm
      rfl
    | pending q p' pending hp' halive hpending =>
      rw [(halone hp' halive).1] at hpending
      exact hqueue pending hpending hid
    | message packet _ hnet =>
      have hnet : packet ∈ h₁.now.net := hnet
      rw [hnow₁] at hnet
      exact absurd hnet (by simp [Cluster.pair])
    | handled q p' slot task _ hp' halive htask =>
      exact absurd (((halone hp' halive).2 slot).symm.trans htask) (by simp)
  have hentry : h₀.now.entry alpha.id beta.id = some
      { (beta.aliveRumor Guarded.new.current).toMember 0 with state := .dead SUSPICION_TIMEOUT } := by
    rw [Cluster.entry_of_procs halpha]
    exact MemberTable.get_of_mem (by rw [hmembers]; exact List.mem_singleton_self _)
  refine ⟨h₀, p, hrun, hbeta, rfl, ⟨_, hentry, rfl⟩, fun h hlater => ?_⟩
  refine (reaping_sticks hrun hbeta rfl
    (fun q p' slot task hp' halive htask => ?_) hdead h hlater).1
  exact absurd (((halone hp' halive).2 slot).symm.trans htask) (by simp)

end Dalila
