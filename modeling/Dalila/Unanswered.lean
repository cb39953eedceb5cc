import Dalila.Evidence
import Dalila.Manner

/-!
# What a probe that gave up had done

`Unanswered` is what lies behind a probe that failed: it pinged its target under a number of its own
and waited its time out. Nobody but the task that drew a number forgets it, so a wait goes on until
it is answered or that task ends it (`PendingAcks.Holds`).
-/

namespace Dalila

open Program

/-! ## What a probe that gave up had done -/

/-- Opens or closes the wait under this number. -/
def Op.marks (seq : UInt32) : Op → Prop
  | .register seq' _ => seq' = seq
  | .forget seq' => seq' = seq
  | _ => False

/-- The task in this slot does. -/
def Label.marks (q : NodeId) (slot : Slot) (seq : UInt32) : Label → Prop
  | .op q' slot' _ o _ => q' = q ∧ slot' = slot ∧ o.marks seq
  | _ => False

section

variable (h₀ : Trace) (q : NodeId) (slot : Slot) (kind : Kind)

/-- The task marks numbers of its own only. -/
def numbered : Op → Trace → Prop
  | .register seq _, h | .forget seq, h => Drew h₀ q slot kind seq h
  | _, _ => True

/-- The task has pinged `target` at `addr`, and the ping did not go out, or nothing answered it as
long as the task waited. -/
inductive Unanswered (target : NodeId) (addr : SocketAddr) (h : Trace) : Prop where
  | unsent (dst : SocketAddr) (body : UdpBody) (h₁ : Trace)
      (hsend : Happened (.op q slot kind (.sendUdp dst body) false) h₁ h)
  | unheard (seq : UInt32) (channel : Channel) (sender : WireIdentity) (gossip : List WireMember)
      (started : Instant) (h₁ h₂ h₃ : Trace) (c : Cluster) (hdrew : Drew h₀ q slot kind seq h₁)
      (hrun : Run h₁)
      (hreg : Step h₁.now (.op q slot kind (.register seq target) channel) c)
      (hping : Happened (.op q slot kind (.sendUdp addr (.ping seq sender gossip)) true) h₂ h₃)
      (hsent : Later (h₁.push (.op q slot kind (.register seq target) channel) c) h₂)
      (hstarted : h₂.now.clock ≤ started)
      (hkept : LaterBy (fun l => ¬ l.marks q slot seq)
        (h₁.push (.op q slot kind (.register seq target) channel) c) h₃)
      (hacked : Happened (.op q slot kind (.acked channel (started + PROBE_TIMEOUT)) false) h₃ h)

/-- What a task of `kind` has done when it returns. -/
def Tells : (kind : Kind) → kind.Out → Trace → Prop
  | .datagram src (.ping seq sender gossip), _, h => ∃ sender' gossip' ok h₁, sender'.id = q ∧
      Later h₀ h₁ ∧ Happened (.op q slot (.datagram src (.ping seq sender gossip))
        (.sendUdp src (.ack seq sender' gossip')) ok) h₁ h
  | .datagram src (.ack seq sender gossip), _, h => ∃ h₁, Later h₀ h₁ ∧ Happened
      (.op q slot (.datagram src (.ack seq sender gossip)) (.resolve seq sender.id) ()) h₁ h
  | .probing target, acked, h =>
      acked = false → Unanswered h₀ q slot (.probing target) target.id target.addr h
  | _, _, _ => True

end

section

variable {h₀ h h' h₁ : Trace} {q target : NodeId} {slot : Slot} {kind : Kind} {seq : UInt32}
  {addr : SocketAddr} {node : LocalNode}

lemma Unanswered.later (hgave : Unanswered h₀ q slot kind target addr h) (hlater : Later h h') :
    Unanswered h₀ q slot kind target addr h' := by
  cases hgave with
  | unsent dst body h₁ hsend => exact .unsent dst body h₁ (hsend.later hlater)
  | unheard seq channel sender gossip started h₁ h₂ h₃ c hdrew hrun hreg hping hsent hstarted hkept
      hacked =>
    exact .unheard seq channel sender gossip started h₁ h₂ h₃ c hdrew hrun hreg hping hsent
      hstarted hkept (hacked.later hlater)

/-- What holds as long as the task's own operations mark numbers of its own only. -/
abbrev Numbering (h₀ : Trace) (q : NodeId) (slot : Slot) (kind : Kind) :
    Regime Op Op.Res Trace :=
  deeds q slot kind (numbered h₀ q slot kind)

/-- The others never move for the task. -/
lemma unmarked_others (hothers : (Numbering h₀ q slot kind).others h h') :
    LaterBy (fun l => ¬ l.marks q slot seq) h h' := by
  replace hothers : LaterBy (fun l => ¬ l.acts q slot) h h' := hothers
  refine hothers.mono fun _ l _ hstep => ⟨hstep.1, fun hmarks => hstep.2 ?_⟩
  cases l with
  | op => exact ⟨hmarks.1, hmarks.2.1⟩
  | _ => exact hmarks

lemma unmarked_both {t : Trace} {o : Op} {r : o.Res}
    (hothers : (Numbering h₀ q slot kind).others h t)
    (hdoes : (Numbering h₀ q slot kind).does o r t h') (ho : ¬ o.marks seq) :
    LaterBy (fun l => ¬ l.marks q slot seq) h h' := by
  obtain ⟨_, c, hstep, rfl⟩ := hdoes
  exact (unmarked_others hothers).push ⟨hstep, fun hl => ho hl.2.2⟩

/-- A program that draws no numbers and waits for nothing. -/
abbrev Idle {α : Type} : Prog α → Prop := AtWaits (fun o => o.counts = true) fun _ => False

lemma offline_idle : Offline false fun _ prog => Idle prog where
  pure _ := trivial
  call_bind o f _ ho hf := AtWaits.call_bind (fun hcounts => by simp [hcounts] at ho) hf
  bind hp hf := AtWaits.bind hp (fun _ => id) hf

lemma Idle.keeps {α : Type} {prog : Prog α} (hprog : Idle prog) (h : Trace) :
    Keeps (Numbering h₀ q slot kind) (fun _ _ => True) prog h := by
  refine AtWaits.keeps hprog (fun o ho s => ?_) h
  cases o with
  | register => exact absurd rfl ho
  | forget => exact absurd rfl ho
  | _ => trivial

/-- Every other task leaves the numbers alone. -/
lemma idle_start (hkind : kind.counts = false) : Idle (kind.start node) := by
  have hmanner : Manner node false fun _ prog => Idle prog := offline_idle.manner
  refine hmanner.start (fun addr body hbody => ?_) kind (fun hcounts => ?_) fun _ _ _ reply => ?_
  · unfold exchange
    refine AtWaits.call_bind (by simp [Op.counts]) fun conn => ?_
    cases conn with
    | none => trivial
    | some conn =>
      refine AtWaits.bind hbody (fun _ => id) fun body =>
        AtWaits.call_bind (by simp [Op.counts]) fun ok => ?_
      split_ifs
      · exact ⟨by simp [Op.counts], fun _ => trivial⟩
      · trivial
  · exact absurd (hkind.symm.trans hcounts) (by simp)
  · exact ⟨by simp [Op.counts], fun _ => trivial⟩

/-! ## Tasks that probe -/

/-- Giving up, or having been answered. -/
lemma numbered_forget {α : Type} {a : α} {Q : α → Trace → Prop}
    (hdrew : Drew h₀ q slot kind seq h) (hdone : ∀ h', Later h h' → Q a h') :
    Keeps (Numbering h₀ q slot kind) Q (do Op.call (.forget seq); pure a) h := by
  refine Keeps.call_bind (fun t ho => hdrew.later (Later.of_others ho)) fun _ t₁ h₁ ho₁ hd₁ =>
    Keeps.pure fun h₂ ho₂ => hdone h₂ ?_
  exact (Later.of_both ho₁ hd₁).trans (Later.of_others ho₂)

lemma numbered_ping (hdrew : Drew h₀ q slot kind seq h) :
    Keeps (Numbering h₀ q slot kind)
      (fun acked h' => acked = false → Unanswered h₀ q slot kind target addr h')
      (ping node target addr seq) h := by
  unfold ping
  refine Keeps.call_bind (fun t ho => hdrew.later (Later.of_others ho))
    fun channel t₁ h₁ ho₁ hd₁ => ?_
  refine Keeps.call_bind (fun _ _ => trivial) fun current t₂ h₂ ho₂ hd₂ => ?_
  refine Keeps.call_bind (fun _ _ => trivial) fun gossip t₃ h₃ ho₃ hd₃ => ?_
  refine Keeps.call_bind (fun _ _ => trivial) fun ok t₄ h₄ ho₄ hd₄ => ?_
  have hlater : Later h h₄ := (((Later.of_both ho₁ hd₁).trans (Later.of_both ho₂ hd₂)).trans
    (Later.of_both ho₃ hd₃)).trans (Later.of_both ho₄ hd₄)
  cases ok with
  | false =>
    refine numbered_forget (hdrew.later hlater) fun h₅ hlater₅ _ => ?_
    exact .unsent addr _ t₄ ((Happened.of_does hd₄).later hlater₅)
  | true =>
    refine Keeps.call_bind (fun _ _ => trivial) fun started t₅ h₅ ho₅ hd₅ => ?_
    refine Keeps.call_bind (fun _ _ => trivial) fun acked t₆ h₆ ho₆ hd₆ => ?_
    have hlater₅ : Later h₄ h₅ := Later.of_both ho₅ hd₅
    have hlater₆ : Later h₄ h₆ := hlater₅.trans (Later.of_both ho₆ hd₆)
    refine numbered_forget (hdrew.later (hlater.trans hlater₆)) fun h₇ hlater₇ hacked => ?_
    subst hacked
    -- the clock was read after the ping had gone out
    have hstarted : t₄.now.clock ≤ started := by
      obtain ⟨_, c, hstep, _⟩ := hd₅
      obtain ⟨_, _, _, _, _, _, _, hop, _⟩ := hstep.of_op
      have hnow : started = t₅.now.clock := hop.1
      rw [hnow]
      exact Later.clock_le ((Later.of_does hd₄).trans (Later.of_others ho₅))
    have hkept : LaterBy (fun l => ¬ l.marks q slot seq) h₁ t₆ :=
      ((((unmarked_both ho₂ hd₂ not_false).trans (unmarked_both ho₃ hd₃ not_false)).trans
        (unmarked_both ho₄ hd₄ not_false)).trans (unmarked_both ho₅ hd₅ not_false)).trans
          (unmarked_others ho₆)
    have hsent : Later h₁ t₄ := ((Later.of_both ho₂ hd₂).trans (Later.of_both ho₃ hd₃)).trans
      (Later.of_others ho₄)
    have hping := (Happened.of_does hd₄).later (hlater₅.trans (Later.of_others ho₆))
    have hacked := (Happened.of_does hd₆).later hlater₇
    obtain ⟨hrun, c, hreg, rfl⟩ := hd₁
    exact .unheard seq channel _ gossip started t₁ t₄ t₆ c (hdrew.later (Later.of_others ho₁)) hrun
      hreg hping hsent hstarted hkept hacked

lemma numbered_askRelays (relays : List Member) (sent : ℕ) :
    Keeps (Numbering h₀ q slot kind) (fun _ _ => True)
      (askRelays node target seq relays sent) h := by
  have hmanner : Manner node false fun _ prog => Idle prog := offline_idle.manner
  exact (hmanner.askRelays target seq relays sent).keeps h

lemma numbered_pingReq (relays : List Member) (hdrew : Drew h₀ q slot kind seq h) :
    Keeps (Numbering h₀ q slot kind) (fun _ _ => True) (pingReq node target relays seq) h := by
  unfold pingReq
  refine Keeps.call_bind (fun t ho => hdrew.later (Later.of_others ho))
    fun channel t₁ h₁ ho₁ hd₁ => ?_
  have hdrew₁ := hdrew.later (Later.of_both ho₁ hd₁)
  refine Keeps.bind (keeps_later (numbered_askRelays relays 0)) ?_
  rintro sent h₂ ⟨-, hlater₂⟩
  split_ifs
  · exact numbered_forget (hdrew₁.later hlater₂) fun _ _ => trivial
  · refine Keeps.call_bind (fun _ _ => trivial) fun started t₃ h₃ ho₃ hd₃ => ?_
    refine Keeps.call_bind (fun _ _ => trivial) fun acked t₄ h₄ ho₄ hd₄ => ?_
    have hlater₄ : Later h₂ h₄ := (Later.of_both ho₃ hd₃).trans (Later.of_both ho₄ hd₄)
    exact numbered_forget (hdrew₁.later (hlater₂.trans hlater₄)) fun _ _ => trivial

lemma numbered_probe {member : Member} :
    Keeps (Numbering h₀ q slot (.probing member))
      (fun acked h => acked = false →
        Unanswered h₀ q slot (.probing member) member.id member.addr h)
      (probe node member) h₀ := by
  unfold probe
  refine Keeps.call_bind (fun _ _ => trivial) fun seq t₁ h₁ ho₁ hd₁ => ?_
  have hdrew : Drew h₀ q slot (.probing member) seq h₁ := .of_does (Later.of_others ho₁) hd₁
  have hlater₁ : Later h₀ h₁ := Later.of_both ho₁ hd₁
  refine Keeps.bind (keeps_later (numbered_ping hdrew)) ?_
  rintro acked h₂ ⟨hgave, hlater₂⟩
  cases acked with
  | true => exact Keeps.pure fun _ _ => by simp
  | false =>
    -- whatever the relays say, our own ping got nothing
    refine Keeps.call_bind (fun _ _ => trivial) fun relays t₃ h₃ ho₃ hd₃ => ?_
    have hgave₃ := (hgave rfl).later (Later.of_both ho₃ hd₃)
    show Keeps _ _ (if relays.isEmpty then pure false else _) h₃
    split_ifs
    · exact Keeps.pure fun h₄ ho₄ _ => hgave₃.later (Later.of_others ho₄)
    · refine Keeps.call_bind (fun _ _ => trivial) fun seq' t₄ h₄ ho₄ hd₄ => ?_
      have hlater₄ : Later h₀ t₄ := ((hlater₁.trans hlater₂).trans (Later.of_both ho₃ hd₃)).trans
        (Later.of_others ho₄)
      have hgave₄ := hgave₃.later (Later.of_both ho₄ hd₄)
      exact (keeps_later (numbered_pingReq relays (.of_does hlater₄ hd₄))).imp
        fun _ _ hlater _ => hgave₄.later hlater.2

lemma numbered_handlePingReq {relay : UInt32 × NodeId × SocketAddr} :
    Keeps (Numbering h₀ q slot (.relay relay)) (fun _ _ => True)
      (handlePingReq node relay.1 relay.2.1 relay.2.2) h₀ := by
  unfold handlePingReq
  refine Keeps.call_bind (fun _ _ => trivial) fun found t₁ h₁ ho₁ hd₁ => ?_
  cases found with
  | none => exact Keeps.pure fun _ _ => trivial
  | some member =>
    refine Keeps.call_bind (fun _ _ => trivial) fun seq t₂ h₂ ho₂ hd₂ => ?_
    have hlater₂ : Later h₀ t₂ := (Later.of_both ho₁ hd₁).trans (Later.of_others ho₂)
    refine Keeps.bind (numbered_ping (.of_does hlater₂ hd₂)) ?_
    intro acked h₃ _
    cases acked with
    | false => exact Keeps.pure fun _ _ => trivial
    | true =>
      refine Keeps.call_bind (fun _ _ => trivial) fun current t₄ h₄ ho₄ hd₄ => ?_
      refine Keeps.call_bind (fun _ _ => trivial) fun gossip t₅ h₅ ho₅ hd₅ => ?_
      exact Keeps.call_bind (fun _ _ => trivial) fun _ _ _ _ _ => Keeps.pure fun _ _ => trivial

/-! ## Tasks that answer -/

lemma numbered_handleDatagram {src : SocketAddr} {body : UdpBody} (hid : node.id = q) :
    Keeps (Numbering h₀ q slot (.datagram src body)) (Tells h₀ q slot (.datagram src body))
      (handleDatagram node src body) h₀ := by
  have hmanner : Manner node false fun _ prog => Idle prog := offline_idle.manner
  cases body with
  | ping seq sender gossip =>
    refine Keeps.bind (keeps_later ((hmanner.applyAll gossip).keeps h₀)) ?_
    rintro - h₁ ⟨-, hlater₁⟩
    refine Keeps.bind (Q := fun _ => Tells h₀ q slot (.datagram src (.ping seq sender gossip)) none)
      ?_ fun _ h₂ htells => Keeps.pure fun h₃ ho₃ => ?_
    · unfold handlePing
      refine Keeps.call_bind (fun _ _ => trivial) fun current t₂ h₂ ho₂ hd₂ => ?_
      refine Keeps.call_bind (fun _ _ => trivial) fun gossip' t₃ h₃ ho₃ hd₃ => ?_
      refine Keeps.call_bind (fun _ _ => trivial) fun ok t₄ h₄ ho₄ hd₄ => ?_
      refine Keeps.pure fun h₅ ho₅ => ⟨node.identity current, gossip', ok, t₄, hid, ?_, ?_⟩
      · exact ((hlater₁.trans (Later.of_both ho₂ hd₂)).trans (Later.of_both ho₃ hd₃)).trans
          (Later.of_others ho₄)
      · exact (Happened.of_does hd₄).later (Later.of_others ho₅)
    · obtain ⟨sender', gossip', ok, t, hsender, hafter, hack⟩ := htells
      exact ⟨sender', gossip', ok, t, hsender, hafter, hack.later (Later.of_others ho₃)⟩
  | ack seq sender gossip =>
    refine Keeps.bind (keeps_later ((hmanner.applyAll gossip).keeps h₀)) ?_
    rintro - h₁ ⟨-, hlater₁⟩
    refine Keeps.call_bind (fun _ _ => trivial) fun _ t₂ h₂ ho₂ hd₂ => Keeps.pure fun h₃ ho₃ => ?_
    exact ⟨t₂, hlater₁.trans (Later.of_others ho₂),
      (Happened.of_does hd₂).later (Later.of_others ho₃)⟩
  | _ => exact ((hmanner.handleDatagram src _).keeps h₀).imp fun _ _ _ => trivial

/-- Every kind of task marks numbers of its own only, and has told what it had to. -/
lemma numbered_start (h₀ : Trace) (q : NodeId) (node : LocalNode) (slot : Slot) (kind : Kind)
    (hid : node.id = q) :
    Keeps (Numbering h₀ q slot kind) (Tells h₀ q slot kind) (kind.start node) h₀ := by
  cases kind with
  | datagram src body => exact numbered_handleDatagram hid
  | relay relay => exact numbered_handlePingReq
  | probing member => exact numbered_probe
  | _ => exact ((idle_start rfl).keeps h₀).imp fun _ _ _ => trivial

end

/-! ## What waits -/

section

variable {h h' h₁ : Trace} {q subject : NodeId} {p p' : Process} {seq : UInt32} {channel : Channel}

/-- The wait under this number is on, or it has been answered. -/
def PendingAcks.Holds (pending : PendingAcks) (seq : UInt32) (subject : NodeId)
    (channel : Channel) : Prop :=
  pending.waiting seq = some (subject, channel) ∨ channel ∈ pending.sent

lemma PendingAcks.mem_sent_resolve (pending : PendingAcks) (asked : NodeId)
    (hsent : channel ∈ pending.sent) : channel ∈ (pending.resolve seq asked).sent := by
  unfold resolve
  split
  · split_ifs
    · exact List.mem_cons_of_mem _ hsent
    · exact hsent
  · exact hsent

/-- The answer somebody waits for is taken. -/
lemma PendingAcks.Holds.resolved {pending : PendingAcks}
    (hholds : pending.Holds seq subject channel) :
    channel ∈ (pending.resolve seq subject).sent := by
  rcases hholds with hwait | hsent
  · unfold resolve
    rw [hwait]
    simp
  · exact pending.mem_sent_resolve subject hsent

/-- Any other answer is not. -/
lemma PendingAcks.Holds.resolve {pending : PendingAcks} (seq' : UInt32) (asked : NodeId)
    (hholds : pending.Holds seq subject channel) :
    (pending.resolve seq' asked).Holds seq subject channel := by
  by_cases hmine : seq' = seq ∧ asked = subject
  · obtain ⟨rfl, rfl⟩ := hmine
    exact .inr hholds.resolved
  rcases hholds with hwait | hsent
  · left
    unfold PendingAcks.resolve
    split
    · rename_i asked' channel' hwait'
      split_ifs with hasked
      · have hseq : seq ≠ seq' := by
          rintro rfl
          rw [hwait] at hwait'
          have hsubject : subject = asked' := (Prod.mk.inj (Option.some.inj hwait')).1
          exact hmine ⟨rfl, (hsubject.trans hasked).symm⟩
        show Function.update pending.waiting seq' none seq = _
        rw [Function.update_of_ne hseq]
        exact hwait
      · exact hwait
    · exact hwait
  · exact .inr (pending.mem_sent_resolve asked hsent)

lemma Op.mem_sent_pendingAfter (o : Op) {pending : PendingAcks} (hsent : channel ∈ pending.sent) :
    channel ∈ (o.pendingAfter pending).sent := by
  cases o with
  | resolve seq asked => exact pending.mem_sent_resolve asked hsent
  | _ => exact hsent

lemma Op.holds_pendingAfter {o : Op} {pending : PendingAcks} (ho : ¬ o.marks seq)
    (hholds : pending.Holds seq subject channel) :
    (o.pendingAfter pending).Holds seq subject channel := by
  have hkept : ∀ {seq' x}, ¬ seq' = seq → pending.waiting seq = some (subject, channel) →
      Function.update pending.waiting seq' x seq = some (subject, channel) := fun hne hwait => by
    rw [Function.update_of_ne (Ne.symm hne)]
    exact hwait
  cases o with
  | register seq' asked => exact hholds.imp (hkept ho) id
  | forget seq' => exact hholds.imp (hkept ho) id
  | resolve seq' asked => exact hholds.resolve seq' asked
  | _ => exact hholds

/-- What one step makes of the waits of a process. -/
lemma Step.pending_of_procs {c c' : Cluster} {l : Label} (hstep : Step c l c')
    (hp : c.procs q = some p) (hp' : c'.procs q = some p') :
    p'.shared.pending = p.shared.pending ∨ ∃ slot kind o r, l = .op q slot kind o r ∧
      p'.shared.pending = o.pendingAfter p.shared.pending := by
  obtain ⟨p₁, hp₁, hev⟩ := hstep.exists_evolves hp
  obtain rfl : p₁ = p' := Option.some.inj (hp₁.symm.trans hp')
  rcases hev.shared with hshared | ⟨slot, kind, o, r, net, hl, hop⟩
  · exact .inl (congrArg Shared.pending hshared)
  · exact .inr ⟨slot, kind, o, r, hl, hop.pending⟩

/-- An answer stays on its channel. -/
lemma Later.mem_sent (hlater : Later h h') (hp : h.now.procs q = some p)
    (hsent : channel ∈ p.shared.pending.sent) (hp' : h'.now.procs q = some p') :
    channel ∈ p'.shared.pending.sent := by
  induction hlater generalizing p' with
  | refl =>
    obtain rfl := Option.some.inj (hp.symm.trans hp')
    exact hsent
  | push hext hstep ih =>
    obtain ⟨p₁, hp₁, _⟩ := Later.exists_grows hext hp
    have hbefore := ih hp₁
    rcases hstep.pending_of_procs hp₁ hp' with hsame | ⟨_, _, o, _, _, hafter⟩
    · rw [hsame]
      exact hbefore
    · rw [hafter]
      exact o.mem_sent_pendingAfter hbefore

/-- While nobody marks the number, the wait goes on until it is answered. -/
lemma LaterBy.holds (hlater : LaterBy (fun l => ∀ slot, ¬ l.marks q slot seq) h h')
    (hp : h.now.procs q = some p) (hholds : p.shared.pending.Holds seq subject channel)
    (hp' : h'.now.procs q = some p') : p'.shared.pending.Holds seq subject channel := by
  induction hlater generalizing p' with
  | refl =>
    obtain rfl := Option.some.inj (hp.symm.trans hp')
    exact hholds
  | push hext hstep ih =>
    obtain ⟨p₁, hp₁, _⟩ := Later.exists_grows (LaterBy.later hext) hp
    have hbefore := ih hp₁
    rcases hstep.1.pending_of_procs hp₁ hp' with hsame | ⟨slot, kind, o, r, rfl, hafter⟩
    · rw [hsame]
      exact hbefore
    · rw [hafter]
      exact Op.holds_pendingAfter (fun ho => hstep.2 slot ⟨rfl, rfl, ho⟩) hbefore

/-! ## Numbers are marked by the task that drew them -/

lemma Happened.numbered {slot : Slot} {kind : Kind} {o : Op} {r : o.Res}
    (hop : Happened (.op q slot kind o r) h₁ h) :
    ∃ h₀, Since q slot kind h₀ h₁ ∧ Dalila.numbered h₀ q slot kind o h₁ := by
  obtain ⟨hrun, c, hstep, _⟩ := hop
  obtain ⟨p, next, _, _, hp, halive, htask, _⟩ := hstep.of_op
  obtain ⟨h₀, hsince, hkeeps⟩ := Run.deeds numbered_start hrun hp halive htask
  exact ⟨h₀, hsince, hkeeps.step.1⟩

/-- Who marks a number has drawn it. -/
lemma Happened.drew {slot : Slot} {kind : Kind} {o : Op} {r : o.Res}
    (hop : Happened (.op q slot kind o r) h₁ h) (ho : o.marks seq) :
    ∃ h₀, Drew h₀ q slot kind seq h₁ := by
  obtain ⟨h₀, _, hnumbered⟩ := hop.numbered
  cases o with
  | register seq' asked =>
    obtain rfl : seq' = seq := ho
    exact ⟨h₀, hnumbered⟩
  | forget seq' =>
    obtain rfl : seq' = seq := ho
    exact ⟨h₀, hnumbered⟩
  | _ => exact ho.elim

/-- Nobody marks a number for the task that drew it. -/
lemma LaterBy.unmarked {h₀ : Trace} {slot : Slot} {kind : Kind}
    (hlater : LaterBy (fun l => ¬ l.marks q slot seq) h h') (hrun : Run h)
    (hdrew : Drew h₀ q slot kind seq h) (hdraws : draws q h' < 2 ^ 32) :
    LaterBy (fun l => ∀ slot, ¬ l.marks q slot seq) h h' := by
  induction hlater with
  | refl => exact .refl _
  | @push h' l c hext hstep ih =>
    have hlater : Later h h' := LaterBy.later hext
    have hpush : Later h' (h'.push l c) := .single hstep.1
    refine (ih (lt_of_le_of_lt hpush.draws_le hdraws)).push ⟨hstep.1, fun slot' hl => ?_⟩
    cases l with
    | op q' slot₁ kind' o r =>
      obtain ⟨rfl, rfl, ho⟩ := hl
      have hop := Happened.of_step (hrun.extends hlater) hstep.1
      obtain ⟨h₁, hdrew'⟩ := hop.drew ho
      obtain ⟨rfl, _, _⟩ :=
        (hdrew.later (hlater.trans hpush)).same hdraws hdrew' hpush
      exact hstep.2 ⟨rfl, rfl, ho⟩
    | _ => exact hl

end

/-- A task never does what its kind never does. -/
lemma Happened.of_never {waits : Op → Prop} {h h₁ : Trace} {q : NodeId} {slot : Slot} {kind : Kind}
    {o : Op} {r : o.Res} (hop : Happened (.op q slot kind o r) h₁ h)
    (hnever : ∀ node, AtWaits waits (fun _ => False) (kind.start node)) : ¬ waits o := by
  have hstart : ∀ (h₀ : Trace) (q : NodeId) (node : LocalNode) (slot : Slot) (kind' : Kind),
      node.id = q → Keeps (deeds q slot kind' fun o _ => kind' = kind → ¬ waits o)
        (fun _ _ => True) (kind'.start node) h₀ := by
    intro h₀ q node slot kind' _
    by_cases hkind : kind' = kind
    · subst hkind
      exact (hnever node).keeps (fun o ho _ _ => ho) h₀
    · exact Keeps.free (fun _ _ heq => absurd heq hkind) _ _
  obtain ⟨hrun, c, hstep, _⟩ := hop
  obtain ⟨p, next, _, _, hp, hrunning, htask, _⟩ := hstep.of_op
  obtain ⟨_, _, hkeeps⟩ := Run.deeds (Q := fun _ _ _ _ _ _ => True) hstart hrun hp hrunning htask
  exact hkeeps.step.1 rfl

end Dalila
