import Dalila.Answers
import Dalila.Manner
import Dalila.Pair

/-!
# What an answer to a probe is worth

`Pinged` and `Relayed` are the two ways in which a probe can have been answered. The file proves
that a probe that was answered was answered by its target while it was running, and that once all
probes have returned no number is waited for (`probe_evidence`). `Probed` is such a probe between
two nodes, step by step.
-/

namespace Dalila

open Program

variable {h h' h₀ h₀' h₁ h₂ : Trace} {q x target : NodeId} {p : Process} {slot slot' : Slot}
  {kind kind' : Kind} {seq : UInt32} {subject : NodeId} {src dst : SocketAddr} {body : UdpBody}

/-! ## From a datagram to its sender -/

/-- No other process lives at the address of `q`. -/
def Sole (q : NodeId) (h : Trace) : Prop :=
  ∀ q' p p', h.now.procs q = some p → h.now.procs q' = some p' → p'.node.addr = p.node.addr →
    q' = q

/-- What a task was started for had happened when it started. -/
lemma Since.origin (hsince : Since q slot kind h₀ h) (hp : h.now.procs q = some p)
    (halive : p.stopped = false) : Origin q kind h₀ := by
  obtain ⟨hrun, ⟨p₀, hp₀, htask₀⟩, hlater⟩ := hsince
  have hgrows := hlater.later.grows hp₀ hp
  exact hrun.origin hp₀ (hgrows.running halive) htask₀

/-- Behind every operation stands a task that has kept to its conduct, and what that was started
for. -/
lemma Happened.conduct {o : Op} {r : o.Res} (hop : Happened (.op q slot kind o r) h₁ h) :
    ∃ h₀, Since q slot kind h₀ h₁ ∧ Dalila.conduct h₀ q slot kind o h₁ ∧ Origin q kind h₀ := by
  obtain ⟨hrun, c, hstep, _⟩ := hop
  obtain ⟨p, next, _, _, hp, halive, htask, _⟩ := hstep.of_op
  obtain ⟨h₀, hsince, hkeeps⟩ := hrun.conduct hp halive htask
  exact ⟨h₀, hsince, hkeeps.step.1, hsince.origin hp halive⟩

/-- What came from the address of `q` came from `q`, if nobody else lives there. -/
lemma Sole.sent (hsole : Sole q h) (hp : h.now.procs q = some p)
    (hrec : Received x p.node.addr body h') (hlater : Later h' h) :
    ∃ slot kind dst h₁ h₂, Happened (.op q slot kind (.sendUdp dst body) true) h₁ h₂ ∧
      Happened (.receive x p.node.addr body) h₂ h' := by
  obtain ⟨h₂, px, hl, _, hnet⟩ := hrec
  obtain ⟨q', slot, kind, h₁, p', hsent, hp', haddr⟩ := hl.1.sent hnet
  obtain ⟨p'', hp'', hgrows⟩ := Later.exists_grows (hl.before.trans hlater) hp'
  have haddr' : p''.node.addr = p.node.addr := by rw [hgrows.node, haddr]
  obtain rfl := hsole q' p p'' hp hp'' haddr'
  exact ⟨slot, kind, _, h₁, h₂, hsent, hl⟩

/-- A number belongs to the task that drew it. -/
lemma Drew.same (hdraws : draws q h < 2 ^ 32) (hdrew : Drew h₀ q slot kind seq h)
    (hdrew' : Drew h₀' q slot' kind' seq h') (hlater : Later h' h) :
    slot' = slot ∧ kind' = kind ∧ Later h₀ h' := by
  obtain ⟨h₁, hafter, hl⟩ := hdrew
  obtain ⟨h₂, _, hl'⟩ := hdrew'
  obtain ⟨rfl, hslot, hkind⟩ := hl.same_draw hdraws (hl'.later hlater)
  exact ⟨hslot.symm, hkind.symm, hafter.trans hl'.before⟩

/-! ## Evidence -/

/-- The task pinged `target` after `h₀`, `target` handled that ping and sent an ack, and the ack
arrived. -/
def Pinged (h₀ : Trace) (q : NodeId) (slot : Slot) (kind : Kind) (target : NodeId) (h : Trace) :
    Prop :=
  ∃ dst src src' seq sender gossip sender' gossip' slot' h₁ h₂ h₃, Later h₀ h₁ ∧
    Happened (.op q slot kind (.sendUdp dst (.ping seq sender gossip)) true) h₁ h₂ ∧
    Happened (.op target slot' (.datagram src (.ping seq sender gossip))
      (.sendUdp src (.ack seq sender' gossip')) true) h₂ h₃ ∧
    Happened (.receive q src' (.ack seq sender' gossip')) h₃ h

/-- The task asked a relay to probe `target` after `h₀`, the relay received that, pinged `target`
in answer to it, and its report arrived. -/
def Relayed (h₀ : Trace) (q : NodeId) (slot : Slot) (kind : Kind) (target : NodeId) (h : Trace) :
    Prop :=
  ∃ R slotR dst src src' seq sender gossip sender' gossip' h₁ h₂ h₃ h₄ h₅, Later h₀ h₁ ∧
    Happened (.op q slot kind (.sendUdp dst (.pingReq seq sender target gossip)) true) h₁ h₂ ∧
    Happened (.receive R src (.pingReq seq sender target gossip)) h₂ h₃ ∧
    Since R slotR (.relay (seq, target, src)) h₃ h₄ ∧
    Pinged h₃ R slotR (.relay (seq, target, src)) target h₄ ∧
    Happened (.op R slotR (.relay (seq, target, src))
      (.sendUdp src (.pingReqAck seq sender' target gossip')) true) h₄ h₅ ∧
    Happened (.receive q src' (.pingReqAck seq sender' target gossip')) h₅ h

/-- What was waited for under a number of its own was heard under that number. -/
lemma Answered.heard (hans : Answered h₀ q slot kind subject h) :
    ∃ seq src sender gossip, Drew h₀ q slot kind seq h ∧
      (Received q src (.ack seq sender gossip) h ∧ sender.id = subject ∨
        Received q src (.pingReqAck seq sender subject gossip) h) := by
  obtain ⟨seq, channel, deadline, h₁, h₂, hdrew, hreg, hacked⟩ := hans
  have hrun₂ : Run h₂ := hacked.1
  have hbefore : Later h₂ h := hacked.before
  obtain ⟨c, hstep, _⟩ := hacked.2
  obtain ⟨p, _, _, _, hp, _, _, hop, _⟩ := hstep.of_op
  -- something arrived on the channel
  have hchannel : channel ∈ p.shared.pending.sent := hop.1
  obtain ⟨slot₃, kind₃, seq', subject', h₃, p₃, hres, hp₃, hwait⟩ := hrun₂.resolved hp hchannel
  obtain ⟨slot₄, kind₄, h₄, hreg'⟩ := hres.1.registered hp₃ hwait
  obtain ⟨_, _, _, hseq, hsubject⟩ := hreg.same_channel (hreg'.later hres.before)
  -- by a datagram with this number, about this subject
  obtain ⟨h₅, hsince, ⟨src, sender, gossip, hkind⟩, horigin⟩ := hres.conduct
  have hlater : Later h₅ h := (hsince.later.later.trans hres.before).trans hbefore
  refine ⟨seq, src, sender, gossip, hdrew.later (hreg.before.trans hbefore), ?_⟩
  rw [hseq, hsubject]
  rcases hkind with ⟨hkind, hid⟩ | hkind
  · rw [hkind] at horigin
    exact .inl ⟨Received.later horigin hlater, hid⟩
  · rw [hkind] at horigin
    exact .inr (Received.later horigin hlater)

/-- What arrived was sent by somebody, to here. -/
lemma Received.sent (hrec : Received q src body h) (hp : h.now.procs q = some p) :
    ∃ q' slot kind h₁ h₂, Happened (.op q' slot kind (.sendUdp p.node.addr body) true) h₁ h₂ ∧
      Happened (.receive q src body) h₂ h := by
  obtain ⟨h₂, p₂, hl, hp₂, hnet⟩ := hrec
  obtain ⟨q', slot, kind, h₁, _, hsent, _, _⟩ := hl.1.sent hnet
  have hgrows := hl.before.grows hp₂ hp
  rw [← hgrows.node] at hsent
  exact ⟨q', slot, kind, h₁, h₂, hsent, hl⟩

/-- An ack under a number the task drew answers a ping of the task. -/
lemma Received.pinged {sender : WireIdentity} {gossip : List WireMember}
    (hrec : Received q src (.ack seq sender gossip) h) (hp : h.now.procs q = some p)
    (hsole : Sole q h) (hdraws : draws q h < 2 ^ 32) (hdrew : Drew h₀ q slot kind seq h) :
    Pinged h₀ q slot kind sender.id h := by
  -- whoever sent the ack handled a ping from our address
  obtain ⟨T, slotT, kindT, h₂, h₃, hack, harrives⟩ := hrec.sent hp
  obtain ⟨hT, hsinceT, hspeaks, horigin⟩ := hack.conduct
  obtain ⟨sender', gossip', rfl⟩ := hspeaks.grounds
  have hid : sender.id = T := hspeaks.sender
  have hlaterT : Later hT h₂ := hsinceT.later.later
  have hlater₂ : Later h₂ h := hack.before.trans harrives.before
  -- we sent that ping, under a number only one task has drawn
  obtain ⟨slot₁, kind₁, dst, h₁, h₁', hping, hhandled⟩ :=
    hsole.sent hp horigin (hlaterT.trans hlater₂)
  have hlater₁ : Later h₁' h₂ := hhandled.before.trans hlaterT
  obtain ⟨_, _, hspeaks₁, _⟩ := hping.conduct
  obtain ⟨rfl, rfl, hafter⟩ := hdrew.same hdraws hspeaks₁.grounds
    ((hping.before.trans hlater₁).trans hlater₂)
  rw [hid]
  exact ⟨dst, _, src, seq, sender', gossip', sender, gossip, slotT, h₁, h₂, h₃, hafter,
    hping.later hlater₁, hack, harrives⟩

/-- A report under a number the task drew answers a request of the task, which is a probe of the
same subject. -/
lemma Received.asked {sender : WireIdentity} {gossip : List WireMember}
    (hrec : Received q src (.pingReqAck seq sender subject gossip) h)
    (hp : h.now.procs q = some p) (hsole : Sole q h) (hdraws : draws q h < 2 ^ 32)
    (hdrew : Drew h₀ q slot kind seq h) :
    (∃ member : Member, kind = .probing member ∧ member.id = subject) ∧
      ∃ R slotR dst sender' gossip' h₁ h₂ h₃ h₄ h₅, Later h₀ h₁ ∧
        Happened (.op q slot kind (.sendUdp dst (.pingReq seq sender' subject gossip')) true) h₁ h₂ ∧
        Happened (.receive R p.node.addr (.pingReq seq sender' subject gossip')) h₂ h₃ ∧
        Since R slotR (.relay (seq, subject, p.node.addr)) h₃ h₄ ∧
        Answered h₃ R slotR (.relay (seq, subject, p.node.addr)) subject h₄ ∧
        Happened (.op R slotR (.relay (seq, subject, p.node.addr))
          (.sendUdp p.node.addr (.pingReqAck seq sender subject gossip)) true) h₄ h₅ ∧
        Happened (.receive q src (.pingReqAck seq sender subject gossip)) h₅ h := by
  -- whoever sent the report relayed a probe for our address
  obtain ⟨R, slotR, kindR, h₄, h₅, hreport, harrives⟩ := hrec.sent hp
  obtain ⟨h₃, hsinceR, hspeaks, horigin⟩ := hreport.conduct
  obtain ⟨rfl, hans⟩ := hspeaks.grounds
  obtain ⟨sender', gossip', hasked⟩ := horigin
  have hlater₃ : Later h₃ h := (hsinceR.later.later.trans hreport.before).trans harrives.before
  -- we asked for it, under a number only one task has drawn
  obtain ⟨slot₁, kind₁, dst, h₁, h₂, hreq, hreceived⟩ := hsole.sent hp hasked hlater₃
  obtain ⟨_, _, hspeaks₁, _⟩ := hreq.conduct
  obtain ⟨hdrew₁, hkind⟩ := hspeaks₁.grounds
  obtain ⟨rfl, rfl, hafter⟩ := hdrew.same hdraws hdrew₁
    ((hreq.before.trans hreceived.before).trans hlater₃)
  exact ⟨hkind, R, slotR, dst, sender', gossip', h₁, h₂, h₃, h₄, h₅, hafter, hreq, hreceived,
    hsinceR, hans, hreport, harrives⟩

/-- `q` alone lives at its address, and it has not drawn every number there is. -/
structure Identified (q : NodeId) (h : Trace) : Prop where
  sole : Sole q h
  draws : draws q h < 2 ^ 32

lemma Identified.of_later (hid : Identified q h') (hlater : Later h h') : Identified q h := by
  refine ⟨fun q' p p' hp hp' haddr => ?_, lt_of_le_of_lt hlater.draws_le hid.draws⟩
  obtain ⟨p₁, hp₁, hgrows⟩ := Later.exists_grows hlater hp
  obtain ⟨p₁', hp₁', hgrows'⟩ := Later.exists_grows hlater hp'
  refine hid.sole q' p₁ p₁' hp₁ hp₁' ?_
  rw [hgrows.node, hgrows'.node]
  exact haddr

/-- A relayed probe that was answered was answered by an ack. -/
lemma Answered.pinged {relay : UInt32 × NodeId × SocketAddr}
    (hans : Answered h₀ q slot (.relay relay) subject h) (hp : h.now.procs q = some p)
    (hid : Identified q h) : Pinged h₀ q slot (.relay relay) subject h := by
  obtain ⟨seq, src, sender, gossip, hdrew, hheard⟩ := hans.heard
  rcases hheard with ⟨hack, rfl⟩ | hreport
  · exact hack.pinged hp hid.sole hid.draws hdrew
  · -- a report answers a request, and a relay makes none
    obtain ⟨⟨member, hkind, _⟩, _⟩ := hreport.asked hp hid.sole hid.draws hdrew
    exact absurd hkind (by simp)

/-- The detector's probe that was answered was answered by an ack, or by the report of a relay. -/
lemma Answered.pinged_or_relayed (hans : Answered h₀ q slot kind subject h)
    (hp : h.now.procs q = some p) (hid : Identified q h)
    (hrelays : ∀ R seq sender gossip h₁,
      Happened (.receive R p.node.addr (.pingReq seq sender subject gossip)) h₁ h →
      Identified R h) :
    Pinged h₀ q slot kind subject h ∨ Relayed h₀ q slot kind subject h := by
  obtain ⟨seq, src, sender, gossip, hdrew, hheard⟩ := hans.heard
  rcases hheard with ⟨hack, rfl⟩ | hreport
  · exact .inl (hack.pinged hp hid.sole hid.draws hdrew)
  · obtain ⟨_, R, slotR, dst, sender', gossip', h₁, h₂, h₃, h₄, h₅, hafter, hreq, hreceived, hsince,
      hansR, hreports, harrives⟩ := hreport.asked hp hid.sole hid.draws hdrew
    obtain ⟨pR, _, hpR, _⟩ := hsince.keeps keeps_start
    have hlater : Later h₄ h := hreports.before.trans harrives.before
    -- the relay had heard from the target itself
    have hasked := hreceived.later (hsince.later.later.trans hlater)
    have hidR : Identified R h₄ := (hrelays R seq sender' gossip' h₂ hasked).of_later hlater
    exact .inr ⟨R, slotR, dst, _, src, seq, sender', gossip', sender, gossip, h₁, h₂, h₃, h₄, h₅,
      hafter, hreq, hreceived, hsince, hansR.pinged hpR hidR, hreports, harrives⟩

/-! ## Nothing is left waiting -/

/-- The task that was in `slot` has returned since. -/
def Returned (q : NodeId) (slot : Slot) (h₁ h : Trace) : Prop :=
  ∃ h₂ kind out, LaterBy (fun l => ¬ l.ends q slot) h₁ h₂ ∧ Happened (.finish q slot kind out) h₂ h

/-- Registers a probe. -/
def Op.registers : Op → Prop
  | .register _ _ => True
  | _ => False

/-- The tasks that probe. -/
def Kind.probes : Kind → Prop
  | .relay _ | .probing _ => True
  | _ => False

/-- A program that is not about probes registers none. -/
lemma Discreet.not_registers {α : Type} {prog : Prog α} (hprog : Discreet prog) :
    AtWaits Op.registers (fun _ => False) prog := by
  refine AtWaits.of_le (fun o ho => ?_) hprog
  cases o with
  | register => trivial
  | _ => exact ho.elim

/-- No other task registers a probe. -/
lemma not_registers_start (node : LocalNode) (hkind : ¬ kind.probes) :
    AtWaits Op.registers (fun _ => False) (kind.start node) := by
  by_cases hspeaks : kind.speaks = true
  · cases kind with
    | datagram src body =>
      have hgossip : ∀ gossip, AtWaits Op.registers (fun _ => False) (applyAll node gossip) :=
        fun gossip => (discreet_applyAll gossip).not_registers
      cases body with
      | ping seq sender gossip =>
        refine (hgossip gossip).bind (fun _ => id) fun _ => ?_
        exact AtWaits.call_bind id fun _ => AtWaits.call_bind id fun _ => AtWaits.call_bind id
          fun _ => trivial
      | pingReq seq sender target gossip =>
        exact (hgossip gossip).bind (fun _ => id) fun _ => trivial
      | leave sender =>
        have hdeath : Discreet (handleLeave node sender) := (discreet_apply _).bind fun _ => trivial
        exact hdeath.not_registers.bind (fun _ => id) fun _ => trivial
      | ack seq sender gossip =>
        refine (hgossip gossip).bind (fun _ => id) fun _ => ?_
        exact AtWaits.call_bind id fun _ => trivial
      | pingReqAck seq sender target gossip =>
        refine (hgossip gossip).bind (fun _ => id) fun _ => ?_
        exact AtWaits.call_bind id fun _ => trivial
    | announcing =>
      refine AtWaits.call_bind id fun current => AtWaits.call_bind id fun members => ?_
      have hall : ∀ (members : List Member) (told : ℕ), AtWaits Op.registers (fun _ => False)
          (sendEach (.leave (node.identity current)) members told) := by
        intro members
        induction members with
        | nil => exact fun _ => trivial
        | cons member members ih => exact fun _ => AtWaits.call_bind id fun _ => ih _
      exact hall members 0
    | relay | probing => exact absurd trivial hkind
    | _ => exact absurd hspeaks (by simp [Kind.speaks])
  · exact (discreet_start hspeaks).not_registers

/-- Whoever registers a probe is one. -/
lemma Happened.probes {channel : Channel}
    (hreg : Happened (.op q slot kind (.register seq subject) channel) h₁ h) : kind.probes := by
  have hstart : ∀ (h₀ : Trace) (q : NodeId) (node : LocalNode) (slot : Slot) (kind : Kind),
      node.id = q → Keeps (deeds q slot kind fun o _ => o.registers → kind.probes)
        (fun _ _ => True) (kind.start node) h₀ := by
    intro h₀ q node slot kind _
    by_cases hkind : kind.probes
    · exact Keeps.free (fun _ _ _ => hkind) _ _
    · exact (not_registers_start node hkind).keeps (fun o ho _ hreg => absurd hreg ho) h₀
  obtain ⟨hrun, c, hstep, _⟩ := hreg
  obtain ⟨p, next, _, _, hp, halive, htask, _⟩ := hstep.of_op
  obtain ⟨_, _, hkeeps⟩ := Run.deeds (Q := fun _ _ _ _ _ _ => True) hstart hrun hp halive
    htask
  exact hkeeps.step.1 trivial

/-- A probe that has returned has forgotten what it registered. -/
lemma Returned.forgotten {channel : Channel}
    (hreg : Happened (.op q slot kind (.register seq subject) channel) h₁ h)
    (hreturned : Returned q slot h₁ h) :
    ∃ h₂, Happened (.op q slot kind (.register seq subject) channel) h₁ h₂ ∧
      Happened (.op q slot kind (.forget seq) ()) h₂ h := by
  obtain ⟨h₃, kind', out, hgoes, hfinish⟩ := hreturned
  obtain ⟨hrun₁, c, hstep, hafter⟩ := id hreg
  obtain ⟨p, next, _, _, hp, halive, htask, _⟩ := hstep.of_op
  obtain ⟨h₀, hsince⟩ := hrun₁.since hp halive htask
  have hsince₃ : Since q slot kind h₀ h₃ := ⟨hsince.run, hsince.start, hsince.later.trans hgoes⟩
  -- the task that returned is the one that registered
  obtain ⟨p₃, prog, hp₃, htask₃, hkeeps⟩ := hsince₃.keeps keeps_start
  obtain ⟨hrun₃, c₃, hstep₃, hafter₃⟩ := id hfinish
  have hret : ∃ out : kind.Out, prog = .ret out := by
    cases hstep₃ with
    | finish _ p₀ _ _ _ free hp₀ _ htask₀ =>
      obtain rfl : p₃ = p₀ := Option.some.inj (hp₃.symm.trans hp₀)
      obtain ⟨hkind, hprog⟩ := Task.mk.inj (Option.some.inj (htask₃.symm.trans htask₀))
      subst hkind
      exact ⟨out, eq_of_heq hprog⟩
  obtain ⟨out', rfl⟩ := hret
  have hsettled : Settled h₀ q slot kind (fun _ => False) h₃ := by
    have hleaves := hkeeps.result
    have hprobes := hreg.probes
    cases kind with
    | relay relay => exact hleaves
    | probing target => exact hleaves.1
    | _ => exact hprobes.elim
  -- so it registered before it returned
  have hbefore : Happened (.op q slot kind (.register seq subject) channel) h₁ h₃ := by
    rcases hreg.total hfinish with ⟨_, hlabel⟩ | hbefore | hafter'
    · exact absurd hlabel (by simp)
    · exact hbefore
    · exact absurd (hafter'.later hgoes.later) Happened.irrefl
  obtain ⟨h₂, hfirst, hforget⟩ :=
    (hsettled seq subject channel h₁ hsince.later.later hbefore).resolve_left id
  exact ⟨h₂, hfirst, hforget.later hfinish.before⟩

/-- When every probe has returned, nothing waits. -/
lemma Run.waiting_eq_none (hrun : Run h) (hp : h.now.procs q = some p)
    (hreturned : ∀ slot kind seq subject channel h₁,
      Happened (.op q slot kind (.register seq subject) channel) h₁ h → Returned q slot h₁ h) :
    p.shared.pending.waiting seq = none := by
  by_contra hsome
  obtain ⟨⟨subject, channel⟩, hwait⟩ := Option.ne_none_iff_exists'.mp hsome
  obtain ⟨slot, kind, h₁, hreg⟩ := hrun.registered hp hwait
  obtain ⟨h₂, hfirst, hforget⟩ := (hreturned slot kind seq subject channel h₁ hreg).forgotten hreg
  -- it was forgotten, so it would have been registered again
  obtain ⟨hrun₂, c, hstep, hafter⟩ := hforget
  rcases Later.registered (hrun₂.push hstep) hafter hp hwait with ⟨p₁, hp₁, hwait₁⟩ |
    ⟨slot', kind', h₃, hlater, hagain⟩
  · obtain ⟨p₂, _, shared, _, _, _, _, hop, rfl⟩ := hstep.of_op
    have hsame : _ = p₁ := Option.some.inj ((if_pos rfl).symm.trans hp₁)
    subst hsame
    have hforgot : shared.pending = p₂.shared.pending.forget seq := hop.pending
    have hwait₁ : shared.pending.waiting seq = some (subject, channel) := hwait₁
    rw [hforgot] at hwait₁
    exact absurd hwait₁ (by simp [PendingAcks.forget])
  · obtain ⟨hsame, _⟩ := hreg.same_channel hagain
    rw [← hsame] at hlater
    have hpast : Later h₂ h₁ := (History.Extends.single hstep).trans hlater
    exact absurd (hfirst.later hpast) Happened.irrefl

/-! ## A probe that was answered -/

/-- Whenever a probe of `target` returns true on `q`, which alone lives at its address, as the
relays it asked do at theirs, and none of them has drawn every number there is: since the probe
began, `target` has handled a ping and sent an ack for it, and the ping was sent in this probe, or
by a relay in answer to a request of this probe. And when every probe of `q` has returned, nothing
waits there. -/
theorem probe_evidence (hrun : Run h) (hp : h.now.procs q = some p) :
    (∀ slot (target : Member) c, Step h.now (.finish q slot (.probing target) true) c →
      Identified q h →
      (∀ R seq sender gossip h₁,
        Happened (.receive R p.node.addr (.pingReq seq sender target.id gossip)) h₁ h →
        Identified R h) →
      ∃ h₀, Since q slot (.probing target) h₀ h ∧
        (Pinged h₀ q slot (.probing target) target.id h ∨
          Relayed h₀ q slot (.probing target) target.id h)) ∧
    ((∀ slot kind seq subject channel h₁,
        Happened (.op q slot kind (.register seq subject) channel) h₁ h →
        Returned q slot h₁ h) →
      ∀ seq, p.shared.pending.waiting seq = none) := by
  refine ⟨fun slot target c hstep hid hrelays => ?_,
    fun hreturned seq => hrun.waiting_eq_none hp hreturned⟩
  cases hstep with
  | finish _ p₀ _ _ _ free hp₀ halive htask =>
    obtain ⟨h₀, hsince, hkeeps⟩ := hrun.conduct hp₀ halive htask
    have hans := hkeeps.result.2 rfl
    exact ⟨h₀, hsince, hans.pinged_or_relayed hp hid hrelays⟩

/-! ### Between two nodes -/

/-- No step of the first node draws a number, and nobody is asked to relay a probe. -/
def Label.direct (l : Label) : Prop :=
  l.draws alpha.id = false ∧
    ∀ R src seq sender target gossip, l ≠ .receive R src (.pingReq seq sender target gossip)

/-- Tasks that neither work on datagrams nor wait for answers. -/
def Kind.Aside (kind : Kind) : Prop := kind.speaks = false ∧ kind.counts = false

/-- The step draws no number and asks nobody to relay, and its task has nothing to do with probes. -/
def Label.before (l : Label) : Prop :=
  l.direct ∧ ∀ q slot kind o r, l = .op q slot kind o r → kind.Aside

/-- The step draws no number and asks nobody to relay, and does not end what the first node's
detector is at. -/
def Label.during (l : Label) : Prop :=
  l.direct ∧ ¬ l.ends alpha.id .detector

/-- The operation draws no number, and nothing is sent but `letter`. -/
def Op.posts (letter : Option (SocketAddr × UdpBody)) : (o : Op) → o.Res → Prop
  | .fetchSeq, _ => False
  | .sendUdp dst body, ok => letter = some (dst, body) ∧ ok = true
  | _, _ => True

/-- Only `q` works, and nothing is sent but `letter`. -/
def Label.posts (q : NodeId) (letter : Option (SocketAddr × UdpBody)) : Label → Prop
  | .op q' _ _ o r => q' = q ∧ o.posts letter r
  | _ => True

/-- An operation of one task that waits for nobody and sends nothing but `letter`. -/
def Label.does (q : NodeId) (slot : Slot) (kind : Kind) (letter : Option (SocketAddr × UdpBody))
    (l : Label) : Prop :=
  ∃ (o : Op) (r : o.Res), l = .op q slot kind o r ∧ ¬ o.awaits = true ∧ o.posts letter r

lemma Label.direct_op {o : Op} {r : o.Res} (ho : o ≠ .fetchSeq) :
    (Label.op q slot kind o r).direct := by
  refine ⟨?_, by simp⟩
  cases o with
  | fetchSeq => exact absurd rfl ho
  | _ => rfl

lemma Label.before_op {o : Op} {r : o.Res} (hkind : kind.Aside)
    (hdirect : (Label.op q slot kind o r).direct) : (Label.op q slot kind o r).before := by
  refine ⟨hdirect, ?_⟩
  rintro q' slot' kind' o' r' heq
  injection heq with _ _ heq
  exact heq ▸ hkind

lemma Label.greets.before {l : Label} (hl : l.greets) : l.before := by
  cases l with
  | start | accept => exact ⟨⟨rfl, by simp⟩, by simp⟩
  | op q slot kind o r =>
    cases kind with
    | join seeds =>
      obtain rfl : q = beta.id := hl
      refine Label.before_op ⟨rfl, rfl⟩ ⟨?_, by simp⟩
      cases o with
      | fetchSeq => exact decide_eq_false alpha_ne_beta.symm
      | _ => rfl
    | serve conn body => exact Label.before_op ⟨rfl, rfl⟩ (Label.direct_op hl)
    | _ => exact hl.elim
  | _ => exact hl.elim

lemma Op.posts.ne_fetchSeq {letter : Option (SocketAddr × UdpBody)} {o : Op} {r : o.Res}
    (hposts : o.posts letter r) : o ≠ .fetchSeq := by
  rintro rfl
  exact hposts

lemma Label.does.posts {letter : Option (SocketAddr × UdpBody)} {l : Label}
    (hdoes : l.does q slot kind letter) : l.posts q letter := by
  obtain ⟨o, r, rfl, _, hposts⟩ := hdoes
  exact ⟨rfl, hposts⟩

lemma Label.does.during {letter : Option (SocketAddr × UdpBody)} {l : Label}
    (hdoes : l.does q slot kind letter) : l.during := by
  obtain ⟨o, r, rfl, _, hposts⟩ := hdoes
  exact ⟨Label.direct_op hposts.ne_fetchSeq, not_false⟩

lemma Label.does.not_ends {letter : Option (SocketAddr × UdpBody)} {l : Label} {q' : NodeId}
    {slot' : Slot} (hdoes : l.does q slot kind letter) : ¬ l.ends q' slot' := by
  obtain ⟨o, r, rfl, _⟩ := hdoes
  exact not_false

/-- Nobody draws a number meanwhile. -/
lemma LaterBy.draws_eq (hlater : LaterBy (fun l => l.draws q = false) h h') :
    draws q h' = draws q h := by
  induction hlater with
  | refl => rfl
  | push _ hstep ih => rw [draws_push, hstep.2, ih]; rfl

lemma Label.posts.draws {letter : Option (SocketAddr × UdpBody)} {l : Label} {q' : NodeId}
    (hposts : l.posts q' letter) (q : NodeId) : l.draws q = false := by
  cases l with
  | op q' slot kind o r =>
    cases o with
    | fetchSeq => exact hposts.2.elim
    | _ => rfl
  | _ => rfl

/-- The first of the two, when it has heard of the second. -/
def heard : Shared := { Shared.new with table := (MemberTable.new.merge 0 news alpha.id).2 }

/-- Its entry for the second. -/
def peer : Member := news.toMember 0

/-- The first node hears of the second one and takes it in. -/
lemma merge_news : MemberTable.new.merge 0 news alpha.id = (.added, MemberTable.new.put peer) :=
  MemberTable.merge_new alpha_ne_beta.symm beta_mayStart.1 rfl

lemma members_heard : heard.table.members = [peer] := by
  show (MemberTable.new.merge 0 news alpha.id).2.members = _
  rw [merge_news]
  rfl

lemma path_heard (conn : Conn) : ∃ prog,
    Program.Path (fun o w r w' => Op.Run alpha 0 o w r w' ∧ o ≠ .fetchSeq)
      (fun o => ¬ o.awaits = true)
      (serve alpha conn (.joinRequest (beta.identity Guarded.new.current))) ⟨Shared.new, []⟩
      prog ⟨heard, []⟩ := by
  rw [serve_joinRequest]
  exact ⟨_, .step (r := []) (by simp [Op.awaits]) ⟨⟨.refl _, rfl⟩, by simp⟩ <|
    .step (r := (MemberTable.new.merge 0 news alpha.id).1) (by simp [Op.awaits])
      ⟨⟨rfl, rfl⟩, by simp⟩ <|
    .refl _ _⟩

/-- A shuffle of one member leaves no choice. -/
lemma path_chosen : Program.Path (fun o w r w' => Op.Run alpha 0 o w r w' ∧ o ≠ .fetchSeq)
    (fun o => ¬ o.awaits = true) (nextTarget []) ⟨heard, []⟩ (.ret (some peer, [])) ⟨heard, []⟩ := by
  have hget : heard.table.get beta.id = some peer := by
    simp [MemberTable.get, members_heard, peer, news, WireMember.toMember, LocalNode.aliveRumor]
  refine .step (o := Op.shuffledIds) (r := [beta.id]) (by simp [Op.awaits]) ⟨⟨?_, rfl⟩, by simp⟩ <|
    .step (o := Op.get beta.id) (r := some peer) (by simp [Op.awaits]) ⟨⟨hget.symm, rfl⟩, by simp⟩ <|
    .refl _ _
  show [beta.id].Perm (heard.table.members.map Member.id)
  rw [members_heard]
  exact .refl _

/-- The first of two nodes can get as far as a probe of the second. -/
lemma exists_probing : ∃ (h : Trace) (n : ℕ) (task task' : Task),
    LaterBy Label.before (.init .empty) h ∧
    h.now = .duo (((Process.new alpha []).at (.spawned n) heard task).at .detector heard
        (Task.start alpha (.probing peer)))
      ((Process.new beta [alpha.addr]).at .main { Shared.new with conns := 1 } task') [] := by
  obtain ⟨h, n, task, task', hgreets, hnow⟩ := exists_greeted path_heard
  set p := (Process.new alpha []).at (.spawned n) heard task with hp
  set p' := (Process.new beta [alpha.addr]).at .main { Shared.new with conns := 1 } task'
  -- a turn of the detector begins
  have hbegins : Step h.now (.begins alpha.id .detector (.choosing [])) (h.now.put alpha.id
      (p.at .detector heard (Task.start alpha (.choosing []))) h.now.net) :=
    .begins h.now alpha.id p .detector (.choosing []) (by rw [hnow, Cluster.procs_duo_alpha]) rfl rfl
      (by simp [hp, Process.at, Process.tasks_set, Process.new]) (.detector rfl)
  set begun := h.push (.begins alpha.id .detector (.choosing [])) (h.now.put alpha.id
    (p.at .detector heard (Task.start alpha (.choosing []))) h.now.net) with hbegun
  have hbefore : LaterBy Label.before (.init .empty) begun :=
    (hgreets.imp fun _ => Label.greets.before).push ⟨hbegins, ⟨rfl, by simp⟩, by simp⟩
  have hnow₁ : begun.now = .duo (p.at .detector heard (Task.start alpha (.choosing []))) p' [] := by
    rw [hbegun, History.now_push, hnow, Cluster.put_duo_alpha, Cluster.net_duo]
  -- it picks the only peer
  obtain ⟨chosen, hchooses, hnow₂⟩ := exists_works_alpha hnow₁ rfl (Process.tasks_at ..) path_chosen
  rw [Process.at_at] at hnow₂
  have hbefore₂ : LaterBy Label.before (.init .empty) chosen := by
    refine hbefore.trans (hchooses.imp fun l hl => ?_)
    obtain ⟨o, r, rfl, _, ho⟩ := hl
    exact Label.before_op ⟨rfl, rfl⟩ (Label.direct_op ho)
  have hchosen : chosen.now.procs alpha.id =
      some (p.at .detector heard ⟨.choosing [], .ret (some peer, [])⟩) := by
    rw [hnow₂, Cluster.procs_duo_alpha]
  have hends := exists_finish (p.at .detector heard (Task.start alpha (.probing peer)))
    ⟨.empty, rfl, hbefore₂.later⟩ hchosen rfl fun _ => by
      simp [Process.finish, Process.at, Process.set, hp, Process.new]
  refine ⟨_, n, task, task', hbefore₂.push ⟨hends, ⟨rfl, by simp⟩, by simp⟩, ?_⟩
  rw [History.now_push, hnow₂, Cluster.put_duo_alpha, Cluster.net_duo]

/-- When it has drawn a number, when it has asked under it, and when it has been answered. -/
def drawn : Shared := { heard with pending := PendingAcks.new.fetchSeq.2 }

/-- The probe waits under the number 0. -/
def asking : Shared := { drawn with pending := (drawn.pending.register 0 beta.id).2 }

/-- The ack has come in. -/
def answered : Shared := { asking with pending := asking.pending.resolve 0 beta.id }

/-- The ping, with nothing to gossip. -/
def question : UdpBody := .ping 0 (alpha.identity Guarded.new.current) []

/-- The ack to the ping. -/
def answer : UdpBody := .ack 0 (beta.identity Guarded.new.current) []

lemma take_new : GossipQueue.new.take = ([], []) := by
  simp [GossipQueue.take, GossipQueue.freshestFirst, GossipQueue.new]

lemma waiting_asking : asking.pending.waiting 0 = some (beta.id, 0) := by
  show (drawn.pending.register 0 beta.id).2.waiting 0 = _
  simp only [PendingAcks.register, Function.update_self]
  rfl

lemma mem_sent_answered : 0 ∈ answered.pending.sent := by
  show 0 ∈ (asking.pending.resolve 0 beta.id).sent
  unfold PendingAcks.resolve
  rw [waiting_asking]
  simp

/-- The rest of a probe whose ping has been sent. -/
def awaiting (deadline : Instant) : Prog Bool := do
  let acked ← Op.call (.acked 0 deadline)
  Op.call (.forget 0)
  if acked then pure true
  else do
    let relays ← Op.call (.relayCandidates peer.id INDIRECT_PROBES)
    if relays.isEmpty then pure false
    else do
      let seq ← Op.call .fetchSeq
      pingReq alpha peer.id relays seq

/-- From drawing the number to waiting for the answer. -/
lemma path_asking : Program.Path
    (fun o w r w' => Op.Run alpha 0 o w r w' ∧ o.posts (some (beta.addr, question)) r)
    (fun o => ¬ o.awaits = true)
    (do
      if ← ping alpha peer.id peer.addr 0 then pure true
      else do
        let relays ← Op.call (.relayCandidates peer.id INDIRECT_PROBES)
        if relays.isEmpty then pure false
        else do
          let seq ← Op.call .fetchSeq
          pingReq alpha peer.id relays seq) ⟨drawn, []⟩
    (awaiting (0 + PROBE_TIMEOUT)) ⟨asking, [.udp alpha.addr beta.addr question]⟩ := by
  refine .step (o := Op.register 0 peer.id) (r := 0) (by simp [Op.awaits]) ⟨⟨rfl, rfl⟩, trivial⟩ <|
    .step (o := Op.current) (r := Guarded.new.current) (by simp [Op.awaits])
      ⟨⟨rfl, rfl⟩, trivial⟩ <|
    .step (o := Op.take) (r := []) (by simp [Op.awaits]) (t := ⟨asking, []⟩) ⟨⟨?_, ?_⟩, trivial⟩ <|
    .step (o := Op.sendUdp peer.addr question) (r := true) (by simp [Op.awaits])
      ⟨rfl, rfl, rfl⟩ <|
    .step (o := Op.now) (r := 0) (by simp [Op.awaits]) ⟨⟨rfl, rfl⟩, trivial⟩ <|
    .refl _ _
  · show [] = GossipQueue.new.take.1
    rw [take_new]
  · show _ = World.mk { asking with queue := GossipQueue.new.take.2 } []
    rw [take_new]
    rfl

/-- The second handles the ping and answers. -/
lemma path_answering : Program.Path
    (fun o w r w' => Op.Run beta 0 o w r w' ∧ o.posts (some (alpha.addr, answer)) r)
    (fun o => ¬ o.awaits = true) (handleDatagram beta alpha.addr question)
    ⟨{ Shared.new with conns := 1 }, []⟩ (.ret none)
    ⟨{ Shared.new with conns := 1 }, [.udp beta.addr alpha.addr answer]⟩ := by
  refine .step (o := Op.current) (r := Guarded.new.current) (by simp [Op.awaits])
      ⟨⟨rfl, rfl⟩, trivial⟩ <|
    .step (o := Op.take) (r := []) (by simp [Op.awaits])
      (t := ⟨{ Shared.new with conns := 1 }, []⟩) ⟨⟨?_, ?_⟩, trivial⟩ <|
    .step (o := Op.sendUdp alpha.addr answer) (r := true) (by simp [Op.awaits])
      ⟨rfl, rfl, rfl⟩ <|
    .refl _ _
  · show [] = GossipQueue.new.take.1
    rw [take_new]
  · show _ = World.mk { Shared.new with conns := 1, queue := GossipQueue.new.take.2 } []
    rw [take_new]
    rfl

/-- The first handles the ack. -/
lemma path_answered : Program.Path
    (fun o w r w' => Op.Run alpha 0 o w r w' ∧ o.posts none r)
    (fun o => ¬ o.awaits = true) (handleDatagram alpha beta.addr answer) ⟨asking, []⟩ (.ret none)
    ⟨answered, []⟩ :=
  .step (o := Op.resolve 0 beta.id) (r := ()) (by simp [Op.awaits]) ⟨rfl, trivial⟩ (.refl _ _)

/-- A datagram is received, handled without sending anything but `letter`, and done with. -/
def Handles (r : NodeId) (src : SocketAddr) (body : UdpBody)
    (letter : Option (SocketAddr × UdpBody)) (h h' : Trace) : Prop :=
  ∃ c h₁ c', Step h.now (.receive r src body) c ∧
    LaterBy (Label.does r .udp (.datagram src body) letter) (h.push (.receive r src body) c) h₁ ∧
    Step h₁.now (.finish r .udp (.datagram src body) none) c' ∧
    h' = h₁.push (.finish r .udp (.datagram src body) none) c'

lemma Handles.during {r : NodeId} {src : SocketAddr} {body : UdpBody}
    {letter : Option (SocketAddr × UdpBody)} (hhandles : Handles r src body letter h h')
    (hbody : ∀ seq sender target gossip, body ≠ .pingReq seq sender target gossip) :
    LaterBy (fun l => l.during ∧ l.posts r letter) h h' := by
  obtain ⟨c, h₁, c', hreceive, hdoes, hends, rfl⟩ := hhandles
  have hreceived : Label.during (.receive r src body) := by
    refine ⟨⟨rfl, ?_⟩, not_false⟩
    rintro R src' seq sender target gossip heq
    injection heq with _ _ heq
    exact hbody _ _ _ _ heq
  have hended : Label.during (.finish r .udp (.datagram src body) none) :=
    ⟨⟨rfl, by simp⟩, fun hl => absurd hl.2 (by simp)⟩
  refine ((History.Extends.single ⟨hreceive, hreceived, trivial⟩).trans ?_).push
    ⟨hends, hended, trivial⟩
  exact hdoes.imp fun l hl => ⟨hl.during, hl.posts⟩

/-- The first of two nodes has probed the second, and was answered: it drew a number at `h₀` and had
asked at `asked`, the second was done with the question at `posed` and the first with the answer at
`heard`, and at `found` the probe returns. -/
structure Probed (h₀ asked posed heard found : Trace) (c c' : Cluster) (p p' : Process) : Prop where
  before : LaterBy Label.before (.init .empty) h₀
  draw : Step h₀.now (.op alpha.id .detector (.probing peer) .fetchSeq 0) c
  asks : LaterBy (Label.does alpha.id .detector (.probing peer) (some (beta.addr, question)))
    (h₀.push (.op alpha.id .detector (.probing peer) .fetchSeq 0) c) asked
  sent : .udp alpha.addr beta.addr question ∈ asked.now.net
  poses : Handles beta.id alpha.addr question (some (alpha.addr, answer)) asked posed
  replied : .udp beta.addr alpha.addr answer ∈ posed.now.net
  hears : Handles alpha.id beta.addr answer none posed heard
  finds : LaterBy (fun l => l.during ∧ l.posts alpha.id none) heard found
  ends : Step found.now (.finish alpha.id .detector (.probing peer) true) c'
  now : found.now = .duo p p' []
  node : p.node = alpha
  node' : p'.node = beta
  guarded : p.shared.guarded = .new
  guarded' : p'.shared.guarded = .new
  running' : p'.stopped = false
  holds : peer ∈ p.shared.table.members

lemma Probed.during {asked posed heard found : Trace} {c c' : Cluster} {p p' : Process}
    (hprobed : Probed h₀ asked posed heard found c c' p p') :
    LaterBy Label.during (h₀.push (.op alpha.id .detector (.probing peer) .fetchSeq 0) c) found := by
  have hposes := hprobed.poses.during (by simp [question])
  have hhears := hprobed.hears.during (by simp [answer])
  exact (((hprobed.asks.imp fun _ => Label.does.during).trans (hposes.imp fun _ hl => hl.1)).trans
    (hhears.imp fun _ hl => hl.1)).trans (hprobed.finds.imp fun _ hl => hl.1)

/-- The probe can get as far as waiting for an answer to its ping. -/
lemma exists_asked : ∃ (h₀ h : Trace) (c : Cluster) (n : ℕ) (task task' : Task),
    LaterBy Label.before (.init .empty) h₀ ∧
    Step h₀.now (.op alpha.id .detector (.probing peer) .fetchSeq 0) c ∧
    LaterBy (Label.does alpha.id .detector (.probing peer) (some (beta.addr, question)))
      (h₀.push (.op alpha.id .detector (.probing peer) .fetchSeq 0) c) h ∧
    h.now = .duo (((Process.new alpha []).at (.spawned n) heard task).at .detector asking
        ⟨.probing peer, awaiting (0 + PROBE_TIMEOUT)⟩)
      ((Process.new beta [alpha.addr]).at .main { Shared.new with conns := 1 } task')
      [.udp alpha.addr beta.addr question] := by
  obtain ⟨h₀, n, task, task', hbefore, hnow₀⟩ := exists_probing
  set p := (Process.new alpha []).at (.spawned n) heard task
  have halpha₀ : h₀.now.procs alpha.id =
      some (p.at .detector heard (Task.start alpha (.probing peer))) := by
    rw [hnow₀, Cluster.procs_duo_alpha]
  have hdraws : Step h₀.now (.op alpha.id .detector (.probing peer) .fetchSeq 0)
      (h₀.now.put alpha.id (p.at .detector drawn ⟨.probing peer, _⟩) []) :=
    Step.op_of_put (Cluster.put_self halpha₀).symm rfl ⟨rfl, by rw [hnow₀]; rfl⟩
  rw [hnow₀, Cluster.put_duo_alpha, ← hnow₀] at hdraws
  generalize hnow₁ : Cluster.duo _ _ [] = c at hdraws
  obtain ⟨h, hasks, hnow⟩ := exists_works_alpha
    (h := h₀.push (.op alpha.id .detector (.probing peer) .fetchSeq 0) c) hnow₁.symm rfl
    (Process.tasks_at ..) path_asking
  rw [Process.at_at] at hnow
  exact ⟨h₀, h, c, n, task, task', hbefore, hdraws, hasks, hnow⟩

/-- The question reaches the second node. -/
lemma exists_posed {p : Process} {task : Task} (hrun : Run h)
    (hnow : h.now = .duo p
      ((Process.new beta [alpha.addr]).at .main { Shared.new with conns := 1 } task)
      [.udp alpha.addr beta.addr question]) :
    ∃ h', Handles beta.id alpha.addr question (some (alpha.addr, answer)) h h' ∧
      h'.now = .duo p ((Process.new beta [alpha.addr]).at .main { Shared.new with conns := 1 } task)
        [.udp beta.addr alpha.addr answer] := by
  set p' := (Process.new beta [alpha.addr]).at .main { Shared.new with conns := 1 } task with hp'
  have hidle : p'.tasks .udp = none := by simp [hp', Process.at, Process.tasks_set, Process.new]
  have hreceives := exists_receive [] (by rw [hnow, Cluster.procs_duo_beta]) rfl rfl hidle
    (by rw [hnow]; rfl)
  rw [hnow, Cluster.put_duo_beta, ← hnow] at hreceives
  generalize hnow₁ : Cluster.duo _ _ [] = c₁ at hreceives
  obtain ⟨h₂, hanswers, hnow₂⟩ := exists_works_beta
    (h := h.push (.receive beta.id alpha.addr question) c₁) hnow₁.symm rfl
    (Process.tasks_at ..) path_answering
  rw [Process.at_at] at hnow₂
  have hrun₂ : Run h₂ := (hrun.push hreceives).extends hanswers.later
  have hends := exists_finish p' hrun₂ (by rw [hnow₂, Cluster.procs_duo_beta]) rfl fun _ => by
    simp [Process.finish, Process.at, Process.set, ← hidle, hp']
  refine ⟨_, ⟨c₁, h₂, _, hreceives, hanswers, hends, rfl⟩, ?_⟩
  rw [History.now_push, hnow₂, Cluster.put_duo_beta, Cluster.net_duo]

/-- The answer reaches the first, which hands it to the probe. -/
lemma exists_heard {p p' : Process} (hrun : Run h)
    (hnow : h.now = .duo p p' [.udp beta.addr alpha.addr answer]) (hnode : p.node = alpha)
    (hrunning : p.stopped = false) (hloops : p.aborted = false) (hidle : p.tasks .udp = none)
    (hshared : p.shared = asking) :
    ∃ h', Handles alpha.id beta.addr answer none h h' ∧
      h'.now = .duo { p with shared := answered } p' [] := by
  have hhears := exists_receive [] (by rw [hnow, Cluster.procs_duo_alpha]) hrunning hloops hidle
    (by rw [hnow, hnode]; rfl)
  rw [hnow, Cluster.put_duo_alpha, ← hnow, hshared] at hhears
  generalize hnow₁ : Cluster.duo _ _ [] = c₁ at hhears
  obtain ⟨h₂, hresolves, hnow₂⟩ := exists_works_alpha
    (h := h.push (.receive alpha.id beta.addr answer) c₁) hnow₁.symm hrunning
    (Process.tasks_at ..) (by
      show Program.Path (fun o w r w' => Op.Run p.node 0 o w r w' ∧ o.posts none r) _
        (handleDatagram p.node beta.addr answer) ⟨asking, []⟩ _ _
      rw [hnode]
      exact path_answered)
  rw [Process.at_at] at hnow₂
  have hrun₂ : Run h₂ := (hrun.push hhears).extends hresolves.later
  have hends := exists_finish { p with shared := answered } hrun₂
    (by rw [hnow₂, Cluster.procs_duo_alpha]) hrunning fun _ => by
      simp [Process.finish, Process.at, Process.set, ← hidle]
  refine ⟨_, ⟨c₁, h₂, _, hhears, hresolves, hends, rfl⟩, ?_⟩
  rw [History.now_push, hnow₂, Cluster.put_duo_alpha, Cluster.net_duo]

/-- A probe that has been answered finds that out. -/
lemma exists_found {p p' : Process} {deadline : Instant} (hrunning : p.stopped = false)
    (hshared : p.shared = answered)
    (htask : p.tasks .detector = some ⟨.probing peer, awaiting deadline⟩)
    (hnow : h.now = .duo p p' []) :
    ∃ (h' : Trace) (last : Shared), LaterBy (fun l => l.during ∧ l.posts alpha.id none) h h' ∧
      h'.now = .duo (p.at .detector last ⟨.probing peer, .ret true⟩) p' [] ∧
      last.guarded = .new ∧ last.table = heard.table := by
  have halpha : h.now.procs alpha.id = some p := by rw [hnow, Cluster.procs_duo_alpha]
  have hacked : Step h.now (.op alpha.id .detector (.probing peer) (.acked 0 deadline) true)
      (h.now.put alpha.id (p.at .detector answered ⟨.probing peer, _⟩) []) :=
    .op h.now alpha.id p .detector (.probing peer) _ _ true answered [] halpha hrunning htask
      ⟨by rw [hshared]; exact mem_sent_answered, by rw [hnow, hshared]; rfl⟩
  rw [hnow, Cluster.put_duo_alpha, ← hnow] at hacked
  generalize hnow₁ : Cluster.duo _ _ [] = c₁ at hacked
  have hpath : Program.Path (fun o w r w' => Op.Run p.node 0 o w r w' ∧ o.posts none r)
      (fun o => ¬ o.awaits = true) (do Op.call (.forget 0); pure true) ⟨answered, []⟩ (.ret true)
      ⟨{ answered with pending := answered.pending.forget 0 }, []⟩ :=
    .step (o := Op.forget 0) (r := ()) (by simp [Op.awaits]) ⟨rfl, trivial⟩ (.refl _ _)
  obtain ⟨h', hforgets, hnow'⟩ := exists_works_alpha
    (h := h.push (.op alpha.id .detector (.probing peer) (.acked 0 deadline) true) c₁)
    hnow₁.symm hrunning (Process.tasks_at ..) hpath
  rw [Process.at_at] at hnow'
  refine ⟨h', _, ?_, hnow', rfl, rfl⟩
  refine (History.Extends.single ⟨hacked, ⟨Label.direct_op (by simp), not_false⟩, rfl, trivial⟩).trans
    ?_
  exact hforgets.imp fun l (hl : l.does _ _ _ _) => ⟨hl.during, hl.posts⟩

/-- A probe of one of two nodes by the other can be answered. -/
lemma exists_probed : ∃ (h₀ asked posed heard found : Trace) (c c' : Cluster) (p p' : Process),
    Probed h₀ asked posed heard found c c' p p' := by
  obtain ⟨h₀, asked, c, n, task, task', hbefore, hdraws, hasks, hnow₁⟩ := exists_asked
  have hrun₁ : Run asked := ⟨.empty, rfl, (hbefore.later.push hdraws).trans hasks.later⟩
  obtain ⟨posed, hposes, hnow₂⟩ := exists_posed hrun₁ hnow₁
  have hrun₂ : Run posed := hrun₁.extends (hposes.during (by simp [question])).later
  obtain ⟨heard, hhears, hnow₃⟩ := exists_heard hrun₂ hnow₂ rfl rfl rfl
    (by simp [Process.at, Process.tasks_set, Process.new]) rfl
  have hrun₃ : Run heard := hrun₂.extends (hhears.during (by simp [answer])).later
  obtain ⟨found, last, hfinds, hnow₄, hguarded, htable⟩ := exists_found (by rfl) (by rfl)
    (by simp [Process.at, Process.tasks_set]; rfl) hnow₃
  have hends := exists_finish _ (hrun₃.extends hfinds.later)
    (by rw [hnow₄, Cluster.procs_duo_alpha]) rfl fun _ => rfl
  refine ⟨h₀, asked, posed, heard, found, c, _, _, _, hbefore, hdraws, hasks, by rw [hnow₁]; simp,
    hposes, by rw [hnow₂]; simp, hhears, hfinds, hends, hnow₄, rfl, rfl, hguarded, rfl, rfl,
    show peer ∈ last.table.members from ?_⟩
  rw [htable, members_heard]
  exact List.mem_singleton_self peer

/-- The first of two nodes is known by its address, having drawn one number. -/
lemma Probed.identified {asked posed heard found : Trace} {c c' : Cluster} {p p' : Process}
    (hprobed : Probed h₀ asked posed heard found c c' p p') : Identified alpha.id found where
  sole := by
    intro q p₁ p₁' hp₁ hp₁' haddr
    rw [hprobed.now] at hp₁ hp₁'
    obtain rfl : p = p₁ := Option.some.inj (Cluster.procs_duo_alpha.symm.trans hp₁)
    rcases Cluster.eq_or_eq_of_duo hp₁' with ⟨halpha, _⟩ | ⟨_, rfl⟩
    · exact halpha
    · rw [hprobed.node, hprobed.node'] at haddr
      exact absurd haddr (by decide)
  draws := by
    have hdrawn := LaterBy.draws_eq (hprobed.during.imp fun _ hl => hl.1.1)
    have hnone := LaterBy.draws_eq (hprobed.before.imp fun _ hl => hl.1.1)
    rw [hdrawn, draws_push, hnone]
    decide

/-- A probe of one's own is the detector's. -/
lemma Slot.Runs.eq_detector {target : Member} (hruns : slot.Runs (.probing target)) :
    slot = .detector := by
  cases slot with
  | detector => rfl
  | _ => exact hruns.elim

/-- With two nodes all of that can happen: a probe of one by the other is answered, and leaves
nothing waiting. -/
theorem probe_evidence_pair : ∃ (h : Trace) (c : Cluster) (p : Process),
    Run h ∧ Step h.now (.finish alpha.id .detector (.probing peer) true) c ∧
    (∃ h₀, Since alpha.id .detector (.probing peer) h₀ h ∧
      (Pinged h₀ alpha.id .detector (.probing peer) peer.id h ∨
        Relayed h₀ alpha.id .detector (.probing peer) peer.id h)) ∧
    c.procs alpha.id = some p ∧ ∀ seq, p.shared.pending.waiting seq = none := by
  obtain ⟨h₀, _, _, _, h, c, c', p, p', hprobed⟩ := exists_probed
  have hbefore := hprobed.before
  have hdraws := hprobed.draw
  have hduring := hprobed.during
  have hends := hprobed.ends
  have hlater₀ : Later h₀ h := (History.Extends.single hdraws).trans hduring.later
  have hrun₀ : Run h₀ := ⟨.empty, rfl, hbefore.later⟩
  have hrun : Run h := hrun₀.extends hlater₀
  have hp : h.now.procs alpha.id = some p := by
    rw [hprobed.now, Cluster.procs_duo_alpha]
  -- nobody was asked to relay a probe
  have hdirect : LaterBy (fun l => ∀ R src seq sender target gossip,
      l ≠ .receive R src (.pingReq seq sender target gossip)) (.init .empty) h := by
    have hbefore' := (hbefore.imp fun _ hl => hl.1.2).push ⟨hdraws, by simp⟩
    exact hbefore'.trans (hduring.imp fun _ hl => hl.1.2)
  have hnobody : ∀ {R src seq sender target gossip h₁},
      ¬ Happened (.receive R src (.pingReq seq sender target gossip)) h₁ h := by
    intro R src seq sender target gossip h₁ hreceived
    exact hreceived.took.allowed hdirect (Nat.zero_le _) _ _ _ _ _ _ rfl
  have hanswered := (probe_evidence hrun hp).1 .detector peer c' hends
    hprobed.identified
    fun R seq sender gossip h₁ hreceived => absurd hreceived hnobody
  -- every number waited for was registered by this probe, which returns
  have hrun' : Run (h.push (.finish alpha.id .detector (.probing peer) true) c') := hrun.push hends
  obtain ⟨p₁, hp₁, _⟩ := hends.exists_evolves hp
  refine ⟨h, c', p₁, hrun, hends, hanswered, hp₁, (probe_evidence hrun' hp₁).2 ?_⟩
  intro slot kind seq subject channel h₁ hreg
  have hprobes := hreg.probes
  obtain ⟨hT, hsince, _, horigin⟩ := hreg.conduct
  have hreg : Happened (.op alpha.id slot kind (.register seq subject) channel) h₁ h := by
    rcases hreg.of_push with ⟨_, hlabel⟩ | hreg
    · exact absurd hlabel (by simp)
    · exact hreg
  have hlater₁ : Later h₁ h := hreg.before
  have hslot : slot = .detector := by
    obtain ⟨hrun₁, s, hstep, _⟩ := id hreg
    obtain ⟨p₂, _, _, _, hp₂, halive₂, htask₂, _⟩ := hstep.of_op
    have hruns := hrun₁.slots hp₂ halive₂ htask₂
    cases kind with
    | probing target => exact hruns.eq_detector
    | relay relay =>
      obtain ⟨_, _, hT₁, _, hreceived, _⟩ := horigin
      exact absurd (hreceived.later (hsince.later.later.trans hlater₁)) hnobody
    | _ => exact hprobes.elim
  subst hslot
  have hlen : h₀.past.length ≤ h₁.past.length := by
    by_contra hlt
    have hl := (hreg.took.of_length_lt hlater₀ (by omega)).allowed hbefore (Nat.zero_le _)
    have haside := hl.2 _ _ _ _ _ rfl
    cases kind with
    | probing | relay => exact absurd haside.2 (by simp [Kind.counts])
    | _ => exact hprobes
  have hgoes : LaterBy (fun l => ¬ l.ends alpha.id .detector) h₀ h :=
    (History.Extends.single ⟨hdraws, not_false⟩).trans (hduring.imp fun _ hl => hl.2)
  exact ⟨h, .probing peer, true, hgoes.suffix hlater₁ hlen, .of_step hrun hends⟩

end Dalila
