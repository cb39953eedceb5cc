import Dalila.Conduct

/-!
# Where messages and answers come from

`Received` and `Origin` trace every task that handles a datagram back to the datagram, and every
datagram to the step that sent it. The file also proves that a process gives each probe a number of
its own, and that what arrives on a probe's channel is the answer to that number.
-/

namespace Dalila

open Program

variable {h h₁ h₂ : Trace} {q : NodeId} {p : Process} {slot slot' : Slot} {kind kind' : Kind}
  {seq seq' : UInt32} {subject subject' : NodeId} {channel : Channel}

/-! ## Messages -/

/-- A property of runs, for every run: it holds of the empty one, and every step keeps it. -/
lemma Run.induct {P : Trace → Prop} (hrun : Run h) (hempty : P (.init .empty))
    (hstep : ∀ h l c, Run h → P h → Step h.now l c → P (h.push l c)) : P h := by
  refine History.IsRun.induction hrun ?_ hstep
  rintro c rfl
  exact hempty

/-- A datagram in flight was sent from the address of its sender. -/
lemma Run.sent (hrun : Run h) {src dst : SocketAddr} {body : UdpBody}
    (hnet : .udp src dst body ∈ h.now.net) :
    ∃ q slot kind h₁ p, Happened (.op q slot kind (.sendUdp dst body) true) h₁ h ∧
      h.now.procs q = some p ∧ p.node.addr = src := by
  revert hnet
  refine hrun.induct (P := fun h => .udp src dst body ∈ h.now.net → ∃ q slot kind h₁ p,
    Happened (.op q slot kind (.sendUdp dst body) true) h₁ h ∧
      h.now.procs q = some p ∧ p.node.addr = src) ?_ ?_
  · exact fun hnet => absurd hnet (by simp [History.init, Cluster.empty])
  · intro h l c hrun ih hstep hnet
    rcases hstep.mem_net hnet with hold | ⟨conn, _, hpacket, _⟩ |
      ⟨q, p, slot, kind, o, next, r, hp, _, _, rfl, hsends⟩
    · obtain ⟨q, slot, kind, h₁, p, hsent, hp, haddr⟩ := ih hold
      obtain ⟨p', hp', hgrows⟩ := Later.exists_grows (.single hstep) hp
      refine ⟨q, slot, kind, h₁, p', hsent.later (.single hstep), hp', ?_⟩
      rw [hgrows.node]
      exact haddr
    · exact absurd hpacket (by simp)
    · obtain ⟨p', hp', hgrows⟩ := Later.exists_grows (.single hstep) hp
      cases o with
      | sendUdp target body' =>
        cases r with
        | false => exact absurd hsends (by simp [Op.sends])
        | true =>
          have hpacket := Option.some.inj hsends
          injection hpacket with haddr hdst hbody
          subst hdst hbody
          refine ⟨q, slot, kind, h, p', .of_step hrun hstep, hp', ?_⟩
          rw [hgrows.node]
          exact haddr
      | writeRequest conn body' => cases r <;> simp [Op.sends] at hsends
      | writeResponse conn body' => cases r <;> simp [Op.sends] at hsends
      | _ => simp [Op.sends] at hsends

/-- `q` received this datagram. -/
def Received (q : NodeId) (src : SocketAddr) (body : UdpBody) (h : Trace) : Prop :=
  ∃ h₁ p, Happened (.receive q src body) h₁ h ∧ h₁.now.procs q = some p ∧
    .udp src p.node.addr body ∈ h₁.now.net

lemma Received.later {h' : Trace} {src : SocketAddr} {body : UdpBody}
    (hrec : Received q src body h) (hlater : Later h h') : Received q src body h' := by
  obtain ⟨h₁, p, hl, hp, hnet⟩ := hrec
  exact ⟨h₁, p, hl.later hlater, hp, hnet⟩

/-- What a task of this kind was started for. -/
def Origin (q : NodeId) : Kind → Trace → Prop
  | .datagram src body, h => Received q src body h
  | .relay (seq, target, asker), h =>
    ∃ sender gossip, Received q asker (.pingReq seq sender target gossip) h
  | _, _ => True

lemma Origin.later {h' : Trace} (horigin : Origin q kind h) (hlater : Later h h') :
    Origin q kind h' := by
  cases kind with
  | datagram src body => exact Received.later horigin hlater
  | relay relay =>
    obtain ⟨sender, gossip, hrec⟩ := horigin
    exact ⟨sender, gossip, hrec.later hlater⟩
  | _ => trivial

/-- Every task that handles a datagram received it, and every task that relays a probe was
asked to. -/
lemma Run.origin (hrun : Run h) (hp : h.now.procs q = some p) (halive : p.stopped = false)
    {task : Task} (htask : p.tasks slot = some task) : Origin q task.kind h := by
  have hall : ∀ q p slot task, h.now.procs q = some p → p.stopped = false →
      p.tasks slot = some task → Origin q task.kind h := by
    refine hrun.induct (P := fun h => ∀ q p slot task, h.now.procs q = some p →
      p.stopped = false → p.tasks slot = some task → Origin q task.kind h) ?_ ?_
    · exact fun q p slot task hp => absurd hp (by simp [History.init, Cluster.empty])
    · intro h l c hrun ih hstep q p' slot task hp' halive htask
      have hlater : Later h (h.push l c) := .single hstep
      cases Task.arises hstep hp' halive htask with
      | kept p _ hp halive htask₀ => exact (ih q p slot task hp halive htask₀).later hlater
      | moved p kind o next r net hp halive htask₀ =>
        exact (ih q p slot _ hp halive htask₀).later hlater
      | followed p slot₀ kind₀ out free kind hp halive htask₀ hl hnext =>
        cases hnext with
        | relay src body relay =>
          obtain ⟨seq, target, asker⟩ := relay
          obtain ⟨h₀, _, hkeeps⟩ := hrun.conduct hp halive htask₀
          obtain ⟨rfl, sender, gossip, rfl⟩ := hkeeps.result seq target asker rfl
          exact ⟨sender, gossip, Received.later (ih q p slot₀ _ hp halive htask₀) hlater⟩
        | _ => trivial
      | begun p kind hp halive haborted hl hbegins => cases hbegins <;> trivial
      | received p src body hp halive hslot hl hnet =>
        subst hl
        exact ⟨h, p, .of_step hrun hstep, hp, hnet⟩
      | accepted | joining => trivial
  exact hall q p slot task hp halive htask

/-! ## Numbers -/

/-- The operation draws a number. -/
def Label.draws (q : NodeId) : Label → Bool
  | .op q' _ _ .fetchSeq _ => q' = q
  | _ => false

/-- How many numbers a node has drawn. -/
def draws (q : NodeId) (h : Trace) : ℕ :=
  h.past.countP fun m => m.label.draws q

lemma draws_push (l : Label) (c : Cluster) :
    draws q (h.push l c) = draws q h + if l.draws q then 1 else 0 := by
  rw [draws, History.past_push, List.countP_cons]
  rfl

lemma Later.draws_le {h' : Trace} (hlater : Later h h') : draws q h ≤ draws q h' := by
  induction hlater with
  | refl => exact le_refl _
  | push _ _ ih =>
    rw [draws_push]
    omega

/-- What an operation leaves of the probes in flight. -/
def Op.pendingAfter : Op → PendingAcks → PendingAcks
  | .fetchSeq, pending => pending.fetchSeq.2
  | .register seq subject, pending => (pending.register seq subject).2
  | .forget seq, pending => pending.forget seq
  | .resolve seq subject, pending => pending.resolve seq subject
  | _, pending => pending

lemma Op.Run.pending {node : LocalNode} {now : Instant} {o : Op} {w w' : World} {r : o.Res}
    (hop : o.Run node now w r w') : w'.shared.pending = o.pendingAfter w.shared.pending := by
  cases o <;> simp only [Op.Run, pendingAfter] at hop ⊢ <;> grind

lemma Op.nextSeq_pendingAfter {o : Op} (ho : o ≠ .fetchSeq) (pending : PendingAcks) :
    (o.pendingAfter pending).nextSeq = pending.nextSeq := by
  cases o with
  | fetchSeq => exact absurd rfl ho
  | resolve seq subject =>
    show (pending.resolve seq subject).nextSeq = pending.nextSeq
    unfold PendingAcks.resolve
    split
    · split_ifs <;> rfl
    · rfl
  | _ => rfl

/-- A node that draws a number is there. -/
lemma Step.of_draws {c c' : Cluster} {l : Label} (hstep : Step c l c') (hl : l.draws q = true) :
    ∃ p, c.procs q = some p ∧ ∀ p', c'.procs q = some p' →
      p'.shared.pending = p.shared.pending.fetchSeq.2 := by
  cases l with
  | op q' slot kind o r =>
    cases o with
    | fetchSeq =>
      have hq : q' = q := of_decide_eq_true hl
      subst hq
      obtain ⟨p, next, shared, net, hp, _, _, hop, rfl⟩ := hstep.of_op
      refine ⟨p, hp, fun p' hp' => ?_⟩
      have hafter : shared.pending = _ := hop.pending
      have hsame : _ = p' := Option.some.inj ((if_pos rfl).symm.trans hp')
      subst hsame
      exact hafter
    | _ => exact absurd hl (by simp [Label.draws])
  | _ => exact absurd hl (by simp [Label.draws])

/-- The next number is the number of those drawn. -/
lemma Run.nextSeq (hrun : Run h) :
    (∀ p, h.now.procs q = some p → p.shared.pending.nextSeq = UInt32.ofNat (draws q h)) ∧
      (h.now.procs q = none → draws q h = 0) := by
  refine hrun.induct (P := fun h =>
    (∀ p, h.now.procs q = some p → p.shared.pending.nextSeq = UInt32.ofNat (draws q h)) ∧
      (h.now.procs q = none → draws q h = 0)) ⟨?_, fun _ => rfl⟩ ?_
  · exact fun p hp => absurd hp (by simp [History.init, Cluster.empty])
  · intro h l c hrun ih hstep
    by_cases hl : l.draws q = true
    · obtain ⟨p, hp, hafter⟩ := hstep.of_draws hl
      refine ⟨fun p' hp' => ?_, fun hnone => ?_⟩
      · rw [hafter p' hp', draws_push, if_pos hl]
        show p.shared.pending.nextSeq + 1 = _
        rw [ih.1 p hp, UInt32.ofNat_add]
        rfl
      · obtain ⟨p', hp', _⟩ := hstep.exists_evolves hp
        exact absurd (hnone.symm.trans hp') (by simp)
    · have hsame : draws q (h.push l c) = draws q h := by rw [draws_push, if_neg hl]; rfl
      rw [hsame]
      refine ⟨fun p' hp' => ?_, fun hnone => ?_⟩
      · rcases hstep.proc_cases hp' with ⟨p, hp, hev⟩ | ⟨hnone, node, seeds, _, _, _, rfl⟩
        · rw [← ih.1 p hp]
          rcases hev.shared with hshared | ⟨slot, kind, o, r, net, rfl, hop⟩
          · rw [hshared]
          · have hafter : p'.shared.pending = _ := hop.pending
            have ho : o ≠ .fetchSeq := by
              rintro rfl
              exact hl (decide_eq_true rfl)
            rw [hafter, Op.nextSeq_pendingAfter ho]
        · rw [ih.2 hnone]
          rfl
      · refine ih.2 ?_
        cases hp : h.now.procs q with
        | none => rfl
        | some p =>
          obtain ⟨p', hp', _⟩ := hstep.exists_evolves hp
          exact absurd (hnone.symm.trans hp') (by simp)

/-- A node that has not drawn them all never draws a number twice. -/
lemma Happened.same_draw (hdraws : draws q h < 2 ^ 32)
    (hdraw : Happened (.op q slot kind .fetchSeq seq) h₁ h)
    (hdraw' : Happened (.op q slot' kind' .fetchSeq seq) h₂ h) :
    h₁ = h₂ ∧ slot = slot' ∧ kind = kind' := by
  -- the first of two draws gives less than the second
  have hlt : ∀ {h₁ h₂ : Trace} {slot slot' : Slot} {kind kind' : Kind},
      Happened (.op q slot kind .fetchSeq seq) h₁ h₂ →
      Happened (.op q slot' kind' .fetchSeq seq) h₂ h → False := by
    intro h₁ h₂ slot slot' kind kind' hfirst hsecond
    obtain ⟨hrun₁, c₁, hstep₁, hlater₁⟩ := hfirst
    obtain ⟨hrun₂, c₂, hstep₂, hlater₂⟩ := hsecond
    have hmine : (Label.op q slot kind .fetchSeq seq).draws q = true := decide_eq_true rfl
    have hmine' : (Label.op q slot' kind' .fetchSeq seq).draws q = true := decide_eq_true rfl
    obtain ⟨p₁, _, _, _, hp₁, _, _, hop₁, _⟩ := hstep₁.of_op
    obtain ⟨p₂, _, _, _, hp₂, _, _, hop₂, _⟩ := hstep₂.of_op
    have hseq₁ : seq = p₁.shared.pending.nextSeq := hop₁.1
    have hseq₂ : seq = p₂.shared.pending.nextSeq := hop₂.1
    have hnext₁ := hrun₁.nextSeq.1 p₁ hp₁
    have hnext₂ := hrun₂.nextSeq.1 p₂ hp₂
    have hcount₁ : draws q h₁ + 1 ≤ draws q h₂ := by
      have hle := hlater₁.draws_le (q := q)
      rwa [draws_push, if_pos hmine] at hle
    have hcount₂ : draws q h₂ + 1 ≤ draws q h := by
      have hle := hlater₂.draws_le (q := q)
      rwa [draws_push, if_pos hmine'] at hle
    have hsize : UInt32.size = 2 ^ 32 := rfl
    have hsame := congrArg UInt32.toNat (hnext₁.symm.trans (hseq₁.symm.trans (hseq₂.trans hnext₂)))
    rw [UInt32.toNat_ofNat_of_lt' (by omega), UInt32.toNat_ofNat_of_lt' (by omega)] at hsame
    omega
  rcases hdraw.total hdraw' with ⟨hsame, hlabel⟩ | hfirst | hfirst
  · injection hlabel with _ hslot hkind
    exact ⟨hsame, hslot, hkind⟩
  · exact absurd (hlt hfirst hdraw') id
  · exact absurd (hlt hfirst hdraw) id

/-! ## Channels -/

/-- A probe that waits was waiting before, or has just been registered. -/
lemma Op.waiting_pendingAfter {o : Op} {pending : PendingAcks} {x : NodeId × Channel}
    (hwait : (o.pendingAfter pending).waiting seq = some x) :
    pending.waiting seq = some x ∨
      ∃ subject, o = .register seq subject ∧ x = (subject, pending.opened) := by
  cases o with
  | register seq' subject =>
    have hwait : Function.update pending.waiting seq' (some (subject, pending.opened)) seq =
      some x := hwait
    rw [Function.update_apply] at hwait
    split_ifs at hwait with hseq
    · exact .inr ⟨subject, by rw [hseq], (Option.some.inj hwait).symm⟩
    · exact .inl hwait
  | forget seq' =>
    have hwait : Function.update pending.waiting seq' none seq = some x := hwait
    rw [Function.update_apply] at hwait
    split_ifs at hwait
    exact .inl hwait
  | resolve seq' subject =>
    have hwait : (pending.resolve seq' subject).waiting seq = some x := hwait
    unfold PendingAcks.resolve at hwait
    split at hwait
    · split_ifs at hwait
      · have hwait : Function.update pending.waiting seq' none seq = some x := hwait
        rw [Function.update_apply] at hwait
        split_ifs at hwait
        exact .inl hwait
      · exact .inl hwait
    · exact .inl hwait
  | _ => exact .inl hwait

/-- A value on a channel was there before, or has just answered the probe that waits for it. -/
lemma Op.sent_pendingAfter {o : Op} {pending : PendingAcks}
    (hsent : channel ∈ (o.pendingAfter pending).sent) :
    channel ∈ pending.sent ∨ ∃ seq subject, o = .resolve seq subject ∧
      pending.waiting seq = some (subject, channel) := by
  cases o with
  | resolve seq subject =>
    have hsent : channel ∈ (pending.resolve seq subject).sent := hsent
    unfold PendingAcks.resolve at hsent
    split at hsent
    · rename_i asked channel' hwait
      split_ifs at hsent with hasked
      · rcases List.mem_cons.mp hsent with rfl | hsent
        · exact .inr ⟨seq, subject, rfl, by rw [hwait, hasked]⟩
        · exact .inl hsent
      · exact .inl hsent
    · exact .inl hsent
  | _ => exact .inl hsent

lemma Op.opened_le_pendingAfter (o : Op) (pending : PendingAcks) :
    pending.opened ≤ (o.pendingAfter pending).opened := by
  cases o with
  | register seq subject => exact Nat.le_succ _
  | resolve seq subject =>
    show pending.opened ≤ (pending.resolve seq subject).opened
    unfold PendingAcks.resolve
    split
    · split_ifs <;> exact le_refl _
    · exact le_refl _
  | _ => exact le_refl _

/-- What a step makes of the probes in flight, one operation did. -/
lemma Step.pending {c c' : Cluster} {l : Label} (hstep : Step c l c') {p' : Process}
    (hp' : c'.procs q = some p') :
    (∃ p, c.procs q = some p ∧ (p'.shared.pending = p.shared.pending ∨
      ∃ slot kind o r w, l = .op q slot kind o r ∧
        o.Run p.node c.clock ⟨p.shared, c.net⟩ r w ∧
        p'.shared.pending = o.pendingAfter p.shared.pending)) ∨
      p'.shared.pending = .new := by
  rcases hstep.proc_cases hp' with ⟨p, hp, hev⟩ | ⟨_, node, seeds, _, _, _, rfl⟩
  · refine .inl ⟨p, hp, ?_⟩
    rcases hev.shared with hshared | ⟨slot, kind, o, r, net, hl, hop⟩
    · exact .inl (congrArg Shared.pending hshared)
    · exact .inr ⟨slot, kind, o, r, _, hl, hop, hop.pending⟩
  · exact .inr rfl

/-- A probe that waits was waiting before, or has been registered since. -/
lemma Later.registered (hrun : Run h₁) (hlater : Later h₁ h) (hp : h.now.procs q = some p)
    (hwait : p.shared.pending.waiting seq = some (subject, channel)) :
    (∃ p₁, h₁.now.procs q = some p₁ ∧
      p₁.shared.pending.waiting seq = some (subject, channel)) ∨
      ∃ slot kind h₂, Later h₁ h₂ ∧
        Happened (.op q slot kind (.register seq subject) channel) h₂ h := by
  induction hlater generalizing p with
  | refl => exact .inl ⟨p, hp, hwait⟩
  | @push h l c hext hstep ih =>
    have hrun' : Run h := hrun.extends hext
    have hold : ∀ p, h.now.procs q = some p →
        p.shared.pending.waiting seq = some (subject, channel) →
        (∃ p₁, h₁.now.procs q = some p₁ ∧
          p₁.shared.pending.waiting seq = some (subject, channel)) ∨
          ∃ slot kind h₂, Later h₁ h₂ ∧
            Happened (.op q slot kind (.register seq subject) channel) h₂ (h.push l c) := by
      intro p hp hwait
      refine (ih hp hwait).imp id ?_
      rintro ⟨slot, kind, h₂, hafter, hreg⟩
      exact ⟨slot, kind, h₂, hafter, hreg.later (.single hstep)⟩
    rcases hstep.pending hp with ⟨p₀, hp₀, hsame | ⟨slot, kind, o, r, w, rfl, hop, hafter⟩⟩ | hnew
    · rw [hsame] at hwait
      exact hold p₀ hp₀ hwait
    · rw [hafter] at hwait
      rcases Op.waiting_pendingAfter hwait with hwait | ⟨subject', rfl, heq⟩
      · exact hold p₀ hp₀ hwait
      · obtain ⟨rfl, hchannel⟩ := Prod.mk.inj heq
        have hr : r = p₀.shared.pending.opened := hop.1
        rw [hchannel, ← hr]
        exact .inr ⟨slot, kind, h, hext, .of_step hrun' hstep⟩
    · rw [hnew] at hwait
      exact absurd hwait (by simp [PendingAcks.new])

/-- Every probe that waits was registered. -/
lemma Run.registered (hrun : Run h) (hp : h.now.procs q = some p)
    (hwait : p.shared.pending.waiting seq = some (subject, channel)) :
    ∃ slot kind h₁, Happened (.op q slot kind (.register seq subject) channel) h₁ h := by
  obtain ⟨c, hc, hlater⟩ := hrun
  rcases Later.registered ⟨c, hc, .refl _⟩ hlater hp hwait with ⟨p₁, hp₁, _⟩ |
    ⟨slot, kind, h₁, _, hreg⟩
  · subst hc
    exact absurd hp₁ (by simp [History.init, Cluster.empty])
  · exact ⟨slot, kind, h₁, hreg⟩

/-- Whatever arrived on a channel was the answer to a probe that waited for it. -/
lemma Run.resolved (hrun : Run h) (hp : h.now.procs q = some p)
    (hsent : channel ∈ p.shared.pending.sent) :
    ∃ slot kind seq subject h₁ p₁,
      Happened (.op q slot kind (.resolve seq subject) ()) h₁ h ∧ h₁.now.procs q = some p₁ ∧
        p₁.shared.pending.waiting seq = some (subject, channel) := by
  have hall : ∀ p, h.now.procs q = some p → channel ∈ p.shared.pending.sent →
      ∃ slot kind seq subject h₁ p₁,
        Happened (.op q slot kind (.resolve seq subject) ()) h₁ h ∧ h₁.now.procs q = some p₁ ∧
          p₁.shared.pending.waiting seq = some (subject, channel) := by
    refine hrun.induct (P := fun h => ∀ p, h.now.procs q = some p →
      channel ∈ p.shared.pending.sent → ∃ slot kind seq subject h₁ p₁,
        Happened (.op q slot kind (.resolve seq subject) ()) h₁ h ∧ h₁.now.procs q = some p₁ ∧
          p₁.shared.pending.waiting seq = some (subject, channel)) ?_ ?_
    · exact fun p hp => absurd hp (by simp [History.init, Cluster.empty])
    · intro h l c hrun ih hstep p' hp' hsent
      have hold : ∀ p, h.now.procs q = some p → channel ∈ p.shared.pending.sent →
          ∃ slot kind seq subject h₁ p₁,
            Happened (.op q slot kind (.resolve seq subject) ()) h₁ (h.push l c) ∧
              h₁.now.procs q = some p₁ ∧
              p₁.shared.pending.waiting seq = some (subject, channel) := by
        intro p hp hsent
        obtain ⟨slot, kind, seq, subject, h₁, p₁, hres, hp₁, hwait⟩ := ih p hp hsent
        exact ⟨slot, kind, seq, subject, h₁, p₁, hres.later (.single hstep), hp₁, hwait⟩
      rcases hstep.pending hp' with ⟨p, hp, hsame | ⟨slot, kind, o, r, w, rfl, hop, hafter⟩⟩ | hnew
      · rw [hsame] at hsent
        exact hold p hp hsent
      · rw [hafter] at hsent
        rcases Op.sent_pendingAfter hsent with hsent | ⟨seq, subject, rfl, hwait⟩
        · exact hold p hp hsent
        · exact ⟨slot, kind, seq, subject, h, p, .of_step hrun hstep, hp, hwait⟩
      · rw [hnew] at hsent
        exact absurd hsent (by simp [PendingAcks.new])
  exact hall p hp hsent

lemma Later.opened_le {h' : Trace} {p' : Process} (hlater : Later h h')
    (hp : h.now.procs q = some p) (hp' : h'.now.procs q = some p') :
    p.shared.pending.opened ≤ p'.shared.pending.opened := by
  induction hlater generalizing p' with
  | refl =>
    obtain rfl : p = p' := Option.some.inj (hp.symm.trans hp')
    exact le_refl _
  | push hext hstep ih =>
    obtain ⟨p₁, hp₁, _⟩ := Later.exists_grows hext hp
    have hle := ih hp₁
    obtain ⟨p'', hp'', hev⟩ := hstep.exists_evolves hp₁
    obtain rfl : p'' = p' := Option.some.inj (hp''.symm.trans hp')
    rcases hev.shared with hshared | ⟨slot, kind, o, r, net, _, hop⟩
    · rw [hshared]
      exact hle
    · have hafter : p''.shared.pending = _ := hop.pending
      rw [hafter]
      exact hle.trans (o.opened_le_pendingAfter _)

/-- What registering a probe does. -/
lemma Happened.opens
    (hreg : Happened (.op q slot kind (.register seq subject) channel) h₁ h)
    (hp : h.now.procs q = some p) :
    (∃ p₁, h₁.now.procs q = some p₁ ∧ channel = p₁.shared.pending.opened) ∧
      channel < p.shared.pending.opened := by
  obtain ⟨_, c, hstep, hlater⟩ := hreg
  obtain ⟨p₁, next, shared, net, hp₁, _, _, hop, rfl⟩ := hstep.of_op
  have hchannel : channel = p₁.shared.pending.opened := hop.1
  refine ⟨⟨p₁, hp₁, hchannel⟩, ?_⟩
  have hafter : shared.pending = _ := hop.pending
  have hle := hlater.opened_le (if_pos rfl) hp
  have hle : shared.pending.opened ≤ p.shared.pending.opened := hle
  rw [hafter] at hle
  rw [hchannel]
  exact hle

/-- No channel is opened twice. -/
lemma Happened.same_channel
    (hreg : Happened (.op q slot kind (.register seq subject) channel) h₁ h)
    (hreg' : Happened (.op q slot' kind' (.register seq' subject') channel) h₂ h) :
    h₁ = h₂ ∧ slot = slot' ∧ kind = kind' ∧ seq = seq' ∧ subject = subject' := by
  have hlt : ∀ {h₁ h₂ h : Trace} {slot slot' : Slot} {kind kind' : Kind} {seq seq' : UInt32}
      {subject subject' : NodeId},
      Happened (.op q slot kind (.register seq subject) channel) h₁ h₂ →
      Happened (.op q slot' kind' (.register seq' subject') channel) h₂ h → False := by
    intro h₁ h₂ h slot slot' kind kind' seq seq' subject subject' hfirst hsecond
    obtain ⟨_, c, hstep, _⟩ := hsecond
    obtain ⟨p₂, _, _, _, hp₂, _, _, hop, _⟩ := hstep.of_op
    have hchannel : channel = p₂.shared.pending.opened := hop.1
    have hopened := (hfirst.opens hp₂).2
    exact absurd (hchannel ▸ hopened) (lt_irrefl _)
  rcases hreg.total hreg' with ⟨hsame, hlabel⟩ | hfirst | hfirst
  · injection hlabel with _ hslot hkind hop
    injection hop with hseq hsubject
    exact ⟨hsame, hslot, hkind, hseq, hsubject⟩
  · exact absurd (hlt hfirst hreg') id
  · exact absurd (hlt hfirst hreg) id

end Dalila
