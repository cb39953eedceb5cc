import Dalila.Vouching
import Dalila.Unanswered

/-!
# No false alarms in time

`InTime` says that datagrams are handled and aborted detectors dropped within a time `D`. The file
proves that if three times `D` is less than what a probe waits, no probe of a node that runs fails,
so nothing anywhere doubts a node that has not left or stopped (`no_false_alarm`).
-/

namespace Dalila

/-! ## On its way down -/

section

variable {h h' : Trace} {q : NodeId} {p p' : Process} {c c' : Cluster} {l : Label}

lemma Process.finish_aborted (p : Process) (slot : Slot) (free : ℕ) (kind : Kind)
    (out : kind.Out) :
    (p.finish slot free kind out).aborted = p.aborted ∨
      (p.finish slot free kind out).aborted = true ∧ kind = .leaving := by
  cases kind with
  | datagram src body => cases out <;> exact .inl rfl
  | join seeds => cases out <;> exact .inl rfl
  | choosing order =>
    obtain ⟨target, rest⟩ := out
    cases target <;> exact .inl rfl
  | leaving => exact .inr ⟨rfl, rfl⟩
  | _ => exact .inl rfl

/-- The loops are aborted by the return of `leave`, and stay so. -/
lemma Step.aborted (hstep : Step c l c') (hp : c.procs q = some p) (hp' : c'.procs q = some p') :
    p'.aborted = p.aborted ∨ p'.aborted = true ∧ c'.clock = c.clock ∧ p.stopped = false ∧
      ∃ slot, p.tasks slot = some ⟨.leaving, .ret ()⟩ := by
  by_cases hq : l.actor = some q
  · -- whatever a process does but return from a task leaves its loops as they are
    have hsame : ∀ {p₀ p₀' : Process}, c.procs q = some p₀ →
        (c.setProc q p₀').procs q = some p' → p₀'.aborted = p₀.aborted →
        p'.aborted = p.aborted := by
      intro p₀ p₀' hp₀ hset hkept
      rw [Cluster.eq_of_procs_setProc hset, hkept, Option.some.inj (hp.symm.trans hp₀)]
    cases hstep with
    | tick | lose | duplicate | query => exact absurd hq (by simp [Label.actor])
    | start node seeds hnew hmay =>
      obtain rfl := Option.some.inj hq
      exact absurd (hp.symm.trans hnew) (by simp)
    | finish q₀ p₀ slot kind out free hp₀ hrunning htask =>
      obtain rfl := Option.some.inj hq
      obtain rfl := Option.some.inj (hp.symm.trans hp₀)
      rw [Cluster.eq_of_procs_setProc hp']
      refine (p.finish_aborted slot free kind out).imp id ?_
      rintro ⟨haborted, rfl⟩
      exact ⟨haborted, rfl, hrunning, slot, htask⟩
    | begins q₀ p₀ slot kind hp₀ =>
      obtain rfl := Option.some.inj hq
      exact .inl (hsame hp₀ hp' rfl)
    | receive q₀ p₀ src body hp₀ =>
      obtain rfl := Option.some.inj hq
      exact .inl (hsame hp₀ hp' rfl)
    | accept q₀ p₀ n conn body hp₀ =>
      obtain rfl := Option.some.inj hq
      exact .inl (hsame hp₀ hp' rfl)
    | op q₀ p₀ slot kind o next r shared net hp₀ =>
      obtain rfl := Option.some.inj hq
      exact .inl (hsame hp₀ hp' rfl)
    | cancel q₀ p₀ slot hp₀ =>
      obtain rfl := Option.some.inj hq
      exact .inl (hsame hp₀ hp' rfl)
    | stop q₀ p₀ hp₀ =>
      obtain rfl := Option.some.inj hq
      exact .inl (hsame hp₀ hp' rfl)
  · rw [hstep.procs_eq hq] at hp'
    rw [Option.some.inj (hp.symm.trans hp')]
    exact .inl rfl

/-- Whoever's loops have been aborted has said that it leaves. -/
lemma Run.leaving_of_aborted (hrun : Run h) (hp : h.now.procs q = some p)
    (haborted : p.aborted = true) : p.shared.guarded.leaving = true := by
  have hall : ∀ p, h.now.procs q = some p → p.aborted = true →
      p.shared.guarded.leaving = true := by
    refine hrun.induct (P := fun h => ∀ p, h.now.procs q = some p → p.aborted = true →
      p.shared.guarded.leaving = true) ?_ ?_
    · exact fun p hp => absurd hp (by simp [History.init, Cluster.empty])
    · intro h l c hrun ih hstep p' hp' haborted
      rcases hstep.proc_cases hp' with ⟨p, hp, _⟩ | ⟨_, node, seeds, _, _, _, rfl⟩
      · have hleaving : p.shared.guarded.leaving = true := by
          rcases hstep.aborted hp hp' with hsame | ⟨_, _, hrunning, slot, htask⟩
          · exact ih p hp (hsame.symm.trans haborted)
          · rcases hrun.leaves hp hrunning htask with ⟨next, heq, _⟩ | ⟨_, hleaving⟩
            · exact absurd heq (by simp)
            · exact hleaving
        rw [(hstep.grows hp hp').leaving hleaving]
        exact hleaving
      · exact absurd haborted (by simp [Process.new])
  exact hall p hp haborted

/-- The step after `h₁` aborted the loops of `q`, on the way to `h`. -/
def Aborted (q : NodeId) (h₁ h : Trace) : Prop :=
  ∃ l c p₁ p₂, Run h₁ ∧ Step h₁.now l c ∧ Later (h₁.push l c) h ∧ h₁.now.procs q = some p₁ ∧
    p₁.aborted = false ∧ c.procs q = some p₂ ∧ p₂.aborted = true ∧ c.clock = h₁.now.clock

lemma Run.exists_aborted (hrun : Run h) (hp : h.now.procs q = some p)
    (haborted : p.aborted = true) : ∃ h₁, Aborted q h₁ h := by
  have hall : ∀ p, h.now.procs q = some p → p.aborted = true → ∃ h₁, Aborted q h₁ h := by
    refine hrun.induct (P := fun h => ∀ p, h.now.procs q = some p → p.aborted = true →
      ∃ h₁, Aborted q h₁ h) ?_ ?_
    · exact fun p hp => absurd hp (by simp [History.init, Cluster.empty])
    · intro h l c hrun ih hstep p' hp' haborted
      rcases hstep.proc_cases hp' with ⟨p, hp, _⟩ | ⟨_, node, seeds, _, _, _, rfl⟩
      · cases hbefore : p.aborted with
        | true =>
          obtain ⟨h₁, l₁, c₁, p₁, p₂, hrun₁, hstep₁, hlater, hrest⟩ := ih p hp hbefore
          exact ⟨h₁, l₁, c₁, p₁, p₂, hrun₁, hstep₁, hlater.trans (.single hstep), hrest⟩
        | false =>
          rcases hstep.aborted hp hp' with hsame | ⟨_, hclock, _⟩
          · exact absurd (hsame.symm.trans haborted) (by simp [hbefore])
          · exact ⟨h, l, c, p, p', hrun, hstep, .refl _, hp, hbefore, hp', haborted, hclock⟩
      · exact absurd haborted (by simp [Process.new])
  exact hall p hp haborted

end

/-! ## In time -/

/-- `r` has taken the datagram up after `h₁`, and was done with it by `deadline`. -/
def Handled (r : NodeId) (src : SocketAddr) (body : UdpBody) (deadline : Instant)
    (h₁ h : Trace) : Prop :=
  ∃ h₂ h₃ out, Later h₁ h₂ ∧ Since r .udp (.datagram src body) h₂ h₃ ∧
    Happened (.finish r .udp (.datagram src body) out) h₃ h ∧ h₃.now.clock ≤ deadline

/-- Up to now every datagram has gone out, everybody it was for has handled it within `D`, unless
it has gone down, and whoever went down has dropped its detector within `D`. -/
structure InTime (D : Instant) (h : Trace) : Prop where
  sent : ∀ q slot kind dst body h₁, ¬ Happened (.op q slot kind (.sendUdp dst body) false) h₁ h
  handled : ∀ q slot kind dst body h₁ p r s s',
    Happened (.op q slot kind (.sendUdp dst body) true) h₁ h → h₁.now.clock + D < h.now.clock →
    h₁.now.procs q = some p → h₁.now.procs r = some s → s.node.addr = dst →
    h.now.procs r = some s' → s'.stopped = false → s'.aborted = false →
    Handled r p.node.addr body (h₁.now.clock + D) h₁ h
  dropped : ∀ q h₁ p p', Later h₁ h → h₁.now.procs q = some p → p.aborted = true →
    h₁.now.clock + D < h.now.clock → h.now.procs q = some p' → p'.stopped = false →
    p'.tasks .detector = none

section

variable {D : Instant} {h h₀ h₁ h₂ : Trace} {q T : NodeId} {p s : Process} {slot : Slot}
  {kind : Kind} {seq : UInt32} {addr : SocketAddr}

/-- What a task has done by the time it returns. -/
lemma Since.tells {out : kind.Out} (hsince : Since q slot kind h₀ h₁)
    (hfinish : Happened (.finish q slot kind out) h₁ h) : Tells h₀ q slot kind out h₁ := by
  obtain ⟨_, c, hstep, _⟩ := hfinish
  exact hsince.returned numbered_start hstep

/-- A ping to a node that is up is answered in time, and the answer taken. -/
lemma InTime.resolved {sender : WireIdentity} {gossip : List WireMember} {p₁ s₁ : Process}
    (htime : InTime D h)
    (hping : Happened (.op q slot kind (.sendUdp addr (.ping seq sender gossip)) true) h₁ h)
    (hlate : h₁.now.clock + 2 * D < h.now.clock) (hp₁ : h₁.now.procs q = some p₁)
    (hs₁ : h₁.now.procs T = some s₁) (haddr : s₁.node.addr = addr)
    (hp : h.now.procs q = some p) (hprunning : p.stopped = false) (hpup : p.aborted = false)
    (hs : h.now.procs T = some s) (hsrunning : s.stopped = false) (hsup : s.aborted = false) :
    ∃ kind' h₂, Later h₁ h₂ ∧ Happened (.op q .udp kind' (.resolve seq T) ()) h₂ h := by
  have hping₁ : h₁.now.clock + D < h.now.clock := by
    unfold Instant at *
    omega
  -- the target handles the ping, and sends an ack
  obtain ⟨t₁, t₂, out, ht₁, hsince, hfinish, hclock⟩ :=
    htime.handled q slot kind addr _ h₁ p₁ T s₁ s hping hping₁ hp₁ hs₁ haddr hs hsrunning hsup
  obtain ⟨sender', gossip', ok, t₃, hid, ht₃, hack⟩ := hsince.tells hfinish
  have hlater : Later h₁ t₃ := ht₁.trans ht₃
  have hack' := hack.later hfinish.before
  cases ok with
  | false => exact absurd hack' (htime.sent _ _ _ _ _ _)
  | true =>
    have hclock₃ : t₃.now.clock + D < h.now.clock := by
      have hle := Later.clock_le hack.before
      unfold Instant at *
      omega
    obtain ⟨s₃, hs₃, hgrows⟩ := Later.exists_grows hlater hs₁
    obtain ⟨p₃, hp₃, hgrows'⟩ := Later.exists_grows hlater hp₁
    have haddr' : p₃.node.addr = p₁.node.addr := by rw [hgrows'.node]
    -- we handle the ack
    obtain ⟨t₄, t₅, out', ht₄, hsince', hfinish', _⟩ :=
      htime.handled T .udp _ _ _ t₃ s₃ q p₃ p hack' hclock₃ hs₃ hp₃ haddr' hp hprunning hpup
    obtain ⟨t₆, ht₆, hresolve⟩ := hsince'.tells hfinish'
    rw [hid] at hresolve
    exact ⟨_, t₆, (hlater.trans ht₄).trans ht₆, hresolve.later hfinish'.before⟩

/-- What happened before the clock stood where it stood at `b`, happened before `b`. -/
lemma Happened.of_clock_lt {l : Label} {b : Trace} (hl : Happened l h₁ h) (hb : Later b h)
    (hclock : h₁.now.clock < b.now.clock) : Happened l h₁ b := by
  refine ⟨hl.1, hl.took.of_length_lt hb ?_⟩
  by_contra hlen
  rcases History.Extends.total hl.before hb with hle | hle
  · rw [hle.eq_of_length_le (not_lt.mp hlen)] at hclock
    exact absurd hclock (lt_irrefl _)
  · exact absurd (hclock.trans_le (Later.clock_le hle)) (lt_irrefl _)

/-- A node whose detector runs has been up a moment ago. -/
lemma InTime.exists_up {task : Task} (htime : InTime D h) (hrun : Run h)
    (hp : h.now.procs q = some p) (hrunning : p.stopped = false)
    (htask : p.tasks .detector = some task) :
    ∃ b p', Later b h ∧ h.now.clock ≤ b.now.clock + D ∧ b.now.procs q = some p' ∧
      p'.stopped = false ∧ p'.aborted = false := by
  cases hup : p.aborted with
  | false => exact ⟨h, p, .refl h, Nat.le_add_right _ _, hp, hrunning, hup⟩
  | true =>
    obtain ⟨b, l, c, p₁, p₂, hrun₁, hstep, hlater, hp₁, hup₁, hp₂, hdown, hclock⟩ :=
      hrun.exists_aborted hp hup
    have hlater₁ : Later b h := (History.Extends.single hstep).trans hlater
    have hrunning₁ := (Later.grows hlater₁ hp₁ hp).running hrunning
    refine ⟨b, p₁, hlater₁, ?_, hp₁, hrunning₁, hup₁⟩
    by_contra hlate
    -- it would have been dropped by now
    have hgone := htime.dropped q _ p₂ p hlater hp₂ hdown
      (by rw [History.now_push, hclock]; exact not_le.mp hlate) hp hrunning
    exact absurd (hgone.symm.trans htask) (by simp)

/-- A wait begins. -/
lemma Step.holds {channel : Channel} {c c' : Cluster}
    (hreg : Step c (.op q slot kind (.register seq T) channel) c') :
    ∃ p, c'.procs q = some p ∧ p.shared.pending.Holds seq T channel := by
  obtain ⟨p, _, shared, _, _, _, _, hop, rfl⟩ := hreg.of_op
  refine ⟨_, if_pos rfl, .inl ?_⟩
  have hpending : shared.pending = _ := Op.Run.pending hop
  show shared.pending.waiting seq = _
  rw [hpending, hop.1]
  exact Function.update_self ..

/-- The answer somebody waits for ends the wait. -/
lemma Step.mem_sent {channel : Channel} {c c' : Cluster}
    (hres : Step c (.op q slot kind (.resolve seq T) ()) c') (hp : c.procs q = some p)
    (hholds : p.shared.pending.Holds seq T channel) :
    ∃ p', c'.procs q = some p' ∧ channel ∈ p'.shared.pending.sent := by
  obtain ⟨p₀, _, shared, _, hp₀, _, _, hop, rfl⟩ := hres.of_op
  obtain rfl := Option.some.inj (hp.symm.trans hp₀)
  refine ⟨_, if_pos rfl, ?_⟩
  have hpending : shared.pending = _ := Op.Run.pending hop
  show channel ∈ shared.pending.sent
  rw [hpending]
  exact hholds.resolved

/-- A probe of a node that is up does not give up. -/
lemma Unanswered.impossible {s₀ : Process} (hgave : Unanswered h₀ q .detector kind T addr h)
    (hrun : Run h) (htime : ∀ h', Later h' h → InTime D h') (hD : 3 * D < PROBE_TIMEOUT)
    (hdraws : draws q h < 2 ^ 32) (hs₀ : h₀.now.procs T = some s₀) (haddr : s₀.node.addr = addr)
    (hs : h.now.procs T = some s) (hrunning : s.stopped = false)
    (hstays : s.shared.guarded.leaving = false) : False := by
  cases hgave with
  | unsent dst body h₁ hsend => exact (htime h (.refl h)).sent _ _ _ _ _ _ hsend
  | unheard seq channel sender gossip started h₁ h₂ h₃ c hdrew hrun₁ hreg hping hsent hstarted hkept
      hacked =>
    have hlater₃ : Later h₃ h := hacked.before
    obtain ⟨hrun₃, c₃, hstep₃, _⟩ := id hacked
    obtain ⟨p₃, _, _, _, hp₃, hprunning₃, htask₃, hop₃, _⟩ := hstep₃.of_op
    -- the wait is on when the ping goes out, and nobody else ends it
    obtain ⟨pc, hpc, hholds⟩ := hreg.holds
    have hfree := hkept.unmarked (hrun₁.push hreg) (hdrew.later (.single hreg))
      (lt_of_le_of_lt hlater₃.draws_le hdraws)
    have hdue : started + PROBE_TIMEOUT ≤ h₃.now.clock := by
      refine hop₃.1.2.resolve_right fun hnobody => ?_
      rcases hfree.holds hpc hholds hp₃ with hwait | hheard
      · exact hnobody seq T hwait
      · exact hop₃.1.1 hheard
    -- while both of them were up
    obtain ⟨b, p, hb, hclock, hp, hprunning, hpup⟩ :=
      (htime h₃ hlater₃).exists_up hrun₃ hp₃ hprunning₃ htask₃
    have hlate : h₂.now.clock + 2 * D < b.now.clock := by
      unfold Instant at *
      omega
    have hping' : Happened _ h₂ b := hping.of_clock_lt hb (by unfold Instant at *; omega)
    have hlater₂ : Later h₂ b := hping'.before
    have hlater₀ : Later h₀ h₂ := by
      obtain ⟨t, hafter, hdraw⟩ := hdrew
      exact ((hafter.trans hdraw.before).trans (.single hreg)).trans hsent
    obtain ⟨_, cping, hstep₂, _⟩ := id hping
    obtain ⟨p₂, _, _, _, hp₂, _⟩ := hstep₂.of_op
    obtain ⟨s₂, hs₂, hgrows₂⟩ := Later.exists_grows hlater₀ hs₀
    obtain ⟨sb, hsb, _⟩ := Later.exists_grows hlater₂ hs₂
    have hgrows : sb.Grows s := Later.grows (hb.trans hlater₃) hsb hs
    have hrunb : Run b := History.IsRun.of_extends hrun (hb.trans hlater₃)
    have hup : sb.aborted = false := by
      by_contra hdown
      have hleaving := hrunb.leaving_of_aborted hsb (by simpa using hdown)
      rw [hgrows.leaving hleaving, hleaving] at hstays
      exact absurd hstays (by simp)
    -- the answer was taken in time
    obtain ⟨kind', h₄, hlater₄, hresolve⟩ := (htime b (hb.trans hlater₃)).resolved hping' hlate hp₂
      hs₂ (by rw [hgrows₂.node, haddr]) hp hprunning hpup hsb (hgrows.running hrunning) hup
    obtain ⟨_, c₄, hstep₄, hafter₄⟩ := id hresolve
    obtain ⟨p₄, _, _, _, hp₄, _⟩ := hstep₄.of_op
    have hfree₄ := History.Extends.initial hfree (hsent.trans hlater₄) (hresolve.before.trans hb)
    obtain ⟨p₅, hp₅, hheard⟩ := hstep₄.mem_sent hp₄ (LaterBy.holds hfree₄ hpc hholds hp₄)
    have hafter₃ : Later (h₄.push _ c₄) h₃ := hafter₄.trans hb
    exact hop₃.1.1 (hafter₃.mem_sent hp₅ hheard hp₃)

/-- Every probe of a node that is still up was answered. -/
lemma InTime.not_failed {target : Member}
    (htime : ∀ h', Later h' h → InTime D h') (hD : 3 * D < PROBE_TIMEOUT)
    (hdraws : ∀ q, draws q h < 2 ^ 32) (hs : h.now.procs target.id = some s)
    (hrunning : s.stopped = false) (hstays : s.shared.guarded.leaving = false) :
    ¬ Happened (.finish q .detector (.probing target) false) h₁ h := by
  intro hfinish
  have hlater : Later h₁ h := hfinish.before
  obtain ⟨hrun₁, c, hstep, _⟩ := id hfinish
  obtain ⟨p, hp, hprunning, htask⟩ : ∃ p, h₁.now.procs q = some p ∧ p.stopped = false ∧
      p.tasks .detector = some ⟨.probing target, .ret false⟩ := by
    cases hstep with
    | finish _ p _ _ _ free hp hprunning htask => exact ⟨p, hp, hprunning, htask⟩
  obtain ⟨h₀, hsince⟩ := hrun₁.since hp hprunning htask
  have hlater₀ : Later h₀ h₁ := LaterBy.later hsince.later
  have hgave : Unanswered h₀ q .detector (.probing target) target.id target.addr h₁ :=
    hsince.tells hfinish rfl
  -- the target was there, at that address
  obtain ⟨p₀, hp₀, htask₀⟩ := hsince.start
  have hrunning₀ := (Later.grows hlater₀ hp₀ hp).running hprunning
  have hauthored : Authored h₀ (.new target) :=
    ((sound_vouching.covers hsince.run).tasks hp₀ hrunning₀ htask₀).1
  obtain ⟨s₀, hs₀, haddr, _⟩ := hauthored.exists_process hsince.run
  have hs₀ : h₀.now.procs target.id = some s₀ := hs₀
  obtain ⟨s₁, hs₁, _⟩ := Later.exists_grows hlater₀ hs₀
  have hgrows : s₁.Grows s := Later.grows hlater hs₁ hs
  have hstays₁ : s₁.shared.guarded.leaving = false := by
    by_contra hleaves
    have hleaving : s₁.shared.guarded.leaving = true := by simpa using hleaves
    rw [hgrows.leaving hleaving, hleaving] at hstays
    exact absurd hstays (by simp)
  exact hgave.impossible hrun₁ (fun h' hlater' => htime h' (hlater'.trans hlater)) hD
    (lt_of_le_of_lt (Later.draws_le hlater) (hdraws q)) hs₀ haddr hs₁ (hgrows.running hrunning)
    hstays₁

/-- There are no false alarms in time. If up to now every datagram was handled within `D` by
everybody it was for, and a probe waits more than three times as long, then for every node that
runs and has not said that it leaves: no probe of it has failed, and every record of it, in any
table, any queue and any message, says that it is alive. -/
theorem no_false_alarm (hrun : Run h) (htime : ∀ h', Later h' h → InTime D h')
    (hD : 3 * D < PROBE_TIMEOUT) (hdraws : ∀ q, draws q h < 2 ^ 32)
    (hs : h.now.procs T = some s) (hrunning : s.stopped = false)
    (hstays : s.shared.guarded.leaving = false) :
    (∀ q target h₁, target.id = T →
      ¬ Happened (.finish q .detector (.probing target) false) h₁ h) ∧
    ∀ r, h.now.Says r → r.id = T → r.state = .alive := by
  have hprobes : ∀ q target h₁, target.id = T →
      ¬ Happened (.finish q .detector (.probing target) false) h₁ h := by
    rintro q target h₁ rfl
    exact InTime.not_failed htime hD hdraws hs hrunning hstays
  have hnone : ∀ i t, ¬ Suspicion h T i t := by
    rintro i t ⟨q, target, later, marked, earlier, p, entry, probed, hid, _, hpast, _, _, _, _, _,
      hfinish⟩
    have hmem : (⟨probed, .finish q .detector (.probing target) false⟩ : Moment Cluster Label) ∈
        h.past := by
      rw [hpast]
      exact List.mem_append_right _ (List.mem_cons_of_mem _ hfinish)
    obtain ⟨h₁, htook⟩ := History.IsRun.exists_took hrun hmem
    have hrun₁ : Run h₁ := History.IsRun.of_extends hrun htook.before
    exact hprobes q target h₁ hid ⟨hrun₁, htook⟩
  refine ⟨hprobes, fun r hr hid => ?_⟩
  obtain rfl := hid
  have hvouched := hrun.vouched hr
  cases hstate : r.state with
  | alive => rfl
  | suspect =>
    obtain ⟨t, _, hsuspicion⟩ := hvouched.suspect hstate
    exact absurd hsuspicion (hnone _ _)
  | dead =>
    rcases hvouched.dead hstate with ⟨p, hp, hleaving, _⟩ | ⟨t, _, hsuspicion⟩
    · obtain rfl := Option.some.inj (hs.symm.trans hp)
      exact absurd (hleaving.symm.trans hstays) (by simp)
    · exact absurd hsuspicion (hnone _ _)

end

/-! ### Between two nodes -/

section

variable {h₀ asked posed heard found h h₁ : Trace} {c c' : Cluster} {p p' : Process}

/-- A datagram that a node has handled has been handled in time, if no time has passed. -/
lemma Handles.handled {r : NodeId} {src : SocketAddr} {body : UdpBody}
    {letter : Option (SocketAddr × UdpBody)} (hhandles : Handles r src body letter asked posed)
    (hrun : Run asked) (hlater : Later posed h) (hbefore : Later h₁ asked)
    (hclock : posed.now.clock = 0) (deadline : Instant) :
    Handled r src body deadline h₁ h := by
  obtain ⟨c, h₂, c', hreceive, hdoes, hends, rfl⟩ := hhandles
  have hlater₂ : Later h₂ h := (History.Extends.single hends).trans hlater
  have hrun₁ : Run (asked.push (.receive r src body) c) := hrun.push hreceive
  have hrun₂ : Run h₂ := hrun₁.extends (LaterBy.later hdoes)
  refine ⟨_, h₂, none, hbefore.push hreceive, ⟨hrun₁, ?_, hdoes.imp fun l hl => hl.not_ends⟩,
    (Happened.of_step hrun₂ hends).later hlater, ?_⟩
  · cases hreceive with
    | receive _ s _ _ hs =>
      exact ⟨s.set .udp (some (Task.start s.node (.datagram src body))), if_pos rfl,
        by simp [Process.set]⟩
  · have hle := Later.clock_le (History.Extends.single hends)
    rw [hclock] at hle
    exact hle.trans (Nat.zero_le _)

/-- The question and the answer are all that has been sent by the time the probe returns. -/
lemma Probed.sends (hprobed : Probed h₀ asked posed heard found c c' p p') {q : NodeId} {slot : Slot}
    {kind : Kind} {dst : SocketAddr} {body : UdpBody} {ok : Bool}
    (hsend : Happened (.op q slot kind (.sendUdp dst body) ok) h₁ found) :
    ok = true ∧ (q = alpha.id ∧ dst = beta.addr ∧ body = question ∧ Later h₁ asked ∨
      q = beta.id ∧ dst = alpha.addr ∧ body = answer ∧ Later h₁ posed) := by
  have hhears := hprobed.hears.during (by simp [answer])
  have hposes := hprobed.poses.during (by simp [question])
  have hasks := hprobed.asks.imp fun _ => Label.does.posts
  have hfinds : LaterBy (fun l => l.during ∧ l.posts alpha.id none) posed found :=
    hhears.trans hprobed.finds
  rcases hsend.took.of_extends hfinds.later (hfinds.imp fun _ hl => hl.2) with hl | hsend
  · exact absurd hl.2.1 (by simp)
  rcases hsend.of_extends hposes.later (hposes.imp fun _ hl => hl.2) with hl | hsend'
  · obtain ⟨rfl, hletter, hok⟩ := hl
    obtain ⟨rfl, rfl⟩ := Prod.mk.inj (Option.some.inj hletter)
    exact ⟨hok, .inr ⟨rfl, rfl, rfl, hsend.before⟩⟩
  rcases hsend'.of_extends hasks.later hasks with hl | hsend
  · obtain ⟨rfl, hletter, hok⟩ := hl
    obtain ⟨rfl, rfl⟩ := Prod.mk.inj (Option.some.inj hletter)
    exact ⟨hok, .inl ⟨rfl, rfl, rfl, hsend'.before⟩⟩
  rcases hsend.of_push with ⟨_, hlabel⟩ | hsend
  · injection hlabel with _ _ _ ho
    exact absurd ho (by simp)
  · -- nobody before the probe sends any datagram
    have hrun₀ : Run h₀ := ⟨.empty, rfl, hprobed.before.later⟩
    have haside := (hsend.allowed hprobed.before (Nat.zero_le _)).2 _ _ _ _ _ rfl
    have hop : Happened (.op q slot kind (.sendUdp dst body) ok) h₁ h₀ :=
      ⟨hrun₀.of_extends hsend.before, hsend⟩
    have hdiscreet : ∀ node, Discreet (kind.start node) := fun node =>
      discreet_start (by simp [haside.1])
    exact (hop.of_never hdiscreet trivial).elim

/-- One number is all that has been drawn. -/
lemma Probed.draws_le (hprobed : Probed h₀ asked posed heard found c c' p p') (q : NodeId) :
    draws q found ≤ 1 := by
  have hhears := (hprobed.hears.during (by simp [answer])).imp fun _ hl => hl.2.draws q
  have hposes := (hprobed.poses.during (by simp [question])).imp fun _ hl => hl.2.draws q
  have hasks := hprobed.asks.imp fun _ hl => (Label.does.posts hl).draws q
  have hfinds := hprobed.finds.imp fun _ hl => hl.2.draws q
  have hrest := ((hasks.trans hposes).trans hhears).trans hfinds
  have hrun₀ : Run h₀ := ⟨.empty, rfl, hprobed.before.later⟩
  have hnone : draws q h₀ = 0 := by
    refine List.countP_eq_zero.mpr fun m hm hl => ?_
    obtain ⟨c₁, l⟩ := m
    obtain ⟨h₁, htook⟩ := History.IsRun.exists_took hrun₀ hm
    have hbefore := htook.allowed hprobed.before (Nat.zero_le _)
    cases l with
    | op q' slot kind o r =>
      have hop : Happened _ h₁ h₀ := ⟨hrun₀.of_extends htook.before, htook⟩
      have hidle : ∀ node, Idle (kind.start node) := fun node =>
        idle_start (hbefore.2 _ _ _ _ _ rfl).2
      cases o with
      | fetchSeq => exact hop.of_never hidle rfl
      | _ => exact absurd hl (by simp [Label.draws])
    | _ => exact absurd hl (by simp [Label.draws])
  rw [LaterBy.draws_eq hrest, draws_push, hnone]
  split_ifs <;> omega

/-- What the two nodes are when the probe has returned. -/
lemma Probed.procs (hprobed : Probed h₀ asked posed heard found c c' p p') {q : NodeId}
    {p₁ : Process} (hp₁ : c'.procs q = some p₁) : p₁.shared.guarded = .new ∧
      (q = alpha.id ∧ p₁.node = alpha ∧ peer ∈ p₁.shared.table.members ∨
        q = beta.id ∧ p₁.node = beta ∧ p₁.stopped = false) := by
  by_cases hq : q = alpha.id
  · subst hq
    have halpha : found.now.procs alpha.id = some p := by
      rw [hprobed.now, Cluster.procs_duo_alpha]
    obtain ⟨p₂, hp₂, hev⟩ := hprobed.ends.exists_evolves halpha
    obtain rfl := Option.some.inj (hp₁.symm.trans hp₂)
    rcases hev.shared with hsame | ⟨_, _, _, _, _, hl, _⟩
    · rw [hsame, hev.node, hprobed.node]
      exact ⟨hprobed.guarded, .inl ⟨rfl, rfl, hprobed.holds⟩⟩
    · exact absurd hl (by simp)
  · rw [hprobed.ends.procs_eq (fun h => hq (Option.some.inj h).symm), hprobed.now] at hp₁
    obtain ⟨rfl, rfl⟩ := (Cluster.eq_or_eq_of_duo hp₁).resolve_left fun h => hq h.1
    exact ⟨hprobed.guarded', .inr ⟨rfl, hprobed.node', hprobed.running'⟩⟩

/-- Until then the clock has stood still. -/
lemma Probed.clock (hprobed : Probed h₀ asked posed heard found c c' p p')
    (hlater : Later h₁ (found.push (.finish alpha.id .detector (.probing peer) true) c')) :
    h₁.now.clock = 0 := by
  have hsame : c'.clock = found.now.clock := by
    cases hprobed.ends
    rfl
  have hle := Later.clock_le hlater
  rw [History.now_push, hsame, hprobed.now, Cluster.clock_duo] at hle
  exact Nat.le_zero.mp hle

/-- Ten seconds later, both of them were in time. -/
lemma Probed.inTime {h' : Trace} (hprobed : Probed h₀ asked posed heard found c c' p p')
    (hlater : Later h' ((found.push (.finish alpha.id .detector (.probing peer) true) c').push
      (.tick 10000) { c' with clock := c'.clock + 10000 })) : InTime 100 h' := by
  set ended := found.push (.finish alpha.id .detector (.probing peer) true) c' with hended
  generalize hlast : ended.push (.tick 10000) { c' with clock := c'.clock + 10000 } = h at hlater
  have hafter : Later ended h := by
    rw [← hlast]
    exact .single (.tick c' 10000)
  have hfound : Later found h := (History.Extends.single hprobed.ends).trans hafter
  have hheard : Later heard h := hprobed.finds.later.trans hfound
  have hhears := (hprobed.hears.during (by simp [answer])).later
  have hposes := (hprobed.poses.during (by simp [question])).later
  have hrun₁ : Run asked :=
    ⟨.empty, rfl, (hprobed.before.later.push hprobed.draw).trans hprobed.asks.later⟩
  have hrun : Run h := hrun₁.extends (hposes.trans (hhears.trans hheard))
  have hheard' : Later heard ended := hprobed.finds.later.trans (.single hprobed.ends)
  have hsends : ∀ {q slot kind dst body ok h₁},
      Happened (.op q slot kind (.sendUdp dst body) ok) h₁ h →
      Happened (.op q slot kind (.sendUdp dst body) ok) h₁ found := by
    intro q slot kind dst body ok h₁ hsend
    rw [← hlast] at hsend
    rcases hsend.of_push with ⟨_, hl⟩ | hsend
    · exact absurd hl (by simp)
    rcases hsend.of_push with ⟨_, hl⟩ | hsend
    · exact absurd hl (by simp)
    · exact hsend
  have hprocs : ∀ {q p₁}, h.now.procs q = some p₁ → c'.procs q = some p₁ := by
    intro q p₁ hp₁
    rw [← hlast] at hp₁
    exact hp₁
  refine ⟨fun q slot kind dst body h₁ hsend => ?_, ?_, ?_⟩
  · exact absurd (hprobed.sends (hsends (hsend.later hlater))).1 (by simp)
  · intro q slot kind dst body h₁ p₁ r s s' hsend hlate hp₁ hs hdst hs' _ _
    -- time has passed, so this is the end
    obtain rfl : h' = h := by
      rw [← hlast] at hlater ⊢
      generalize hend : ended.push (.tick 10000) { c' with clock := c'.clock + 10000 } = last
        at hlater ⊢
      cases hlater with
      | refl => rfl
      | push hext _ =>
        rw [← History.eq_of_push_eq hend] at hext
        rw [hprobed.clock hext] at hlate
        exact absurd hlate (Nat.not_lt_zero _)
    have hnode : s.node = s'.node := (Later.grows hsend.before hs hs').node.symm
    obtain ⟨_, hsprocs⟩ := hprobed.procs (hprocs hs')
    obtain ⟨p₂, hp₂, hgrows⟩ := Later.exists_grows hsend.before hp₁
    obtain ⟨_, hpprocs⟩ := hprobed.procs (hprocs hp₂)
    rcases (hprobed.sends (hsends hsend)).2 with ⟨rfl, rfl, rfl, hbefore⟩ |
      ⟨rfl, rfl, rfl, hbefore⟩
    · have hsrc : p₁.node = alpha := by
        rw [← hgrows.node]
        exact (hpprocs.resolve_right fun hr => alpha_ne_beta hr.1).2.1
      rcases hsprocs with ⟨_, halpha, _⟩ | ⟨rfl, _⟩
      · rw [hnode, halpha] at hdst
        exact absurd hdst (by decide)
      · rw [hsrc]
        exact hprobed.poses.handled hrun₁ (hhears.trans hheard) hbefore
          (hprobed.clock (hhears.trans hheard')) _
    · have hsrc : p₁.node = beta := by
        rw [← hgrows.node]
        exact (hpprocs.resolve_left fun hl => alpha_ne_beta hl.1.symm).2.1
      rcases hsprocs with ⟨rfl, _⟩ | ⟨_, hbeta, _⟩
      · rw [hsrc]
        exact hprobed.hears.handled (hrun₁.extends hposes) hheard hbefore
          (hprobed.clock hheard') _
      · rw [hnode, hbeta] at hdst
        exact absurd hdst (by decide)
  · -- nobody has left
    intro q h₁ p₁ p₁' hlater₁ hp₁ haborted
    have hlater₁ : Later h₁ h := hlater₁.trans hlater
    have hrun₁ : Run h₁ := hrun.of_extends hlater₁
    obtain ⟨p₂, hp₂, hgrows⟩ := hlater₁.exists_grows hp₁
    have hleaving := hrun₁.leaving_of_aborted hp₁ haborted
    rw [← hgrows.leaving hleaving, (hprobed.procs (hprocs hp₂)).1] at hleaving
    exact absurd hleaving (by decide)

end

/-- A probe of one of two nodes by the other, answered in time, and ten seconds more. -/
theorem no_false_alarm_answered : ∃ (h h₁ h₂ h₃ : Trace) (p : Process),
    Run h ∧ (∀ h', Later h' h → InTime 100 h') ∧
    (∃ q slot kind, Happened (.op q slot kind (.sendUdp beta.addr question) true) h₁ h) ∧
    h₁.now.clock + 100 < h.now.clock ∧
    Handled beta.id alpha.addr question (h₁.now.clock + 100) h₁ h ∧
    (∃ q slot kind, Happened (.op q slot kind (.sendUdp alpha.addr answer) true) h₂ h) ∧
    h₂.now.clock + 100 < h.now.clock ∧
    Handled alpha.id beta.addr answer (h₂.now.clock + 100) h₂ h ∧
    Happened (.finish alpha.id .detector (.probing peer) true) h₃ h ∧
    (∀ q target h₁, target.id = beta.id →
      ¬ Happened (.finish q .detector (.probing target) false) h₁ h) ∧
    h.now.procs alpha.id = some p ∧ peer ∈ p.shared.table.members ∧
    ∀ r, h.now.Says r → r.id = beta.id → r.state = .alive := by
  obtain ⟨h₀, asked, posed, heard, found, c, c', p, p', hprobed⟩ := exists_probed
  have hhears := (hprobed.hears.during (by simp [answer])).later
  have hposes := (hprobed.poses.during (by simp [question])).later
  have hrun₁ : Run asked :=
    ⟨.empty, rfl, (hprobed.before.later.push hprobed.draw).trans hprobed.asks.later⟩
  have hrun₂ : Run posed := hrun₁.extends hposes
  have hrun₃ : Run found := hrun₂.extends (hhears.trans hprobed.finds.later)
  set ended := found.push (.finish alpha.id .detector (.probing peer) true) c' with hended
  set h := ended.push (.tick 10000) { c' with clock := c'.clock + 10000 } with hh
  have hheard : Later heard ended := hprobed.finds.later.trans (.single hprobed.ends)
  have hafter : Later ended h := .single (.tick c' 10000)
  have hrun : Run h := (hrun₃.push hprobed.ends).extends hafter
  have htime : ∀ h', Later h' h → InTime 100 h' := fun h' => hprobed.inTime
  obtain ⟨q, slot, kind, h₁, _, hasked, _⟩ := hrun₁.sent hprobed.sent
  obtain ⟨q', slot', kind', h₂, _, hreplied, _⟩ := hrun₂.sent hprobed.replied
  have hposed : Later posed ended := hhears.trans hheard
  have hclock : h.now.clock = 10000 := by
    show c'.clock + 10000 = 10000
    rw [show c'.clock = 0 from hprobed.clock (.refl ended)]
  have hdraws : ∀ q, draws q h < 2 ^ 32 := by
    intro q
    rw [draws_push, draws_push]
    exact lt_of_le_of_lt (hprobed.draws_le q) (by decide)
  -- the second node is still what it was when the probe returned
  have hbeta : h.now.procs beta.id = some p' := by
    show c'.procs beta.id = some p'
    rw [hprobed.ends.procs_eq (fun h => alpha_ne_beta (Option.some.inj h)), hprobed.now,
      Cluster.procs_duo_beta]
  obtain ⟨p₁, hp₁, _⟩ := hprobed.ends.exists_evolves
    (show found.now.procs alpha.id = some p by rw [hprobed.now, Cluster.procs_duo_alpha])
  have hholds := ((hprobed.procs hp₁).2.resolve_right fun hr => alpha_ne_beta hr.1).2.2
  obtain ⟨hprobes, hrecords⟩ := no_false_alarm hrun htime (by decide) hdraws hbeta
    hprobed.running' (by rw [hprobed.guarded']; rfl)
  refine ⟨h, h₁, h₂, found, p₁, hrun, htime,
    ⟨q, slot, kind, hasked.later ((hposes.trans hposed).trans hafter)⟩, ?_,
    hprobed.poses.handled hrun₁ (hposed.trans hafter) hasked.before (hprobed.clock hposed) _,
    ⟨q', slot', kind', hreplied.later (hposed.trans hafter)⟩, ?_,
    hprobed.hears.handled hrun₂ (hheard.trans hafter) hreplied.before (hprobed.clock hheard) _,
    (Happened.of_step hrun₃ hprobed.ends).later hafter, hprobes, hp₁, hholds, hrecords⟩
  · rw [hclock, hprobed.clock (hasked.before.trans (hposes.trans hposed))]
    decide
  · rw [hclock, hprobed.clock (hreplied.before.trans hposed)]
    decide

end Dalila
