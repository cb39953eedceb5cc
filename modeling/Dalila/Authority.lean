import Dalila.Deeds
import Dalila.Pair
import Dalila.Vouching

/-!
# Who has the say about a member

Three results about records in any run, all of them from `Vouched`:
- `record_authority`: nobody but the member itself moves its incarnation, and at one incarnation all
  records of it say the same
- `no_death_without_suspicion`: a record that says dead goes back to a leave, or to a probe that
  failed long enough before
- `leave_sticks`: after its leave, whoever has handled it or heard of it holds the member dead
-/

namespace Dalila

variable {h h' : Trace} {r : WireMember} {q id : NodeId} {p : Process} {m : Member}

/-! ## One incarnation, one record -/

/-- A process that was at one incarnation twice was the same both times. -/
lemma Run.same_at {c c' : Cluster} {p p' : Process} (hrun : Run h)
    (hmax : ∀ q p, h.now.procs q = some p → p.shared.guarded.incarnation < Incarnation.max)
    (hc : c ∈ h.states) (hc' : c' ∈ h.states) (hp : c.procs q = some p)
    (hp' : c'.procs q = some p')
    (hi : p'.shared.guarded.incarnation = p.shared.guarded.incarnation) :
    p'.node = p.node ∧ p'.shared.guarded.ready = p.shared.guarded.ready := by
  obtain ⟨h₁, _, rfl, hlater₁⟩ := History.mem_states_of_run hrun hc
  obtain ⟨h₂, _, rfl, hlater₂⟩ := History.mem_states_of_run hrun hc'
  have hbelow : p.shared.guarded.incarnation < Incarnation.max := by
    obtain ⟨p'', hp'', hgrows⟩ := Later.exists_grows hlater₁ hp
    exact lt_of_le_of_lt hgrows.incarnation (hmax q p'' hp'')
  rcases hlater₁.total hlater₂ with hlater | hlater
  · have hgrows := Later.grows hlater hp hp'
    exact ⟨hgrows.node, hgrows.ready hbelow hi⟩
  · have hgrows := Later.grows hlater hp' hp
    exact ⟨hgrows.node.symm, (hgrows.ready (hi ▸ hbelow) hi.symm).symm⟩

/-- Two records about one process differ in nothing but incarnation, state and readiness, and
at one incarnation only in the state. -/
lemma Authored.same {r' : WireMember} (hrun : Run h)
    (hmax : ∀ q p, h.now.procs q = some p → p.shared.guarded.incarnation < Incarnation.max)
    (hr : Authored h r) (hr' : Authored h r') (hid : r.id = r'.id) :
    r.addr = r'.addr ∧ r.tags = r'.tags ∧ (r.incarnation = r'.incarnation → r.ready = r'.ready) := by
  refine ⟨?_, ?_, fun hi => ?_⟩
  · obtain ⟨p, hp, haddr, _⟩ := hr.exists_process hrun
    obtain ⟨p', hp', haddr', _⟩ := hr'.exists_process hrun
    have hsame : p' = p := Option.some.inj (hp'.symm.trans (hid ▸ hp))
    rw [← haddr, ← haddr', hsame]
  · obtain ⟨p, hp, _, htags, _⟩ := hr.exists_process hrun
    obtain ⟨p', hp', _, htags', _⟩ := hr'.exists_process hrun
    have hsame : p' = p := Option.some.inj (hp'.symm.trans (hid ▸ hp))
    rw [← htags, ← htags', hsame]
  · obtain ⟨c, hc, p, hp, _, _, hp_i, hready⟩ := hr
    obtain ⟨c', hc', p', hp', _, _, hp_i', hready'⟩ := hr'
    have hsame := hrun.same_at hmax hc hc' hp (hid ▸ hp') (hp_i'.trans (hi.symm.trans hp_i.symm))
    rw [← hready, ← hready', hsame.2]

/-- While no incarnation has reached the top: every record about a process is at most at its
current incarnation and says of its own incarnation what the process itself was then, two
records at one incarnation agree on readiness, and an entry that was suspect is alive again
only after the process has moved past it. -/
theorem record_authority (hrun : Run h)
    (hmax : ∀ q p, h.now.procs q = some p → p.shared.guarded.incarnation < Incarnation.max) :
    (∀ r, h.now.Says r → ∃ p, h.now.procs r.id = some p ∧
      r.incarnation ≤ p.shared.guarded.incarnation ∧
      (∃ c ∈ h.states, ∃ p, c.procs r.id = some p ∧
        p.shared.guarded.incarnation = r.incarnation) ∧
      ∀ c ∈ h.states, ∀ p, c.procs r.id = some p →
        p.shared.guarded.incarnation = r.incarnation →
        p.node.addr = r.addr ∧ p.shared.guarded.ready = r.ready ∧ p.node.tags = r.tags) ∧
    (∀ r r', h.now.Says r → h.now.Says r' → r.id = r'.id → r.incarnation = r'.incarnation →
      r.ready = r'.ready) ∧
    ∀ h₀ q p m p' m', Run h₀ → LaterBy (fun l => ¬ l.reaps q m.id) h₀ h →
      h₀.now.procs q = some p → p.shared.table.get m.id = some m → m.state.toWire = .suspect →
      h.now.procs q = some p' → p'.shared.table.get m.id = some m' → m'.state = .alive →
      ∃ subject, h.now.procs m.id = some subject ∧
        m.incarnation < subject.shared.guarded.incarnation := by
  -- below the top, a process is at an incarnation with one readiness only
  have hsame : ∀ r, Authored h r → ∀ c ∈ h.states, ∀ p, c.procs r.id = some p →
      p.shared.guarded.incarnation = r.incarnation →
      p.node.addr = r.addr ∧ p.shared.guarded.ready = r.ready ∧ p.node.tags = r.tags := by
    intro r hr c hc p hp hi
    obtain ⟨c₀, hc₀, p₀, hp₀, haddr, htags, hi₀, hready⟩ := hr
    obtain ⟨hnode, hready'⟩ := hrun.same_at hmax hc₀ hc hp₀ hp (hi.trans hi₀.symm)
    rw [hnode, hready']
    exact ⟨haddr, hready, htags⟩
  refine ⟨?_, ?_, ?_⟩
  · intro r hr
    have hauthored := (hrun.vouched hr).authored
    obtain ⟨p, hp, _, _, hle⟩ := hauthored.exists_process hrun
    refine ⟨p, hp, hle, ?_, hsame r hauthored⟩
    obtain ⟨c₀, hc₀, p₀, hp₀, _, _, hi₀, _⟩ := hauthored
    exact ⟨c₀, hc₀, p₀, hp₀, hi₀⟩
  · intro r r' hr hr' hid hi
    have hsame' := (hrun.vouched hr).authored.same hrun hmax (hrun.vouched hr').authored hid
    exact hsame'.2.2 hi
  · intro h₀ q p m p' m' _ hlater hp hget hsuspect hp' hget' halive
    obtain ⟨p'', m'', hp'', hget'', hle⟩ := LaterBy.exists_entry hlater hp hget
    obtain rfl : p'' = p' := Option.some.inj (hp''.symm.trans hp')
    obtain rfl : m'' = m' := Option.some.inj (hget''.symm.trans hget')
    obtain ⟨subject, hsubject, _, hi⟩ := hrun.exists_subject hp' hget'
    -- the key did not fall while nobody reaped it, and alive ranks below suspect
    have hlt : m.incarnation < m''.incarnation := by
      rw [← WireMember.key_new, ← WireMember.key_new, WireMember.key_le_iff] at hle
      rcases hle with hlt | ⟨_, hrank⟩
      · exact hlt
      · have hrank : rank m.state.toWire ≤ rank m''.state.toWire := hrank
        rw [hsuspect, halive] at hrank
        exact absurd hrank (by decide)
    exact ⟨subject, hsubject, lt_of_lt_of_le hlt hi⟩

/-- Two nodes that have met, and one that has found out since that its app does not answer. -/
theorem record_authority_pair : ∃ h p r r', Run h ∧ h.now.procs alpha.id = some p ∧
    h.now.Says r ∧ h.now.Says r' ∧ r.id = alpha.id ∧ r'.id = alpha.id ∧
    r.incarnation < r'.incarnation ∧ r'.incarnation ≤ p.shared.guarded.incarnation ∧
    (∀ c ∈ h.states, ∀ p, c.procs r'.id = some p →
      p.shared.guarded.incarnation = r'.incarnation → p.shared.guarded.ready = r'.ready) ∧
    p.shared.guarded.incarnation = r'.incarnation := by
  obtain ⟨h₀, shared, shared', hrun₀, hnow₀, hguarded, hguarded', hmembers, hmembers'⟩ :=
    exists_pair alpha_ne_beta alpha_mayStart beta_mayStart
  obtain ⟨h, changed, hlater, hnow, hchanged, _, pending, hpending, hrumor⟩ :=
    exists_unready hrun₀ hnow₀ hguarded
  have hrun := hrun₀.extends hlater
  have hp : h.now.procs alpha.id = some { Process.new alpha [] with shared := changed } := by
    rw [hnow]
    exact Cluster.procs_pair_left alpha_ne_beta
  have hbeta : h.now.procs beta.id = some { Process.new beta [] with shared := shared' } := by
    rw [hnow]
    exact Cluster.procs_pair_right
  have hmax : ∀ q p, h.now.procs q = some p →
      p.shared.guarded.incarnation < Incarnation.max := by
    intro q p' hp'
    rw [hnow, Cluster.pair_eq_duo] at hp'
    rcases Cluster.eq_or_eq_of_duo hp' with ⟨_, rfl⟩ | ⟨_, rfl⟩
    · show changed.guarded.incarnation < _
      rw [hchanged]
      decide
    · show shared'.guarded.incarnation < _
      rw [hguarded']
      decide
  have hold := Cluster.Says.entry beta.id _ ((alpha.aliveRumor Guarded.new.current).toMember 0)
    hbeta (by
      show _ ∈ shared'.table.members
      rw [hmembers']
      exact List.mem_singleton_self _)
  have hnew := Cluster.Says.pending alpha.id _ pending hp hpending
  rw [hrumor] at hnew
  obtain ⟨p', hp', hle, _, hsame⟩ := (record_authority hrun hmax).1 _ hnew
  obtain rfl := Option.some.inj (hp.symm.trans hp')
  refine ⟨h, _, _, _, hrun, hp, hold, hnew, rfl, rfl, by decide, hle, ?_, ?_⟩
  · exact fun c hc p₁ hp₁ hi => (hsame c hc p₁ hp₁ hi).2.1
  · show changed.guarded.incarnation = _
    rw [hchanged]
    rfl

/-! ## Deaths and suspicions -/

/-- Whatever says that a process is dead at an incarnation, it has left with it, or a node's
failed probe had its entry, alive at that incarnation, marked suspect a suspicion's timeout
before. Every suspicion stems from such a probe. -/
theorem no_death_without_suspicion (hrun : Run h) (hr : h.now.Says r) :
    (r.state = .dead → Left h r.id r.incarnation ∨
      ∃ t, t + SUSPICION_TIMEOUT ≤ h.now.clock ∧ Suspicion h r.id r.incarnation t) ∧
    (r.state = .suspect → ∃ t ≤ h.now.clock, Suspicion h r.id r.incarnation t) :=
  ⟨(hrun.vouched hr).dead, (hrun.vouched hr).suspect⟩

/-- A death that nobody left for. -/
theorem no_death_without_suspicion_cut : ∃ h r, Run h ∧ h.now.Says r ∧ r.state = .dead ∧
    (Left h r.id r.incarnation ∨
      ∃ t, t + SUSPICION_TIMEOUT ≤ h.now.clock ∧ Suspicion h r.id r.incarnation t) := by
  obtain ⟨h, hcut⟩ := exists_cut alpha_ne_beta alpha_mayStart beta_mayStart
  obtain ⟨shared, shared', hnow, _, _, hmembers, _⟩ := hcut.split
  have halpha : h.now.procs alpha.id = some { Process.new alpha [] with shared := shared } := by
    rw [hnow]
    exact Cluster.procs_pair_left alpha_ne_beta
  have hsays := Cluster.Says.entry alpha.id _
    { (beta.aliveRumor Guarded.new.current).toMember 0 with state := .dead SUSPICION_TIMEOUT }
    halpha (by
      show _ ∈ shared.table.members
      rw [hmembers]
      exact List.mem_singleton_self _)
  exact ⟨h, _, hcut.run, hsays, rfl, (no_death_without_suspicion hcut.run hsays).1 rfl⟩

/-! ## A leave sticks -/

variable {f : Incarnation}

lemma Left.incarnation (hleft : Left h id f) (hp : h.now.procs id = some p) :
    p.shared.guarded.incarnation = f := by
  obtain ⟨p', hp', _, hi, _⟩ := hleft
  obtain rfl : p' = p := Option.some.inj (hp'.symm.trans hp)
  exact hi

/-- No record about a process exceeds what it leaves with, before or after. -/
lemma Left.record_le (hleft : Left h id f) (hrun' : Run h') (hsame : Later h h' ∨ Later h' h)
    (hr : h'.now.Says r) (hid : r.id = id) : r.incarnation ≤ f := by
  obtain ⟨p', hp', _, _, hle⟩ := (hrun'.vouched hr).authored.exists_process hrun'
  rw [hid] at hp'
  rcases hsame with hlater | hlater
  · rw [← (hleft.later hlater).incarnation hp']
    exact hle
  · obtain ⟨p, hp, hgrows⟩ := Later.exists_grows hlater hp'
    rw [← hleft.incarnation hp]
    exact hle.trans hgrows.incarnation

/-- A process that has left answers no rumor. -/
lemma Left.refute_none (hleft : Left h id f) {slot : Slot} {kind : Kind} {rumored : Incarnation}
    {answer : Option Incarnation} {c : Cluster}
    (hstep : Step h.now (.op id slot kind (.refute rumored) answer) c) : answer = none := by
  obtain ⟨p, hp, hleaving, _⟩ := hleft
  obtain ⟨p', next, shared, net, hp', _, _, hop, _⟩ := hstep.of_op
  obtain rfl : p' = p := Option.some.inj (hp'.symm.trans hp)
  have hanswer : answer = (p'.shared.guarded.refute rumored).1 := hop.1
  rw [hanswer, Guarded.refute_of_leaving hleaving]

/-- Whoever says goodbye does so with the incarnation it left with. -/
lemma Left.departs (hleft : Left h id f) {sender : WireIdentity}
    (hdeparts : vouching.departs h' sender) (hsame : Later h h' ∨ Later h' h)
    (hid : sender.id = id) : sender.incarnation = f := by
  have hsender : Left h' sender.id sender.incarnation := hdeparts.2
  rw [hid] at hsender
  have heq : ∀ {t : Trace} {i : Incarnation}, Left t id i → Left t id f → i = f := by
    intro t i hi hf
    have hf' := hf
    obtain ⟨p, hp, _⟩ := hf'
    rw [← hi.incarnation hp, hf.incarnation hp]
  rcases hsame with hlater | hlater
  · exact heq hsender (hleft.later hlater)
  · exact heq (hsender.later hlater) hleft

/-- Whoever handles a goodbye merges a death at the incarnation the sender left with. -/
lemma Left.buries (hleft : Left h id f) (hrun : Run h) {slot : Slot} {src : SocketAddr}
    {sender : WireIdentity} {me : NodeId} {outcome : MergeOutcome} {c : Cluster}
    (hstep : Step h.now (.op q slot (.datagram src (.leave sender)) (.merge r me) outcome) c)
    (hid : sender.id = id) :
    me = q ∧ r.id = id ∧ r.state = .dead ∧ r.incarnation = f := by
  obtain ⟨p, next, shared, net, hp, halive, htask, _⟩ := hstep.of_op
  have hburies := hrun.buries hp halive htask
  have hr : r = sender.intoLeave := (Program.Follows.step hburies).1
  have hme := hrun.merge_me hp halive htask
  have hdeparts := ((sound_vouching.covers hrun).tasks hp halive htask).1
  subst hr
  exact ⟨hme.trans (hrun.sane hp).id, hid, rfl, hleft.departs hdeparts (.inl (.refl h)) hid⟩

/-- An entry that meets a death at the last incarnation is dead until it is reaped. -/
lemma Left.entry_dead {h₁ h₂ : Trace} {pq : Process} {slot : Slot} {kind : Kind}
    {outcome : MergeOutcome} {c : Cluster} (hleft : Left h id f) (hrun₁ : Run h₁)
    (hpq : h₁.now.procs q = some pq) (hget : pq.shared.table.get id = some m)
    (hstep : Step h₁.now (.op q slot kind (.merge r q) outcome) c) (hid : r.id = id)
    (hdead : r.state = .dead) (hf : r.incarnation = f)
    (hlater : LaterBy (fun l => ¬ l.reaps q id)
      (h₁.push (.op q slot kind (.merge r q) outcome) c) h₂)
    (hsame : Later h h₂ ∨ Later h₂ h) :
    ∃ pq₂ m₂, h₂.now.procs q = some pq₂ ∧ pq₂.shared.table.get id = some m₂ ∧
      m₂.state.isDead = true ∧ m₂.incarnation = f := by
  -- the merge itself
  obtain ⟨p₀, next, shared, net, hp₀, _, _, hop, hc⟩ := hstep.of_op
  obtain rfl : p₀ = pq := Option.some.inj (hp₀.symm.trans hpq)
  have hme : r.id ≠ q := by
    rw [hid]
    rintro rfl
    exact absurd ((hrun₁.sane hpq).own.symm.trans hget) (by simp)
  subst hid
  obtain ⟨m₁, hget₁, hkey₁, _⟩ := MemberTable.le_get_merge h₁.now.clock hme hget
  have htable : shared.table = (p₀.shared.table.merge h₁.now.clock r q).2 := hop.table
  rw [← htable] at hget₁
  -- and everything after it
  have hpush : (h₁.push (.op q slot kind (.merge r q) outcome) c).now.procs q =
      some ({ p₀ with shared := shared }.set slot (some ⟨kind, next outcome⟩)) := by
    rw [History.now_push, hc]
    simp [Cluster.setProc]
  obtain ⟨p₂, m₂, hp₂, hget₂, hkey₂⟩ := hlater.exists_entry hpush hget₁
  have hrun₂ : Run h₂ := (hrun₁.push hstep).extends hlater.later
  have hsays := Cluster.Says.entry q p₂ m₂ hp₂ (MemberTable.mem_of_get hget₂)
  have hle : m₂.incarnation ≤ f := hleft.record_le hrun₂ hsame hsays (MemberTable.id_of_get hget₂)
  have hkey : r.key ≤ (WireMember.new m₂).key := hkey₁.trans hkey₂
  rw [WireMember.key_le_iff, hdead, hf] at hkey
  have hkey : f < m₂.incarnation ∨ f = m₂.incarnation ∧ 2 ≤ rank m₂.state.toWire := hkey
  refine ⟨p₂, m₂, hp₂, hget₂, ?_⟩
  rcases hkey with hlt | ⟨heq, hrank⟩
  · exact absurd hle (not_le_of_gt hlt)
  · refine ⟨?_, heq.symm⟩
    rw [MemberState.isDead_iff]
    cases hs : m₂.state.toWire <;> simp_all [rank]

/-- What a task that has handled a goodbye has done: it has merged the death. -/
def Buried (h₀ : Trace) (q : NodeId) (slot : Slot) : (kind : Kind) → kind.Out → Trace → Prop
  | .datagram src (.leave sender), _, h => ∃ t outcome, Later h₀ t ∧
      Happened (.op q slot (.datagram src (.leave sender)) (.merge sender.intoLeave q) outcome) t h
  | _, _, _ => True

lemma keeps_buried (h₀ : Trace) (q : NodeId) (node : LocalNode) (slot : Slot) (kind : Kind)
    (hid : node.id = q) :
    Program.Keeps (deeds q slot kind fun _ _ => True) (Buried h₀ q slot kind) (kind.start node)
      h₀ := by
  have hfree : ∀ {kind : Kind} {α : Type} (prog : Prog α) (h : Trace),
      Program.Keeps (deeds q slot kind fun _ _ => True) (fun _ _ => True) prog h :=
    fun prog h => .free (fun _ _ => trivial) prog h
  cases kind with
  | datagram src body =>
    cases body with
    | leave sender =>
      -- the merge comes first, and the rest does not undo it
      refine fun t hothers => ⟨trivial, fun outcome h hdoes => ?_⟩
      refine (keeps_later (hfree _ h)).imp fun out h' hrest => ?_
      subst hid
      exact ⟨t, outcome, Later.of_others hothers, (Happened.of_does hdoes).later hrest.2⟩
    | _ => exact hfree _ h₀
  | _ => exact hfree _ h₀

/-- Whoever has handled a goodbye has merged the death, at the incarnation the sender left
with. -/
lemma Left.handled {h₀ h₁ : Trace} {slot : Slot} {src : SocketAddr} {sender : WireIdentity}
    {out : Option Relay} {c : Cluster} (hleft : Left h id f)
    (hsince : Since q slot (.datagram src (.leave sender)) h₀ h₁)
    (hstep : Step h₁.now (.finish q slot (.datagram src (.leave sender)) out) c)
    (hid : sender.id = id) (hsame : Later h h₁ ∨ Later h₁ h) :
    ∃ t outcome, Later h₀ t ∧ sender.incarnation = f ∧
      Happened (.op q slot (.datagram src (.leave sender)) (.merge sender.intoLeave q) outcome)
        t h₁ := by
  obtain ⟨t, outcome, hlater, hmerged⟩ := hsince.returned keeps_buried hstep
  refine ⟨t, outcome, hlater, ?_, hmerged⟩
  have hmerged' := hmerged
  obtain ⟨hrun, c₁, hstep₁, hafter⟩ := hmerged'
  obtain ⟨p, next, shared, net, hp, halive, htask, _⟩ := hstep₁.of_op
  have hdeparts := ((sound_vouching.covers hrun).tasks hp halive htask).1
  refine hleft.departs hdeparts ?_ hid
  rcases hsame with hlater | hlater
  · exact History.Extends.total hlater hmerged.before
  · exact .inr (hmerged.before.trans hlater)

/-- Once a process has left: its incarnation stays, also against the news of its death; its
announcement carries that incarnation, which no record exceeds, then or later; wherever an
entry meets a death at it, the entry is dead at it until it is reaped; and whoever has handled the
announcement has let its entry meet that death. -/
theorem leave_sticks (hrun : Run h) (hp : h.now.procs id = some p)
    (hleaving : p.shared.guarded.leaving = true) (hf : p.shared.guarded.incarnation = f) :
    (∀ h', Later h h' →
      (∃ p', h'.now.procs id = some p' ∧ p'.shared.guarded = p.shared.guarded) ∧
      (∀ slot kind rumored answer c,
        Step h'.now (.op id slot kind (.refute rumored) answer) c → answer = none) ∧
      (∀ r, h'.now.Says r → r.id = id → r.incarnation ≤ f) ∧
      (∀ src dst sender, .udp src dst (.leave sender) ∈ h'.now.net → sender.id = id →
        sender.incarnation = f) ∧
      (∀ q slot src sender r me outcome c,
        Step h'.now (.op q slot (.datagram src (.leave sender)) (.merge r me) outcome) c →
        sender.id = id → me = q ∧ r.id = id ∧ r.state = .dead ∧ r.incarnation = f)) ∧
    (∀ h₁ h₂ q pq m slot kind r outcome c, Run h₁ → h₁.now.procs q = some pq →
      pq.shared.table.get id = some m →
      Step h₁.now (.op q slot kind (.merge r q) outcome) c →
      r.id = id → r.state = .dead → r.incarnation = f →
      LaterBy (fun l => ¬ l.reaps q id) (h₁.push (.op q slot kind (.merge r q) outcome) c) h₂ →
      (Later h h₂ ∨ Later h₂ h) →
      ∃ pq₂ m₂, h₂.now.procs q = some pq₂ ∧ pq₂.shared.table.get id = some m₂ ∧
        m₂.state.isDead = true ∧ m₂.incarnation = f) ∧
    ∀ h₀ h₁ q slot src sender out c, Since q slot (.datagram src (.leave sender)) h₀ h₁ →
      Step h₁.now (.finish q slot (.datagram src (.leave sender)) out) c → sender.id = id →
      (Later h h₁ ∨ Later h₁ h) →
      ∃ t r outcome, Later h₀ t ∧ r.id = id ∧ r.state = .dead ∧ r.incarnation = f ∧
        Happened (.op q slot (.datagram src (.leave sender)) (.merge r q) outcome) t h₁ ∧
        ∀ pq m h₂, t.now.procs q = some pq → pq.shared.table.get id = some m → Later h₁ h₂ →
          LaterBy (fun l => ¬ l.reaps q id) t h₂ → (Later h h₂ ∨ Later h₂ h) →
          ∃ pq₂ m₂, h₂.now.procs q = some pq₂ ∧ pq₂.shared.table.get id = some m₂ ∧
            m₂.state.isDead = true ∧ m₂.incarnation = f := by
  -- everything follows from the process having left at `f`
  have hleft : Left h id f := hf ▸ hrun.left_of_leaving hp hleaving
  refine ⟨fun h' hlater => ?_, ?_, ?_⟩
  · have hleft' := hleft.later hlater
    have hcov := sound_vouching.covers (hrun.extends hlater)
    refine ⟨?_, ?_, ?_, ?_, ?_⟩
    · obtain ⟨p', hp', hgrows⟩ := hlater.exists_grows hp
      exact ⟨p', hp', hgrows.leaving hleaving⟩
    · exact fun slot kind rumored answer c hstep => hleft'.refute_none hstep
    · exact fun r hr hid => hleft.record_le (hrun.extends hlater) (.inl hlater) hr hid
    · exact fun src dst sender hnet hid =>
        hleft'.departs (hcov.net _ hnet) (.inl (.refl h')) hid
    · exact fun q slot src sender r me outcome c hstep hid =>
        hleft'.buries (hrun.extends hlater) hstep hid
  · intro h₁ h₂ q pq m slot kind r outcome c hrun₁ hpq hget hstep hid hdead hf hlater hsame
    exact hleft.entry_dead hrun₁ hpq hget hstep hid hdead hf hlater hsame
  · intro h₀ h₁ q slot src sender out c hsince hfinish hid hsame
    obtain ⟨t, outcome, hlater₀, hi, hmerged⟩ := hleft.handled hsince hfinish hid hsame
    refine ⟨t, sender.intoLeave, outcome, hlater₀, hid, rfl, hi, hmerged, ?_⟩
    intro pq m h₂ hpq hget hlater₂ hkept hsame₂
    obtain ⟨hrun₁, c₁, hstep₁, hafter⟩ := hmerged
    exact hleft.entry_dead hrun₁ hpq hget hstep₁ hid rfl hi
      (hkept.suffix (hafter.trans hlater₂) (by simp)) hsame₂

/-- One of two nodes leaves, and the other, which has an entry for it, handles its goodbye. -/
theorem leave_sticks_pair : ∃ h h₁ p pq m, Run h ∧ h.now.procs alpha.id = some p ∧
    p.shared.guarded.leaving = true ∧
    (∀ h', Later h h' → ∃ p', h'.now.procs alpha.id = some p' ∧
      p'.shared.guarded = p.shared.guarded) ∧
    Later h h₁ ∧
    (∃ h₀ src sender c, Since beta.id .udp (.datagram src (.leave sender)) h₀ h₁ ∧
      sender.id = alpha.id ∧
      Step h₁.now (.finish beta.id .udp (.datagram src (.leave sender)) none) c) ∧
    h₁.now.procs beta.id = some pq ∧ pq.shared.table.get alpha.id = some m ∧
    m.state.isDead = true ∧ m.incarnation = p.shared.guarded.incarnation := by
  obtain ⟨h₀, shared, shared', hrun₀, hnow₀, hguarded, _, hmembers, hmembers'⟩ :=
    exists_pair alpha_ne_beta alpha_mayStart beta_mayStart
  obtain ⟨left, told, p, _, hleft, htold, hp, hleave, hnow⟩ :=
    exists_goodbye hrun₀ hnow₀ hmembers rfl rfl
  have hrun : Run left := hrun₀.extends hleft.later
  have hentry : ∃ m, shared'.table.get alpha.id = some m ∧ m.state = .alive ∧
      m.incarnation = shared.guarded.leave.incarnation := by
    refine ⟨(alpha.aliveRumor Guarded.new.current).toMember 0, ?_, rfl, by rw [hguarded]; rfl⟩
    simp [MemberTable.get, hmembers', WireMember.toMember, LocalNode.aliveRumor]
  obtain ⟨m, hget, hstate, hi⟩ := hentry
  obtain ⟨heard, done, c, pq, hheard, hdone, hpq, htask, hends⟩ :=
    exists_mourned (hrun.extends htold.later) hnow rfl hget hstate hi
  have hsince := Since.mk (hrun.extends (htold.later.trans hheard.later)) ⟨pq, hpq, htask⟩
    (hdone.imp fun l hl => by obtain ⟨o, r, rfl, _⟩ := hl; exact not_false)
  have hleaving : p.shared.guarded.leaving = true := by rw [hleave]; rfl
  have hspared : LaterBy Label.spares h₀ done := by
    refine ((hleft.trans htold).trans hheard).trans (hdone.imp fun l hl => ?_)
    obtain ⟨o, r, rfl, _, ho⟩ := hl
    exact Label.spares_op ho
  have hlater : Later left done := (htold.later.trans hheard.later).trans hdone.later
  -- the entry is there when the death is merged, and stays
  obtain ⟨t, r, outcome, ht, _, _, _, hmerged, hdead⟩ :=
    (leave_sticks hrun hp hleaving rfl).2.2 _ done _ _ _ _ _ _ hsince hends rfl (.inl hlater)
  have hkept : LaterBy (fun l => ¬ l.reaps beta.id alpha.id) h₀ done :=
    hspared.imp fun l hl => hl _ _
  have hbeta : h₀.now.procs beta.id = some { Process.new beta [] with shared := shared' } := by
    rw [hnow₀]
    exact Cluster.procs_pair_right
  have hbefore : Later h₀ t := ((hleft.later.trans htold.later).trans hheard.later).trans ht
  obtain ⟨pt, mt, hpt, hgett, _⟩ :=
    LaterBy.exists_entry (hkept.initial hbefore hmerged.before) hbeta hget
  obtain ⟨pq₂, m₂, hpq₂, hget₂, hdead₂, hi₂⟩ := hdead pt mt done hpt hgett (.refl done)
    (hkept.suffix hmerged.before hbefore.length_le) (.inl hlater)
  exact ⟨left, done, p, pq₂, m₂, hrun, hp, hleaving,
    fun h' hlater' => ((leave_sticks hrun hp hleaving rfl).1 h' hlater').1, hlater,
    ⟨_, _, _, c, hsince, rfl, hends⟩, hpq₂, hget₂, hdead₂, hi₂⟩

end Dalila
