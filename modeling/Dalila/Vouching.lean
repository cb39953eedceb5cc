import Dalila.Invariants

/-!
# Where records come from

`Vouched` says of a record that its process was once as the record says, that a suspicion comes from
a probe that failed, and a death from a suspicion that lasted or from a leave. The file proves that
a run holds no other records (`Run.vouched`).
-/

namespace Dalila

/-- The process the record is about had its address, tags and readiness while its incarnation
was the record's. -/
def Authored (h : Trace) (r : WireMember) : Prop :=
  ∃ c ∈ h.states, ∃ p, c.procs r.id = some p ∧ p.node.addr = r.addr ∧ p.node.tags = r.tags ∧
    p.shared.guarded.incarnation = r.incarnation ∧ p.shared.guarded.ready = r.ready

/-- At `t` the detector of some node, whose probe of `id` at incarnation `i` had returned
false, marked its own entry for `id`, which was alive at `i`, as suspect. -/
def Suspicion (h : Trace) (id : NodeId) (i : Incarnation) (t : Instant) : Prop :=
  ∃ (q : NodeId) (target : Member) (later : List (Moment Cluster Label)) (marked : Cluster)
    (earlier : List (Moment Cluster Label)) (p : Process) (entry : Member) (probed : Cluster),
    target.id = id ∧ target.incarnation = i ∧
    h.past = later ++ ⟨marked, .op q .detector (.judging target false)
      (.merge (markRumor target .suspect) q) .updated⟩ :: earlier ∧
    marked.clock = t ∧ marked.procs q = some p ∧ p.shared.table.get id = some entry ∧
    entry.incarnation = i ∧ entry.state = .alive ∧
    ⟨probed, .finish q .detector (.probing target) false⟩ ∈ earlier

/-- `id` has left, and `i` is the incarnation it left with. -/
def Left (h : Trace) (id : NodeId) (i : Incarnation) : Prop :=
  ∃ p, h.now.procs id = some p ∧ p.shared.guarded.leaving = true ∧
    p.shared.guarded.incarnation = i ∧
    ∃ c slot kind, ⟨c, .op id slot kind .leave ()⟩ ∈ h.past

/-- What stands behind a record. -/
structure Vouched (h : Trace) (r : WireMember) : Prop where
  authored : Authored h r
  suspect : r.state = .suspect → ∃ t ≤ h.now.clock, Suspicion h r.id r.incarnation t
  dead : r.state = .dead → Left h r.id r.incarnation ∨
    ∃ t, t + SUSPICION_TIMEOUT ≤ h.now.clock ∧ Suspicion h r.id r.incarnation t

/-- What stands behind an entry: its suspicion is no younger than its clock says. -/
structure Entered (h : Trace) (m : Member) : Prop where
  vouched : Vouched h (.new m)
  since : ∀ since, m.state = .suspect since → ∃ t ≤ since, Suspicion h m.id m.incarnation t

/-! ## None of it is ever lost -/

variable {h h' : Trace} {r : WireMember} {id : NodeId} {i : Incarnation} {t : Instant}

lemma Authored.later (hlater : Later h h') (hr : Authored h r) : Authored h' r := by
  obtain ⟨c, hc, hp⟩ := hr
  exact ⟨c, hlater.mem_states hc, hp⟩

/-- Steps are only ever added to the past. -/
lemma Later.exists_past (hlater : Later h h') : ∃ more, h'.past = more ++ h.past := by
  induction hlater with
  | refl => exact ⟨[], rfl⟩
  | push hext hstep ih =>
    obtain ⟨more, hmore⟩ := ih
    exact ⟨_ :: more, congrArg (List.cons _) hmore⟩

lemma Suspicion.later (hlater : Later h h') (hs : Suspicion h id i t) : Suspicion h' id i t := by
  obtain ⟨q, target, later, marked, earlier, p, entry, probed, hid, hi, hpast, hrest⟩ := hs
  obtain ⟨more, hmore⟩ := hlater.exists_past
  refine ⟨q, target, more ++ later, marked, earlier, p, entry, probed, hid, hi, ?_, hrest⟩
  rw [hmore, hpast, List.append_assoc]

lemma Left.later (hlater : Later h h') (hl : Left h id i) : Left h' id i := by
  obtain ⟨p, hp, hleaving, hi, c, slot, kind, hmem⟩ := hl
  obtain ⟨p', hp', hgrows⟩ := hlater.exists_grows hp
  have hsame := hgrows.leaving hleaving
  refine ⟨p', hp', ?_, ?_, c, slot, kind, hlater.mem_past hmem⟩
  · rw [hsame]; exact hleaving
  · rw [hsame]; exact hi

lemma Vouched.later (hlater : Later h h') (hr : Vouched h r) : Vouched h' r := by
  have hclock := hlater.clock_le
  refine ⟨hr.authored.later hlater, ?_, ?_⟩
  · intro hstate
    obtain ⟨t, ht, hs⟩ := hr.suspect hstate
    exact ⟨t, ht.trans hclock, hs.later hlater⟩
  · intro hstate
    rcases hr.dead hstate with hleft | ⟨t, ht, hs⟩
    · exact .inl (hleft.later hlater)
    · exact .inr ⟨t, ht.trans hclock, hs.later hlater⟩

lemma Entered.later {m : Member} (hlater : Later h h') (hm : Entered h m) : Entered h' m := by
  refine ⟨hm.vouched.later hlater, fun since hstate => ?_⟩
  obtain ⟨t, ht, hs⟩ := hm.since since hstate
  exact ⟨t, ht, hs.later hlater⟩

lemma Vouched.of_alive (hr : Authored h r) (hstate : r.state = .alive) : Vouched h r where
  authored := hr
  suspect hs := absurd (hstate.symm.trans hs) (by simp)
  dead hs := absurd (hstate.symm.trans hs) (by simp)

/-! ## What an author was like -/

/-- A record's process is still there, no lower, at the same address with the same tags. -/
lemma Authored.exists_process (hrun : Run h) (hr : Authored h r) :
    ∃ p, h.now.procs r.id = some p ∧ p.node.addr = r.addr ∧ p.node.tags = r.tags ∧
      r.incarnation ≤ p.shared.guarded.incarnation := by
  obtain ⟨c, hc, p₀, hp₀, haddr, htags, hi, _⟩ := hr
  obtain ⟨h₀, _, rfl, hlater⟩ := History.mem_states_of_run hrun hc
  obtain ⟨p, hp, hgrows⟩ := Later.exists_grows hlater hp₀
  refine ⟨p, hp, ?_, ?_, ?_⟩
  · rw [hgrows.node]; exact haddr
  · rw [hgrows.node]; exact htags
  · rw [← hi]; exact hgrows.incarnation

/-- An entry that was updated is as well founded as the rumor: the address it keeps is the
same. -/
lemma Vouched.update (hrun : Run h) {m : Member} (hm : Vouched h (.new m)) (hr : Vouched h r)
    (hid : r.id = m.id) : Vouched h (.new (m.update h.now.clock r)) := by
  obtain ⟨p, hp, haddr, _⟩ := hr.authored.exists_process hrun
  obtain ⟨p', hp', haddr', _⟩ := hm.authored.exists_process hrun
  have hsame : p' = p := Option.some.inj (hp'.symm.trans ((congrArg _ hid.symm).trans hp))
  have hmaddr : r.addr = m.addr := by
    rw [← haddr, ← hsame]
    exact haddr'
  rw [WireMember.new_update _ hid hmaddr]
  exact hr

/-! ## The knowledge of what is vouched for -/

/-- A suspicion whose time is up began that long ago. -/
lemma Suspicion.of_expired {m : Member} (hm : Entered h m)
    (hexpired : suspicionExpired h.now.clock m = true) :
    ∃ t, t + SUSPICION_TIMEOUT ≤ h.now.clock ∧ Suspicion h m.id m.incarnation t := by
  unfold suspicionExpired at hexpired
  cases hstate : m.state with
  | suspect since =>
    rw [hstate] at hexpired
    obtain ⟨t, ht, hs⟩ := hm.since since hstate
    have hlong : SUSPICION_TIMEOUT ≤ h.now.clock - since := of_decide_eq_true hexpired
    have hpos : 0 < SUSPICION_TIMEOUT := by decide
    refine ⟨t, ?_, hs⟩
    unfold Instant at *
    omega
  | alive => rw [hstate] at hexpired; exact absurd hexpired (by simp)
  | dead _ => rw [hstate] at hexpired; exact absurd hexpired (by simp)

/-- A record is known if it is vouched for, and an entry with its clock if it was entered so. -/
def vouching : Knowledge where
  knows := Vouched
  holds := Entered
  copied h m := Authored h (.new m)
  said h i := Authored h i.intoMember
  departs h i := Authored h i.intoMember ∧ Left h i.id i.incarnation
  postmortem := True
  knows_later := Vouched.later
  holds_later := Entered.later
  copied_later := Authored.later
  said_later := Authored.later
  departs_later hlater hi := ⟨hi.1.later hlater, hi.2.later hlater⟩
  knows_of_holds hm := hm.vouched
  copied_of_holds hm := hm.vouched.authored
  knows_of_expired hm hexpired :=
    ⟨hm.vouched.authored, fun hs => absurd hs (by simp [markRumor]),
      fun _ => .inr (Suspicion.of_expired hm hexpired)⟩
  knows_of_departs hi :=
    ⟨hi.1, fun hs => absurd hs (by simp [WireIdentity.intoLeave]), fun _ => .inl hi.2⟩

/-! ## It is sound -/

/-- What a process says of itself it says truly. -/
lemma Authored.own (hrun : Run h) {q : NodeId} {p : Process} (hp : h.now.procs q = some p) :
    Authored h (p.node.aliveRumor p.shared.guarded.current) := by
  have hsane := hrun.sane hp
  refine ⟨h.now, h.now_mem_states, p, ?_, rfl, rfl, rfl, rfl⟩
  show h.now.procs p.node.id = some p
  rw [hsane.id, hp]

/-- Only `leave` sets the flag. -/
lemma Run.left_of_leaving (hrun : Run h) {q : NodeId} {p : Process} (hp : h.now.procs q = some p)
    (hleaving : p.shared.guarded.leaving = true) : Left h q p.shared.guarded.incarnation := by
  have hall : ∀ q p, h.now.procs q = some p → p.shared.guarded.leaving = true →
      ∃ c slot kind, (⟨c, .op q slot kind .leave ()⟩ : Moment Cluster Label) ∈ h.past := by
    refine History.IsRun.induction (P := fun h => ∀ q p, h.now.procs q = some p →
      p.shared.guarded.leaving = true →
      ∃ c slot kind, (⟨c, .op q slot kind .leave ()⟩ : Moment Cluster Label) ∈ h.past) hrun ?_ ?_
    · rintro c rfl q p hp
      exact absurd hp (by simp [History.init, Cluster.empty])
    · intro h l c _ ih hstep q p' hp' hleaving
      have hold : ∀ p, h.now.procs q = some p → p.shared.guarded.leaving = true →
          ∃ c₀ slot kind, (⟨c₀, .op q slot kind .leave ()⟩ : Moment Cluster Label) ∈
            (h.push l c).past := by
        intro p hp hleaving
        obtain ⟨c₀, slot, kind, hmem⟩ := ih q p hp hleaving
        exact ⟨c₀, slot, kind, List.mem_cons_of_mem _ hmem⟩
      rcases hstep.proc_cases hp' with ⟨p, hp, hev⟩ | ⟨_, node, seeds, _, _, _, rfl⟩
      · rcases hev.shared with hshared | ⟨slot, kind, o, r, net, hl, hop⟩
        · exact hold p hp (by rw [← hshared]; exact hleaving)
        · have hafter : p'.shared.guarded = o.guardedAfter p.shared.guarded := hop.guarded
          cases o with
          | leave => exact ⟨h.now, slot, kind, by rw [hl]; exact List.mem_cons_self⟩
          | refute rumored =>
            refine hold p hp ?_
            rw [← (p.shared.guarded.refute_flags rumored).1]
            rw [hafter] at hleaving
            exact hleaving
          | setReady ready =>
            refine hold p hp ?_
            rw [← p.shared.guarded.setReady_leaving ready]
            rw [hafter] at hleaving
            exact hleaving
          | _ =>
            refine hold p hp ?_
            rw [hafter] at hleaving
            exact hleaving
      · exact absurd hleaving (by simp [Process.new, Shared.new, Guarded.new])
  exact ⟨p, hp, hleaving, rfl, hall q p hp hleaving⟩

/-- The detector judges a target by what its probe of it came to. -/
lemma Run.probed (hrun : Run h) {q : NodeId} {p : Process} (hp : h.now.procs q = some p)
    (halive : p.stopped = false) {target : Member} {acked : Bool}
    {prog : Prog (Kind.judging target acked).Out}
    (htask : p.tasks .detector = some ⟨.judging target acked, prog⟩) :
    ∃ c, (⟨c, .finish q .detector (.probing target) acked⟩ : Moment Cluster Label) ∈ h.past := by
  have hall : ∀ q p target acked prog, h.now.procs q = some p → p.stopped = false →
      p.tasks .detector = some ⟨.judging target acked, prog⟩ →
      ∃ c, (⟨c, .finish q .detector (.probing target) acked⟩ : Moment Cluster Label) ∈ h.past := by
    refine History.IsRun.induction (P := fun h => ∀ q p target acked prog,
      h.now.procs q = some p → p.stopped = false →
      p.tasks .detector = some ⟨.judging target acked, prog⟩ →
      ∃ c, (⟨c, .finish q .detector (.probing target) acked⟩ : Moment Cluster Label) ∈ h.past)
      hrun ?_ ?_
    · rintro c rfl q p target acked prog hp
      exact absurd hp (by simp [History.init, Cluster.empty])
    · intro h l c _ ih hstep q p' target acked prog hp' halive htask
      have hold : ∀ {p prog}, h.now.procs q = some p → p.stopped = false →
          p.tasks .detector = some ⟨.judging target acked, prog⟩ →
          ∃ c₀, (⟨c₀, .finish q .detector (.probing target) acked⟩ : Moment Cluster Label) ∈
            (h.push l c).past := by
        intro p prog hp halive htask
        obtain ⟨c₀, hmem⟩ := ih q p target acked prog hp halive htask
        exact ⟨c₀, List.mem_cons_of_mem _ hmem⟩
      -- the kind of the task decides by which step it came about
      generalize hkind : (⟨.judging target acked, prog⟩ : Task) = task at htask
      cases Task.arises hstep hp' halive htask with
      | kept p _ hp halive htask₀ =>
        subst hkind
        exact hold hp halive htask₀
      | moved p kind o next r net hp halive htask₀ =>
        injection hkind with hkind
        subst hkind
        exact hold hp halive htask₀
      | followed p slot₀ kind₀ out free kind hp halive htask₀ hl hnext =>
        injection hkind with hkind
        subst hkind
        cases hnext
        exact ⟨h.now, by rw [hl]; exact List.mem_cons_self⟩
      | begun p kind hp halive haborted hl hbegins =>
        injection hkind with hkind
        subst hkind
        cases hbegins
      | received p src body hp halive hslot => exact absurd hslot (by simp)
      | accepted p n conn body hp halive hslot => exact absurd hslot (by simp)
      | joining seeds hslot => exact absurd hslot (by simp)
  exact hall q p target acked prog hp halive htask

/-- Between a copy of an entry and a suspicion of it there is only the entry, alive. -/
lemma Member.alive_of_between {member target : Member} (hle : target.key ≤ member.key)
    (hlt : member.key < (markRumor target .suspect).key) :
    member.incarnation = target.incarnation ∧ member.state = .alive := by
  rw [← WireMember.key_new, ← WireMember.key_new, WireMember.key_le_iff] at hle
  rw [← WireMember.key_new, WireMember.key_lt_iff] at hlt
  have hle : target.incarnation < member.incarnation ∨ target.incarnation = member.incarnation ∧
      rank target.state.toWire ≤ rank member.state.toWire := hle
  have hlt : member.incarnation < target.incarnation ∨ member.incarnation = target.incarnation ∧
      rank member.state.toWire < 1 := hlt
  rcases hlt with hlt | ⟨hinc, hrank⟩
  · rcases hle with hle | ⟨hinc, _⟩
    · exact absurd (hle.trans hlt) (lt_irrefl _)
    · exact absurd hlt (by rw [hinc]; exact lt_irrefl _)
  · refine ⟨hinc, ?_⟩
    cases hs : member.state <;> simp_all [MemberState.toWire, rank]

/-- A mark that takes finds the target's entry alive, at the incarnation of the copy. -/
lemma Run.alive_of_mark (hrun : Run h) {c : Cluster} {q : NodeId} {p : Process} {slot : Slot}
    {target : Member} {me : NodeId} {outcome : MergeOutcome} (hp : h.now.procs q = some p)
    (halive : p.stopped = false)
    (hstep : Step h.now (.op q slot (.judging target false)
      (.merge (markRumor target .suspect) me) outcome) c)
    (hout : outcome = .added ∨ outcome = .updated) :
    outcome = .updated ∧ slot = .detector ∧ ∃ entry, p.shared.table.get target.id = some entry ∧
      entry.incarnation = target.incarnation ∧ entry.state = .alive := by
  obtain ⟨p₀, next, shared, net, hp₀, _, htask, hop, _⟩ := hstep.of_op
  obtain rfl : p = p₀ := Option.some.inj (hp.symm.trans hp₀)
  have hdetector : slot = .detector := by
    have hslot := hrun.slots hp halive htask
    cases slot with
    | detector => rfl
    | _ => exact absurd hslot (by simp [Slot.Runs])
  subst hdetector
  obtain ⟨⟨entry, hget, hle⟩, _⟩ := hrun.grounded hp halive htask
  have hmerge : outcome = (p.shared.table.merge h.now.clock (markRumor target .suspect) me).1 :=
    hop.1
  have hspec := p.shared.table.merge_spec h.now.clock (markRumor target .suspect) me
  rw [← hmerge] at hspec
  generalize (p.shared.table.merge h.now.clock (markRumor target .suspect) me).2 = table at hspec
  -- the entry is there, so the mark can only have updated it
  cases hspec with
  | own | doubted | refused | stale => exact absurd hout (by simp)
  | added hne hnone => exact absurd (hnone.symm.trans hget) (by simp)
  | updated hne member hmember hlt =>
    obtain rfl : member = entry := Option.some.inj (hmember.symm.trans hget)
    exact ⟨rfl, rfl, member, hget, Member.alive_of_between hle hlt⟩

/-- A mark that takes is a suspicion. -/
lemma Run.suspicion_of_mark (hrun : Run h) {c : Cluster} {q : NodeId} {p : Process} {slot : Slot}
    {target : Member} {outcome : MergeOutcome} (hp : h.now.procs q = some p)
    (halive : p.stopped = false)
    (hstep : Step h.now (.op q slot (.judging target false)
      (.merge (markRumor target .suspect) p.node.id) outcome) c)
    (hout : outcome = .added ∨ outcome = .updated) :
    Suspicion (h.push (.op q slot (.judging target false)
      (.merge (markRumor target .suspect) p.node.id) outcome) c) target.id target.incarnation
      h.now.clock := by
  obtain ⟨rfl, rfl, entry, hget, hinc, hstate⟩ := hrun.alive_of_mark hp halive hstep hout
  obtain ⟨p₀, next, shared, net, hp₀, _, htask, _⟩ := hstep.of_op
  obtain rfl : p = p₀ := Option.some.inj (hp.symm.trans hp₀)
  obtain ⟨probed, hprobed⟩ := hrun.probed hp halive htask
  have hid : p.node.id = q := (hrun.sane hp).id
  exact ⟨q, target, [], h.now, h.past, p, entry, probed, rfl, rfl, by rw [hid]; rfl, rfl, hp,
    hget, hinc, hstate, hprobed⟩

/-- Every operation that makes a record makes one that is vouched for. -/
theorem sound_vouching : vouching.Sound Run where
  own hrun hp _ := ⟨.of_alive (.own hrun hp) rfl, .own hrun hp⟩
  leaving {h q p slot prog} hrun hp halive htask := by
    refine ⟨.own hrun hp, ?_⟩
    have hleaving : p.shared.guarded.leaving = true := hrun.leaves hp halive htask
    have hid : p.node.id = q := (hrun.sane hp).id
    show Left h p.node.id p.shared.guarded.incarnation
    rw [hid]
    exact hrun.left_of_leaving hp hleaving
  fresh {h r} hrun hr _ := by
    refine ⟨?_, fun since hstate => ?_⟩
    · rw [WireMember.new_toMember]
      exact hr
    · have hsuspect : r.state = .suspect ∧ h.now.clock = since := by
        cases hs : r.state <;> simp_all [WireMember.toMember, WireMemberState.toMember]
      rw [← hsuspect.2]
      exact hr.suspect hsuspect.1
  update {h m r} hrun hm hr hid hkey := by
    refine ⟨hm.vouched.update hrun hr hid, fun since hstate => ?_⟩
    have hsuspect : r.state = .suspect ∧ h.now.clock = since := by
      cases hs : r.state <;> simp_all [Member.update, WireMemberState.toMember]
    rw [← hsuspect.2]
    show ∃ t ≤ h.now.clock, Suspicion h m.id r.incarnation t
    rw [← hid]
    exact hr.suspect hsuspect.1
  marked {h c q p slot target outcome} hrun hp halive _ hcopied hstep hout := by
    have hclock : c.clock = h.now.clock := by
      cases hstep
      rfl
    have hs := hrun.suspicion_of_mark hp halive hstep hout
    refine ⟨hcopied.later (.single hstep), fun _ => ⟨h.now.clock, ?_, hs⟩, ?_⟩
    · exact hclock.ge
    · exact fun hdead => absurd hdead (by simp [markRumor])

lemma vouched_of_udp {body : UdpBody} (hbody : vouching.Udp h body) (hr : r ∈ body.records) :
    Vouched h r := by
  have hcons : ∀ {sender : WireIdentity} {gossip : List WireMember},
      Authored h sender.intoMember → (∀ r ∈ gossip, Vouched h r) →
      r ∈ sender.intoMember :: gossip → Vouched h r := by
    intro sender gossip hsender hgossip hr
    rcases List.mem_cons.mp hr with rfl | hr
    · exact .of_alive hsender rfl
    · exact hgossip r hr
  cases body with
  | leave sender =>
    obtain rfl := List.mem_singleton.mp hr
    exact vouching.knows_of_departs hbody
  | _ => exact hcons hbody.1 hbody.2 hr

lemma vouched_of_tcp {body : TcpBody} (hbody : vouching.Tcp h body) (hr : r ∈ body.records) :
    Vouched h r := by
  cases body with
  | joinRequest sender =>
    obtain rfl := List.mem_singleton.mp hr
    exact hbody
  | membersRequest => exact absurd hr (by simp [TcpBody.records])
  | membersResponse sender members =>
    rcases List.mem_cons.mp hr with rfl | hr
    · exact .of_alive hbody.1 rfl
    · exact hbody.2 r hr
  | _ =>
    rcases List.mem_cons.mp hr with rfl | hr
    · exact hbody.1
    · exact hbody.2 r hr

lemma vouched_of_packet {packet : Packet} (hpacket : vouching.Packet h packet)
    (hr : r ∈ packet.records) : Vouched h r := by
  cases packet with
  | udp src dst body => exact vouched_of_udp hpacket hr
  | request conn body => exact vouched_of_tcp hpacket hr
  | response conn body => exact vouched_of_tcp hpacket hr

/-- In every run, something stands behind every record there is. -/
theorem Run.vouched (hrun : Run h) (hr : h.now.Says r) : Vouched h r := by
  have hcov := sound_vouching.covers hrun
  cases hr with
  | entry q p m hp hm => exact (hcov.table hp (.inr trivial) m hm).vouched
  | pending q p pending hp hpending => exact hcov.queue hp (.inr trivial) pending hpending
  | message packet _ hnet hmem => exact vouched_of_packet (hcov.net packet hnet) hmem

/-- An entry is about a process at the same address, which is no lower. -/
lemma Run.exists_subject {q id : NodeId} {p : Process} {m : Member} (hrun : Run h)
    (hp : h.now.procs q = some p) (hget : p.shared.table.get id = some m) :
    ∃ subject, h.now.procs id = some subject ∧ subject.node.addr = m.addr ∧
      m.incarnation ≤ subject.shared.guarded.incarnation := by
  have hsays := Cluster.Says.entry q p m hp (MemberTable.mem_of_get hget)
  obtain ⟨subject, hsubject, haddr, _, hle⟩ :=
    (hrun.vouched hsays).authored.exists_process hrun
  have hsubject : h.now.procs m.id = some subject := hsubject
  rw [MemberTable.id_of_get hget] at hsubject
  exact ⟨subject, hsubject, haddr, hle⟩

end Dalila
