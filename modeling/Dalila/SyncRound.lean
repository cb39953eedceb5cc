import Dalila.Absorb
import Dalila.Authority

/-!
# One round of sync

`SyncRound` is a round between two processes, from the request to the taking over of the reply. The
file proves what it leaves of the two tables, id by id: on both sides the greater of the two
records, or a death on one side that the other never learns of.
-/

namespace Dalila

open Program

variable {node : LocalNode} {now : Instant} {w w' : World}

/-! ## The two halves of a round -/

/-- What `sync_with` does up to its request. -/
lemma path_syncWith {p : Process} {partner : Member} {conn : Conn} {body : TcpBody}
    {next : Bool → Prog Unit}
    (h : p.Path now (syncWith p.node partner) w (.step (.writeRequest conn body) next) w') :
    ∃ members : List Member, members.Perm w.shared.table.members ∧
      body = .syncRequest (p.node.identity w.shared.guarded.current) (members.map .new) ∧
      w'.net = w.net ∧ w'.shared.table = w.shared.table ∧
      w'.shared.guarded = w.shared.guarded ∧
      ∃ rest : Option TcpBody → Prog Unit, next true = .step (.readFrame conn) rest ∧
        ∀ sender members, rest (some (.syncResponse sender members)) =
          absorb p.node sender members := by
  rcases path_step_iff.mp h with ⟨heq, _⟩ | ⟨_, conn', w₁, hconnect, h₁⟩
  · exact absurd heq (by rintro ⟨⟩)
  cases conn' with
  | none =>
    have hret : p.Path now (.ret ()) w₁ (.step (.writeRequest conn body) next) w' := h₁
    cases hret
  | some conn' =>
    obtain ⟨_, rfl⟩ := hconnect
    rcases path_step_iff.mp h₁ with ⟨heq, _⟩ | ⟨_, current, w₂, ⟨rfl, rfl⟩, h₂⟩
    · exact absurd heq (by rintro ⟨⟩)
    rcases path_step_iff.mp h₂ with ⟨heq, _⟩ | ⟨_, members, w₃, ⟨hperm, rfl⟩, h₃⟩
    · exact absurd heq (by rintro ⟨⟩)
    rcases path_step_iff.mp h₃ with ⟨heq, rfl⟩ | ⟨_, ok, w₄, hwrite, h₄⟩
    · injection heq with ho hnext
      injection ho with hconn hbody
      subst hconn hbody hnext
      exact ⟨members, hperm, rfl, rfl, rfl, rfl, _, rfl, fun _ _ => rfl⟩
    · -- past its request the task waits, or is done
      cases ok with
      | false =>
        have hret : p.Path now (.ret ()) w₄ (.step (.writeRequest conn body) next) w' := h₄
        cases hret
      | true =>
        rcases path_step_iff.mp h₄ with ⟨heq, _⟩ | ⟨hawaits, _⟩
        · exact absurd heq (by rintro ⟨⟩)
        · exact absurd rfl hawaits

/-- The arm of the accept loop that serves a sync. -/
lemma serve_syncRequest (node : LocalNode) (conn : Conn) (sender : WireIdentity)
    (members : List WireMember) :
    serve node conn (.syncRequest sender members) = (do
      let current ← Op.call .current
      let ours ← Op.call .snapshot
      absorb node sender members
      let _ ← Op.call
        (.writeResponse conn (.syncResponse (node.identity current) (ours.map .new)))
      pure ()) := by
  show Program.step Op.current _ = Program.step Op.current _
  congr 1
  funext current
  show Program.step Op.snapshot _ = Program.step Op.snapshot _
  congr 1
  funext ours
  exact Program.bind_assoc (absorb node sender members) _ _

/-- What serving a sync request does up to the reply. -/
lemma path_serve {p : Process} {conn conn' : Conn} {sender : WireIdentity}
    {members : List WireMember} {reply : TcpBody} {next : Bool → Prog Unit}
    (h : p.Path now (serve p.node conn (.syncRequest sender members)) w
      (.step (.writeResponse conn' reply) next) w') :
    ∃ ours : List Member, ours.Perm w.shared.table.members ∧
      reply = .syncResponse (p.node.identity w.shared.guarded.current) (ours.map .new) ∧
      Absorbed p.node now (sender.intoMember :: members) w w' := by
  rw [serve_syncRequest] at h
  rcases path_step_iff.mp h with ⟨heq, _⟩ | ⟨_, current, w₁, ⟨rfl, rfl⟩, h₁⟩
  · exact absurd heq (by rintro ⟨⟩)
  rcases path_step_iff.mp h₁ with ⟨heq, _⟩ | ⟨_, ours, w₂, ⟨hperm, rfl⟩, h₂⟩
  · exact absurd heq (by rintro ⟨⟩)
  obtain ⟨_, w₃, habsorb, h₃⟩ := Path.through_bind (inward_absorb sender members) (.inr rfl) h₂
  have habsorbed := exec_absorb habsorb.exec
  rcases path_step_iff.mp h₃ with ⟨heq, rfl⟩ | ⟨_, ok, w₄, _, h₄⟩
  · injection heq with ho _
    injection ho with _ hreply
    exact ⟨ours, hperm, hreply, habsorbed⟩
  · have hret : p.Path now (.ret ()) w₄ (.step (.writeResponse conn' reply) next) w' := h₄
    cases hret

/-! ## What one side hears -/

/-- `q'` is `q` after absorbing what `p` says: its own record and then its table. -/
def Told (now : Instant) (p q q' : Process) : Prop :=
  ∃ (members : List Member) (net : List Packet), members.Perm p.shared.table.members ∧
    Absorbed q.node now (p.node.aliveRumor p.shared.guarded.current :: members.map .new)
      ⟨q.shared, net⟩ ⟨q'.shared, net⟩

lemma filter_id_eq {members : List Member} (hnodup : (members.map Member.id).Nodup) {m : Member}
    (hm : m ∈ members) : members.filter (fun m' => m'.id = m.id) = [m] := by
  induction members with
  | nil => exact absurd hm (by simp)
  | cons m₀ members ih =>
    rw [List.map_cons, List.nodup_cons] at hnodup
    rcases List.mem_cons.mp hm with rfl | hm
    · have hnone : members.filter (fun m' => m'.id = m.id) = [] := by
        rw [List.filter_eq_nil_iff]
        intro m' hm' hid
        exact hnodup.1 (List.mem_map.mpr ⟨m', hm', by simpa using hid⟩)
      simp [hnone]
    · have hne : m₀.id ≠ m.id := by
        intro hid
        exact hnodup.1 (List.mem_map.mpr ⟨m, hm, hid.symm⟩)
      simp [hne, ih hnodup.2 hm]

/-- A snapshot has one record for each entry. -/
lemma rumorsAbout_snapshot {table : MemberTable} {members : List Member}
    (hperm : members.Perm table.members) (now : Instant) (id : NodeId) :
    MemberTable.rumorsAbout id ((members.map .new).map fun r => (r, now)) =
      ((table.get id).map fun m => (.new m, now)).toList := by
  have hnodup : (members.map Member.id).Nodup := (hperm.map _).nodup_iff.mpr table.nodup
  have hfilter : MemberTable.rumorsAbout id ((members.map .new).map fun r => (r, now)) =
      (members.filter fun m => m.id = id).map fun m => (.new m, now) := by
    simp only [MemberTable.rumorsAbout, List.filter_map, List.map_map]
    rfl
  rw [hfilter]
  cases hget : table.get id with
  | none =>
    rw [MemberTable.get_eq_none_iff] at hget
    have hnone : members.filter (fun m => m.id = id) = [] := by
      rw [List.filter_eq_nil_iff]
      intro m hm hid
      exact hget m (hperm.mem_iff.mp hm) (by simpa using hid)
    rw [hnone]
    rfl
  | some m =>
    have hm : m ∈ members := hperm.mem_iff.mpr (MemberTable.mem_of_get hget)
    rw [← MemberTable.id_of_get hget, filter_id_eq hnodup hm]
    rfl

namespace Told

variable {p q q' : Process} {a b id : NodeId} {m : Member}

/-- What is said about a third node. -/
lemma get_other (h : Told now p q q') (hp : p.node.id = a) (hq : q.node.id = b) (ha : id ≠ a)
    (hb : id ≠ b) :
    q'.shared.table.get id = Register.offers entryRules (q.shared.table.get id)
      ((p.shared.table.get id).map fun m => (WireMember.new m, now)).toList := by
  obtain ⟨members, net, hperm, habsorbed⟩ := h
  have hown : MemberTable.rumorsAbout id
      ((p.node.aliveRumor p.shared.guarded.current :: members.map .new).map fun r => (r, now)) =
      MemberTable.rumorsAbout id ((members.map .new).map fun r => (r, now)) := by
    have hne : (p.node.aliveRumor p.shared.guarded.current).id ≠ id := by
      show p.node.id ≠ id
      rw [hp]
      exact ha.symm
    simp [MemberTable.rumorsAbout, hne]
  rw [habsorbed.table, hq, MemberTable.get_mergeAll _ hb, hown, rumorsAbout_snapshot hperm]

/-- What the speaker says about itself. -/
lemma get_speaker (h : Told now p q q') (hp : p.Sane a) (hq : q.node.id = b) (hab : a ≠ b) :
    q'.shared.table.get a = Register.offer entryRules (q.shared.table.get a)
      (p.node.aliveRumor p.shared.guarded.current, now) := by
  obtain ⟨members, net, hperm, habsorbed⟩ := h
  have hown : MemberTable.rumorsAbout a
      ((p.node.aliveRumor p.shared.guarded.current :: members.map .new).map fun r => (r, now)) =
      (p.node.aliveRumor p.shared.guarded.current, now) ::
        MemberTable.rumorsAbout a ((members.map .new).map fun r => (r, now)) := by
    have hid : (p.node.aliveRumor p.shared.guarded.current).id = a := hp.id
    simp [MemberTable.rumorsAbout, hid]
  rw [habsorbed.table, hq, MemberTable.get_mergeAll _ hab, hown, rumorsAbout_snapshot hperm,
    hp.own]
  rfl

/-- The listener holds the speaker, no lower than the speaker itself. -/
lemma holds_speaker (h : Told now p q q') (hp : p.Sane a) (hq : q.node.id = b) (hab : a ≠ b) :
    ∃ m, q'.shared.table.get a = some m ∧ p.shared.guarded.incarnation ≤ m.incarnation := by
  rw [h.get_speaker hp hq hab]
  have hkey : ∀ m : Member, (p.node.aliveRumor p.shared.guarded.current).key ≤ m.key →
      p.shared.guarded.incarnation ≤ m.incarnation := by
    intro m hle
    rw [← WireMember.key_new, WireMember.key_le_iff] at hle
    rcases hle with hlt | ⟨heq, _⟩
    · exact le_of_lt hlt
    · exact le_of_eq heq
  cases hget : q.shared.table.get a with
  | none =>
    have hadm : (p.node.aliveRumor p.shared.guarded.current).admissible = true :=
      (p.node.identity p.shared.guarded.current).admissible_intoMember hp.mayStart.1
    refine ⟨(p.node.aliveRumor p.shared.guarded.current).toMember now, ?_, ?_⟩
    · exact if_pos hadm
    · exact le_refl _
  | some m =>
    simp only [Register.offer]
    split_ifs with hlt
    · refine ⟨_, rfl, ?_⟩
      exact le_refl _
    · exact ⟨m, rfl, hkey m (le_of_not_gt hlt)⟩

/-- Nothing the listener held is lost or lowered. -/
lemma grows (h : Told now p q q') : q.shared.table.Grows q'.shared.table := by
  obtain ⟨members, net, hperm, habsorbed⟩ := h
  intro id m hget
  rw [habsorbed.table]
  by_cases hid : id = q.node.id
  · rw [hid, MemberTable.get_mergeAll_me]
    exact ⟨m, by rw [← hid, hget], le_refl _⟩
  · rw [MemberTable.get_mergeAll _ hid, hget]
    obtain ⟨m', hm', hout⟩ := Register.offers_some (R := entryRules) m _
    exact ⟨m', hm', hout.keyOf_le⟩

/-- A doubt the speaker holds about the listener is answered. -/
lemma answers (h : Told now p q q') (hq : q.node.id = b)
    (hleaving : q.shared.guarded.leaving = false)
    (hget : p.shared.table.get b = some m) (hstate : m.state ≠ .alive)
    (hmax : m.incarnation < Incarnation.max) :
    m.incarnation < q'.shared.guarded.incarnation := by
  obtain ⟨members, net, hperm, habsorbed⟩ := h
  have hmem : WireMember.new m ∈ members.map WireMember.new :=
    List.mem_map_of_mem (hperm.mem_iff.mpr (MemberTable.mem_of_get hget))
  refine habsorbed.refuted hleaving (.new m) (List.mem_cons_of_mem _ hmem) ?_ ?_ hmax
  · rw [hq]
    exact MemberTable.id_of_get hget
  · intro halive
    have halive : m.state.toWire = .alive := halive
    cases hs : m.state <;> simp_all [MemberState.toWire]

/-- Whatever the listener still doubts of the speaker, it doubted before. -/
lemma doubted (h : Told now p q q') (hp : p.Sane a) (hq : q.node.id = b) (hab : a ≠ b)
    (hget : q'.shared.table.get a = some m) (hstate : m.state ≠ .alive) :
    q.shared.table.get a = some m := by
  rw [h.get_speaker hp hq hab] at hget
  cases hbefore : q.shared.table.get a with
  | none =>
    rw [hbefore] at hget
    simp only [Register.offer] at hget
    split_ifs at hget
    obtain rfl := Option.some.inj hget
    exact absurd rfl hstate
  | some m₀ =>
    rw [hbefore] at hget
    simp only [Register.offer] at hget
    split_ifs at hget
    · obtain rfl := Option.some.inj hget
      exact absurd rfl hstate
    · exact hget

end Told

/-! ## What both sides hold -/

/-- The greater of two records by incarnation and rank. -/
def WireMember.greater : Option WireMember → Option WireMember → Option WireMember
  | some r, some r' => if r.key < r'.key then some r' else some r
  | some r, none => some r
  | none, r' => r'

/-- On first contact a record is taken over, unless it is of a death. -/
lemma offer_first_contact (now : Instant) (hip : m.addr.ip.isUnspecified = false) :
    m.state.isDead = true ∧ Register.offer entryRules none (WireMember.new m, now) = none ∨
      Register.offer entryRules none (WireMember.new m, now) =
        some ((WireMember.new m).toMember now) := by
  have hadm : (WireMember.new m).admissible = !m.state.isDead := WireMember.admissible_new hip
  cases hdead : m.state.isDead with
  | true =>
    rw [hdead] at hadm
    exact .inl ⟨rfl, Register.offer_none_of_not_admits entryRules hadm⟩
  | false =>
    rw [hdead] at hadm
    exact .inr (Register.offer_none_of_admits entryRules hadm)

/-- Two nodes that tell each other what they hold about a third agree, unless one of them
tells of a death the other has no entry for. -/
lemma offers_agree {e e' : Option Member} {now' : Instant}
    (hip : ∀ m, (e = some m ∨ e' = some m) → m.addr.ip.isUnspecified = false)
    (hsame : ∀ m m', e = some m → e' = some m' → m.id = m'.id ∧ m.addr = m'.addr ∧
      m.tags = m'.tags ∧ (m.incarnation = m'.incarnation → m.ready = m'.ready)) :
    let f := Register.offers entryRules e (e'.map fun m => (WireMember.new m, now)).toList
    let f' := Register.offers entryRules e' (e.map fun m => (WireMember.new m, now')).toList
    (f.map .new = WireMember.greater (e.map .new) (e'.map .new) ∧
      f'.map .new = WireMember.greater (e.map .new) (e'.map .new)) ∨
    (∃ m, f = some m ∧ m.state.isDead = true ∧ f' = none) ∨
    (∃ m, f' = some m ∧ m.state.isDead = true ∧ f = none) := by
  intro f f'
  -- who holds nothing takes over what he is told, unless it is a death
  cases e with
  | none =>
    cases e' with
    | none => exact .inl ⟨rfl, rfl⟩
    | some m' =>
      have hf' : f' = some m' := rfl
      rcases offer_first_contact now (hip m' (.inr rfl)) with ⟨hdead, hf⟩ | hf
      · exact .inr (.inr ⟨m', hf', hdead, hf⟩)
      · refine .inl ⟨?_, rfl⟩
        have hf : f = some ((WireMember.new m').toMember now) := hf
        rw [hf, Option.map_some, WireMember.new_toMember]
        rfl
  | some m =>
    cases e' with
    | none =>
      have hf : f = some m := rfl
      rcases offer_first_contact now' (hip m (.inl rfl)) with ⟨hdead, hf'⟩ | hf'
      · exact .inr (.inl ⟨m, hf, hdead, hf'⟩)
      · refine .inl ⟨rfl, ?_⟩
        have hf' : f' = some ((WireMember.new m).toMember now') := hf'
        rw [hf', Option.map_some, WireMember.new_toMember]
        rfl
    | some m' =>
      obtain ⟨hid, haddr, htags, hready⟩ := hsame m m' rfl rfl
      refine .inl ?_
      -- both hold one: the greater wins on both sides, and at equal keys the two read the same
      rcases lt_trichotomy m.key m'.key with hlt | heq | hgt
      · have hf : f = some (m.update now (.new m')) := Register.offer_some_of_lt entryRules hlt
        have hf' : f' = some m' := Register.offer_some_of_le entryRules (le_of_lt hlt)
        have hview : WireMember.new (m.update now (.new m')) = .new m' :=
          WireMember.new_update now hid.symm haddr.symm
        rw [hf, hf']
        simp [WireMember.greater, hlt, hview]
      · have hf : f = some m := Register.offer_some_of_le entryRules (le_of_eq heq.symm)
        have hf' : f' = some m' := Register.offer_some_of_le entryRules (le_of_eq heq)
        have hkey : (WireMember.new m).key = (WireMember.new m').key := heq
        obtain ⟨hi, hstate⟩ := WireMember.key_eq_iff.mp hkey
        have hnew : WireMember.new m = .new m' := by
          have hstate : m.state.toWire = m'.state.toWire := hstate
          have hi : m.incarnation = m'.incarnation := hi
          simp [WireMember.new, hid, haddr, htags, hi, hstate, hready hi]
        rw [hf, hf']
        simp [WireMember.greater, hnew]
      · have hf : f = some m := Register.offer_some_of_le entryRules (le_of_lt hgt)
        have hf' : f' = some (m'.update now' (.new m)) := Register.offer_some_of_lt entryRules hgt
        have hview : WireMember.new (m'.update now' (.new m)) = .new m :=
          WireMember.new_update now' hid haddr
        rw [hf, hf']
        simp [WireMember.greater, not_lt_of_gt hgt, hview]

/-! ## A round -/

/-- One complete round of sync from `a` to `b`, with no other step in between: `a` sends its
request, `b` serves it and replies, `a` absorbs the reply. -/
structure SyncRound (a b : NodeId) (request reply : TcpBody) (h h' : Trace) : Prop where
  round : ∃ (pa pb pa' : Process) (partner : Member) (conn : Conn) (n : ℕ) (asked served : Trace)
    (c₁ c₂ c₃ c₄ : Cluster),
    h.now.procs a = some pa ∧ pa.tasks .sync = some ⟨.sync, syncWith pa.node partner⟩ ∧
    Works a .sync h asked ∧
    Step asked.now (.op a .sync .sync (.writeRequest conn request) true) c₁ ∧
    Step c₁ (.accept b conn request) c₂ ∧
    c₂.procs b = some pb ∧
    pb.tasks (.spawned n) = some (Task.start pb.node (.serve conn request)) ∧
    Works b (.spawned n) ((asked.push (.op a .sync .sync (.writeRequest conn request) true)
      c₁).push (.accept b conn request) c₂) served ∧
    Step served.now (.op b (.spawned n) (.serve conn request) (.writeResponse conn reply) true) c₃ ∧
    Step c₃ (.op a .sync .sync (.readFrame conn) (some reply)) c₄ ∧
    Works a .sync ((served.push
      (.op b (.spawned n) (.serve conn request) (.writeResponse conn reply) true) c₃).push
      (.op a .sync .sync (.readFrame conn) (some reply)) c₄) h' ∧
    h'.now.procs a = some pa' ∧ pa'.tasks .sync = some ⟨.sync, .ret ()⟩

variable {h h' : Trace} {a b : NodeId} {request reply : TcpBody}

lemma Step.op_put {c c' : Cluster} {q : NodeId} {p : Process} {slot : Slot} {kind : Kind} {o : Op}
    {r : o.Res} (hstep : Step c (.op q slot kind o r) c') (hp : c.procs q = some p) :
    ∃ next shared, p.tasks slot = some ⟨kind, .step o next⟩ ∧
      o.Run p.node c.clock ⟨p.shared, c.net⟩ r ⟨shared, c'.net⟩ ∧
      c' = c.put q (p.at slot shared ⟨kind, next r⟩) c'.net := by
  obtain ⟨p', next, shared, net, hp', _, htask, hop, rfl⟩ := hstep.of_op
  obtain rfl := Option.some.inj (hp'.symm.trans hp)
  exact ⟨next, shared, htask, hop, rfl⟩

lemma Step.accept_put {c c' : Cluster} {q : NodeId} {conn : Conn} {body : TcpBody}
    (hstep : Step c (.accept q conn body) c') :
    ∃ p n net, c.procs q = some p ∧
      c' = c.put q (p.set (.spawned n) (some (Task.start p.node (.serve conn body)))) net := by
  cases hstep with
  | accept _ p n hp => exact ⟨p, n, _, by assumption, rfl⟩

lemma Process.step_of_tasks {p : Process} {slot : Slot} {shared : Shared} {kind : Kind}
    {prog prog' : Prog kind.Out}
    (h : (p.at slot shared ⟨kind, prog⟩).tasks slot = some ⟨kind, prog'⟩) : prog' = prog := by
  rw [tasks_at] at h
  obtain ⟨-, hprog⟩ := Task.mk.inj (Option.some.inj h)
  exact (eq_of_heq hprog).symm

section

variable {p p' : Process} {conn : Conn}

/-- The caller's first half: its request is what it holds, and it waits for the reply. -/
lemma Works.asks {partner : Member} {c : Cluster} (hp : h.now.procs a = some p)
    (htask : p.tasks .sync = some ⟨.sync, syncWith p.node partner⟩) (hasks : Works a .sync h h')
    (hwrite : Step h'.now (.op a .sync .sync (.writeRequest conn request) true) c) :
    ∃ (members : List Member) (shared : Shared) (rest : Option TcpBody → Prog Unit),
      members.Perm p.shared.table.members ∧
      request = .syncRequest (p.node.identity p.shared.guarded.current) (members.map .new) ∧
      shared.table = p.shared.table ∧ shared.guarded = p.shared.guarded ∧
      c = h.now.put a (p.at .sync shared ⟨.sync, .step (.readFrame conn) rest⟩) c.net ∧
      ∀ sender members, rest (some (.syncResponse sender members)) =
        absorb p.node sender members := by
  obtain ⟨prog, shared, hpath, hnow⟩ := hasks.path hp htask
  have hp' : h'.now.procs a = some (p.at .sync shared ⟨.sync, prog⟩) := by
    rw [hnow]; simp
  obtain ⟨next, shared', htask', hop, hput⟩ := hwrite.op_put hp'
  obtain rfl := Process.step_of_tasks htask'
  obtain ⟨members, hperm, hrequest, _, htable, hguarded, rest, hnext, hrest⟩ :=
    path_syncWith hpath
  have hshared : shared' = shared := (World.mk.inj hop).1
  refine ⟨members, shared', rest, hperm, hrequest, ?_, ?_, ?_, hrest⟩
  · rw [hshared]; exact htable
  · rw [hshared]; exact hguarded
  · rw [hput, hnow, hnext]
    simp

/-- The server's part: its reply is what it held, and it has absorbed the request. -/
lemma Works.serves {n : ℕ} {sender : WireIdentity} {members : List WireMember} {c : Cluster}
    (hp : h.now.procs b = some p)
    (htask : p.tasks (.spawned n) =
      some (Task.start p.node (.serve conn (.syncRequest sender members))))
    (hserves : Works b (.spawned n) h h')
    (hreply : Step h'.now (.op b (.spawned n) (.serve conn (.syncRequest sender members))
      (.writeResponse conn reply) true) c) :
    ∃ (ours : List Member) (p' : Process) (net : List Packet),
      ours.Perm p.shared.table.members ∧
      reply = .syncResponse (p.node.identity p.shared.guarded.current) (ours.map .new) ∧
      c = h.now.put b p' c.net ∧
      Absorbed p.node h.now.clock (sender.intoMember :: members) ⟨p.shared, net⟩
        ⟨p'.shared, net⟩ := by
  obtain ⟨prog, shared, hpath, hnow⟩ := hserves.path hp htask
  have hp' : h'.now.procs b = some (p.at (.spawned n) shared
      ⟨.serve conn (.syncRequest sender members), prog⟩) := by
    rw [hnow]; simp
  obtain ⟨next, shared', htask', hop, hput⟩ := hreply.op_put hp'
  obtain rfl := Process.step_of_tasks htask'
  obtain ⟨ours, hperm, hreply, habsorbed⟩ := path_serve hpath
  have hshared : shared' = shared := (World.mk.inj hop).1
  rw [hnow, Cluster.put_put, Process.at_at] at hput
  refine ⟨ours, _, h.now.net, hperm, hreply, hput, ?_⟩
  have hnet : h'.now.net = h.now.net := habsorbed.net
  rw [hnet] at habsorbed
  rw [← hshared] at habsorbed
  exact habsorbed

/-- The caller's second half: it has absorbed the reply. -/
lemma Works.hears {c c' : Cluster} {shared : Shared} {rest : Option TcpBody → Prog Unit}
    {l : Label} {sender : WireIdentity} {members : List WireMember}
    (hp : c.procs a = some (p.at .sync shared ⟨.sync, .step (.readFrame conn) rest⟩))
    (hrest : rest (some (.syncResponse sender members)) = absorb p.node sender members)
    (hreads : Step c (.op a .sync .sync (.readFrame conn) (some (.syncResponse sender members))) c')
    (habsorbs : Works a .sync (h.push l c') h') (hp' : h'.now.procs a = some p')
    (hdone : p'.tasks .sync = some ⟨.sync, .ret ()⟩) :
    ∃ net, h'.now = c.put a p' h'.now.net ∧
      Absorbed p.node c.clock (sender.intoMember :: members) ⟨shared, net⟩ ⟨p'.shared, net⟩ := by
  obtain ⟨next, shared₁, htask₁, hop₁, hput₁⟩ := hreads.op_put hp
  have hnext : next = rest := by
    have hstep := Process.step_of_tasks htask₁
    injection hstep
  subst hnext
  have hshared₁ : shared₁ = shared := (World.mk.inj hop₁.2).1
  rw [hrest, hshared₁, Process.at_at] at hput₁
  have hnow : (h.push l c').now.procs a = some (p.at .sync shared
      ⟨.sync, absorb p.node sender members⟩) := by
    rw [History.now_push, hput₁]; simp
  obtain ⟨prog₂, shared₂, hpath, hput₂⟩ := habsorbs.path hnow (Process.tasks_at ..)
  have hp₂ : p' = p.at .sync shared₂ ⟨.sync, prog₂⟩ := by
    rw [hput₂] at hp'
    simpa using hp'.symm
  subst hp₂
  obtain rfl := Process.step_of_tasks hdone
  have habsorbed := exec_absorb hpath.exec
  have hnet : h'.now.net = (h.push l c').now.net := habsorbed.net
  rw [hnet] at habsorbed
  refine ⟨(h.push l c').now.net, ?_, ?_⟩
  · rw [hput₂, History.now_push, hput₁]
    simp
  · have hclock : (h.push l c').now.clock = c.clock := by
      rw [History.now_push, hput₁]; rfl
    rw [hclock] at habsorbed
    exact habsorbed

end

/-- What a round does to the two nodes. -/
lemma SyncRound.told (hround : SyncRound a b request reply h h') (hab : a ≠ b) :
    ∃ pa pb pa' pb' : Process, h.now.procs a = some pa ∧ h.now.procs b = some pb ∧
      h'.now.procs a = some pa' ∧ h'.now.procs b = some pb' ∧
      Told h.now.clock pa pb pb' ∧ Told h.now.clock pb pa pa' ∧
      request.sender = some (pa.node.identity pa.shared.guarded.current) ∧
      reply.sender = some (pb.node.identity pb.shared.guarded.current) := by
  obtain ⟨pa, pb₂, pa', partner, conn, n, asked, served, c₁, c₂, c₃, c₄, hpa, htask, hasks,
    hwrite, haccept, hpb₂, hspawned, hserves, hreply, hreads, habsorbs, hpa', hdone⟩ := hround
  obtain ⟨members, shared, rest, hmembers, rfl, htable, hguarded, hc₁, hrest⟩ :=
    hasks.asks hpa htask hwrite
  obtain ⟨pb, n', net, hpb, hc₂⟩ := haccept.accept_put
  have hset := hpb₂
  rw [hc₂, Cluster.procs_put, if_pos rfl] at hset
  obtain rfl := Option.some.inj hset
  have hpb' : h.now.procs b = some pb := by
    rw [hc₁] at hpb
    simpa [hab.symm] using hpb
  obtain ⟨ours, pb', net', hours, rfl, hc₃, hserved⟩ := hserves.serves hpb₂ hspawned hreply
  have hwaits : c₃.procs a = some (pa.at .sync shared ⟨.sync, .step (.readFrame conn) rest⟩) := by
    rw [hc₃, History.now_push, hc₂, hc₁]
    simp [hab]
  obtain ⟨net'', hnow, hheard⟩ := habsorbs.hears hwaits (hrest _ _) hreads hpa' hdone
  have hclock₂ : c₂.clock = h.now.clock := by rw [hc₂, hc₁]; rfl
  have hclock₃ : c₃.clock = h.now.clock := by rw [hc₃, History.now_push]; exact hclock₂
  refine ⟨pa, pb, pa', pb', hpa, hpb', hpa', ?_, ?_, ?_, rfl, rfl⟩
  · rw [hnow, hc₃]
    simp [hab.symm]
  · rw [History.now_push, hclock₂] at hserved
    exact ⟨members, net', hmembers, hserved⟩
  · rw [hclock₃] at hheard
    exact ⟨ours, net'', hours, hheard.congr htable hguarded⟩

end Dalila
