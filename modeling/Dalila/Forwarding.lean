import Dalila.Absorb
import Dalila.MergeOrder

/-!
# The addresses a node passes on

The table keeps the address it first learned, the queue keeps each rumor's own. `Turn` is one thing
the node does at a time. The file proves that in a sequence of turns in which every rumor that
changes an entry agrees with it about the address, the queue holds the table's addresses
(`passes_on_known_addresses`), and shows a rumor that does not.
-/

namespace Dalila

open Program
open MemberTable (sampleRumor)

/-- What a node is made to do, one thing after another. -/
inductive Turn where
  | apply (rumor : WireMember)
  | take
  | snapshot
  | respond (body : TcpBody)
  | sweep
  | reap
deriving DecidableEq, Repr

/-- The records about members in a reply. -/
def TcpBody.members : TcpBody → List WireMember
  | .joinResponse _ members => members
  | .membersResponse _ members => members
  | .syncRequest _ members => members
  | .syncResponse _ members => members
  | .joinRequest _ | .membersRequest => []

/-- The program of a turn, and the records it puts on the wire. -/
def Turn.prog (node : LocalNode) : Turn → Prog (List WireMember)
  | .apply rumor => do
    let _ ← Dalila.apply node rumor
    pure []
  | .take => Op.call .take
  | .snapshot => do
    let members ← Op.call .snapshot
    pure (members.map WireMember.new)
  | .respond body => do
    let reply ← Dalila.respond node body
    pure ((reply.map TcpBody.members).getD [])
  | .sweep => do
    sweepSuspects node
    pure []
  | .reap => do
    reapDead
    pure []

/-- A rumor that changes an entry names the entry's address. -/
def Op.Agrees (w : World) : Op → Prop
  | .merge rumor _ => ∀ entry, w.shared.table.get rumor.id = some entry →
      supersedes rumor entry = true → rumor.addr = entry.addr
  | _ => True

/-- Does the turn merge rumors it is given, not the node's own findings? -/
def Turn.given : Turn → Bool
  | .apply _ | .respond _ => true
  | _ => false

/-- What operations do in a turn. -/
abbrev Turn.runs (node : LocalNode) (_turn : Turn) (now : Instant) (o : Op) (w : World)
    (r : o.Res) (w' : World) : Prop :=
  Op.Run node now o w r w'

/-- The operations of a turn, where every rumor given agrees with the table. -/
abbrev Turn.runsAgreed (node : LocalNode) (turn : Turn) (now : Instant) (o : Op) (w : World)
    (r : o.Res) (w' : World) : Prop :=
  Op.Run node now o w r w' ∧ (turn.given = true → o.Agrees w)

/-- Where turn after turn leads from `w₀`. -/
inductive Serves (node : LocalNode)
    (runs : Turn → Instant → ∀ o : Op, World → o.Res → World → Prop) (w₀ : World) :
    World → Prop where
  | start : Serves node runs w₀ w₀
  | turn {w w' : World} {turn : Turn} {now : Instant} {sent : List WireMember}
      (h : Serves node runs w₀ w) (hturn : Exec (runs turn now) (turn.prog node) w sent w') :
      Serves node runs w₀ w'

variable {node : LocalNode} {now : Instant} {w w' w₀ : World} {rumor : WireMember}
  {id : NodeId} {entry : Member}

/-! ## Entries keep their address -/

/-- Every entry has an address somebody can connect to. -/
def MemberTable.Reachable (table : MemberTable) : Prop :=
  ∀ id entry, table.get id = some entry → entry.addr.ip.isUnspecified = false

/-- Entries stay, under the address they have. -/
def MemberTable.Retains (table table' : MemberTable) : Prop :=
  ∀ id entry, table.get id = some entry → ∃ entry', table'.get id = some entry' ∧
    entry'.addr = entry.addr

namespace MemberTable

lemma Retains.refl (table : MemberTable) : table.Retains table :=
  fun _ entry hget => ⟨entry, hget, rfl⟩

lemma Retains.trans {a b c : MemberTable} (h : a.Retains b) (h' : b.Retains c) : a.Retains c := by
  intro id entry hget
  obtain ⟨entry', hget', haddr⟩ := h id entry hget
  obtain ⟨entry'', hget'', haddr'⟩ := h' id entry' hget'
  exact ⟨entry'', hget'', haddr'.trans haddr⟩

/-- A merge keeps the addresses of the entries there are. -/
lemma retains_merge (table : MemberTable) (now : Instant) (rumor : WireMember) (me : NodeId) :
    table.Retains (table.merge now rumor me).2 := by
  have hspec := table.merge_spec now rumor me
  generalize (table.merge now rumor me).1 = outcome at hspec
  generalize (table.merge now rumor me).2 = table' at hspec ⊢
  cases hspec with
  | own | doubted | refused | stale => exact .refl table
  | added _ hnone _ =>
    intro id entry hget
    refine ⟨entry, ?_, rfl⟩
    have hne : id ≠ (rumor.toMember now).id := by
      rintro rfl
      exact absurd (hget.symm.trans hnone) (by simp)
    rw [get_put, if_neg hne]
    exact hget
  | updated _ member hmember _ =>
    intro id entry hget
    have hmid : (member.update now rumor).id = member.id := rfl
    rw [get_put, hmid]
    split_ifs with hid
    · rw [hid, id_of_get hmember, hmember] at hget
      obtain rfl := Option.some.inj hget
      exact ⟨_, rfl, rfl⟩
    · exact ⟨entry, hget, rfl⟩

lemma retains_mergeAll (table : MemberTable) (me : NodeId)
    (rumors : List (WireMember × Instant)) : table.Retains (table.mergeAll me rumors) := by
  induction rumors generalizing table with
  | nil => exact .refl table
  | cons rumor rumors ih => exact (table.retains_merge rumor.2 rumor.1 me).trans (ih _)

/-- No entry is made under an address nobody can connect to. -/
lemma reachable_merge {table : MemberTable} (h : table.Reachable) (now : Instant)
    (rumor : WireMember) (me : NodeId) : (table.merge now rumor me).2.Reachable := by
  have hspec := table.merge_spec now rumor me
  generalize (table.merge now rumor me).1 = outcome at hspec
  generalize (table.merge now rumor me).2 = table' at hspec ⊢
  cases hspec with
  | own | doubted | refused | stale => exact h
  | added _ _ hadm =>
    intro id entry hget
    rw [get_put] at hget
    split_ifs at hget with hid
    · obtain rfl := Option.some.inj hget
      unfold WireMember.admissible at hadm
      rw [Bool.and_eq_true, Bool.not_eq_true'] at hadm
      exact hadm.1
    · exact h id entry hget
  | updated _ member hmember _ =>
    intro id entry hget
    rw [get_put] at hget
    split_ifs at hget with hid
    · obtain rfl := Option.some.inj hget
      exact h _ member hmember
    · exact h id entry hget

lemma reachable_mergeAll {table : MemberTable} (h : table.Reachable) (me : NodeId)
    (rumors : List (WireMember × Instant)) : (table.mergeAll me rumors).Reachable := by
  induction rumors generalizing table with
  | nil => exact h
  | cons rumor rumors ih => exact ih (reachable_merge h rumor.2 rumor.1 me)

lemma reachable_remove {table : MemberTable} (h : table.Reachable) (ids : List NodeId) :
    (table.remove ids).Reachable := by
  intro id entry hget
  rw [get_remove] at hget
  split_ifs at hget
  exact h id entry hget

end MemberTable

/-! ## What a turn leaves of the table -/

/-- The table is as before, but for some rumors merged into it. -/
def MergesOnly (node : LocalNode) (w w' : World) : Prop :=
  ∃ rumors, w'.shared.table = w.shared.table.mergeAll node.id rumors

lemma MergesOnly.trans {w'' : World} (h : MergesOnly node w w') (h' : MergesOnly node w' w'') :
    MergesOnly node w w'' := by
  obtain ⟨rumors, htable⟩ := h
  obtain ⟨rumors', htable'⟩ := h'
  refine ⟨rumors ++ rumors', ?_⟩
  rw [htable', htable]
  simp [MemberTable.mergeAll]

/-- The loop of `sweep_suspects` merges one rumor after another. -/
lemma exec_declareDead {members : List Member} {out : Unit}
    (h : Exec (Op.Run node now) (declareDead node members) w out w') : MergesOnly node w w' := by
  induction members generalizing w with
  | nil =>
    obtain ⟨_, rfl⟩ := exec_pure.mp h
    exact ⟨[], rfl⟩
  | cons member members ih =>
    obtain ⟨_, w₁, hmark, hrest⟩ := exec_bind.mp h
    obtain ⟨_, w₂, happly, hret⟩ := exec_bind.mp hmark
    obtain ⟨_, rfl⟩ := exec_pure.mp hret
    have hfirst : MergesOnly node w w₁ := ⟨_, (exec_apply happly).table⟩
    exact hfirst.trans (ih hrest)

/-- A reply merges what the request brought, and lists the table from before. -/
lemma exec_respond {body : TcpBody} {reply : Option TcpBody}
    (h : Exec (Op.Run node now) (respond node body) w reply w') :
    MergesOnly node w w' ∧ ∀ record ∈ (reply.map TcpBody.members).getD [],
      ∃ member ∈ w.shared.table.members, record = WireMember.new member := by
  have hlisted : ∀ {members : List Member} {w₀ : World},
      members.Perm w₀.shared.table.members → ∀ record ∈ members.map WireMember.new,
        ∃ member ∈ w₀.shared.table.members, record = WireMember.new member := by
    intro members w₀ hperm record hrecord
    obtain ⟨member, hmember, rfl⟩ := List.mem_map.mp hrecord
    exact ⟨member, hperm.mem_iff.mp hmember, rfl⟩
  cases body with
  | joinRequest sender =>
    obtain ⟨answer, w₁, hhandle, hret⟩ := exec_bind.mp h
    obtain ⟨hreply, hend⟩ := exec_pure.mp hret
    obtain ⟨members, w₂, ⟨hperm, hsame⟩, hhandle₁⟩ := exec_call_bind.mp hhandle
    obtain ⟨_, w₃, happly, hhandle₂⟩ := exec_bind.mp hhandle₁
    obtain ⟨current, w₄, ⟨_, hsame'⟩, hhandle₃⟩ := exec_call_bind.mp hhandle₂
    obtain ⟨hanswer, hend'⟩ := exec_pure.mp hhandle₃
    have htable := (exec_apply happly).table
    rw [hsame] at htable
    rw [hreply, hend, hend', hsame', hanswer]
    exact ⟨⟨_, htable⟩, hlisted hperm⟩
  | membersRequest =>
    obtain ⟨current, w₁, ⟨_, hsame⟩, h₁⟩ := exec_call_bind.mp h
    obtain ⟨members, w₂, ⟨hperm, hsame'⟩, h₂⟩ := exec_call_bind.mp h₁
    obtain ⟨hreply, hend⟩ := exec_pure.mp h₂
    rw [hsame] at hperm
    rw [hreply, hend, hsame', hsame]
    exact ⟨⟨[], rfl⟩, hlisted hperm⟩
  | syncRequest sender members =>
    obtain ⟨current, w₁, ⟨_, hsame⟩, h₁⟩ := exec_call_bind.mp h
    obtain ⟨ours, w₂, ⟨hperm, hsame'⟩, h₂⟩ := exec_call_bind.mp h₁
    obtain ⟨_, w₃, habsorb, h₃⟩ := exec_bind.mp h₂
    obtain ⟨hreply, hend⟩ := exec_pure.mp h₃
    have htable := (exec_absorb habsorb).table
    rw [hsame', hsame] at htable
    rw [hsame] at hperm
    rw [hreply, hend]
    exact ⟨⟨_, htable⟩, hlisted hperm⟩
  | joinResponse | membersResponse | syncResponse =>
    obtain ⟨hreply, hend⟩ := exec_pure.mp h
    rw [hreply, hend]
    exact ⟨⟨[], rfl⟩, by simp⟩

/-- Reaping only removes. -/
lemma exec_reapDead {out : Unit} (h : Exec (Op.Run node now) reapDead w out w') :
    ∃ ids, w' = { w with shared := { w.shared with table := w.shared.table.remove ids } } := by
  obtain ⟨expired, w₁, ⟨_, hsame⟩, h₁⟩ := exec_call_bind.mp h
  have h₂ : Exec (Op.Run node now) (if (expired.map Member.id).isEmpty then pure ()
      else Op.call (.remove (expired.map Member.id))) w₁ out w' := h₁
  rw [hsame] at h₂
  split_ifs at h₂
  · obtain ⟨_, hend⟩ := exec_pure.mp h₂
    refine ⟨[], ?_⟩
    rw [hend]
    simp [MemberTable.remove]
  · have hremoved := exec_call.mp h₂
    exact ⟨_, hremoved⟩

/-- A turn merges rumors into the table, or drops members from it. -/
lemma Turn.exec_table {turn : Turn} {sent : List WireMember}
    (h : Exec (Op.Run node now) (turn.prog node) w sent w') :
    MergesOnly node w w' ∨ ∃ ids, w'.shared.table = w.shared.table.remove ids := by
  cases turn with
  | apply rumor =>
    obtain ⟨_, w₁, happly, hret⟩ := exec_bind.mp h
    obtain ⟨_, rfl⟩ := exec_pure.mp hret
    exact .inl ⟨_, (exec_apply happly).table⟩
  | take =>
    obtain ⟨_, rfl⟩ := exec_call.mp h
    exact .inl ⟨[], rfl⟩
  | snapshot =>
    obtain ⟨_, _, ⟨_, rfl⟩, hret⟩ := exec_call_bind.mp h
    obtain ⟨_, rfl⟩ := exec_pure.mp hret
    exact .inl ⟨[], rfl⟩
  | respond body =>
    obtain ⟨_, w₁, hrespond, hret⟩ := exec_bind.mp h
    obtain ⟨_, rfl⟩ := exec_pure.mp hret
    exact .inl (exec_respond hrespond).1
  | sweep =>
    obtain ⟨_, w₁, hsweep, hret⟩ := exec_bind.mp h
    obtain ⟨_, hend⟩ := exec_pure.mp hret
    rw [hend]
    obtain ⟨expired, w₂, ⟨_, hsame⟩, hloop⟩ := exec_call_bind.mp hsweep
    rw [hsame] at hloop
    exact .inl (exec_declareDead hloop)
  | reap =>
    obtain ⟨_, w₁, hreap, hret⟩ := exec_bind.mp h
    obtain ⟨_, rfl⟩ := exec_pure.mp hret
    obtain ⟨ids, hremoved⟩ := exec_reapDead hreap
    exact .inr ⟨ids, by rw [hremoved]⟩

/-- No turn makes an entry nobody could connect to, or changes an address. -/
lemma Turn.exec_addresses {turn : Turn} {sent : List WireMember}
    (h : Exec (Op.Run node now) (turn.prog node) w sent w') :
    (w.shared.table.Reachable → w'.shared.table.Reachable) ∧
      ∀ id entry entry', w.shared.table.get id = some entry →
        w'.shared.table.get id = some entry' → entry'.addr = entry.addr := by
  rcases Turn.exec_table h with ⟨rumors, htable⟩ | ⟨ids, htable⟩
  · rw [htable]
    refine ⟨fun hreach => MemberTable.reachable_mergeAll hreach _ _, ?_⟩
    intro id entry entry' hget hget'
    obtain ⟨kept, hkept, haddr⟩ := w.shared.table.retains_mergeAll node.id rumors id entry hget
    rw [← Option.some.inj (hkept.symm.trans hget')]
    exact haddr
  · rw [htable]
    refine ⟨fun hreach => MemberTable.reachable_remove hreach _, ?_⟩
    intro id entry entry' hget hget'
    rw [MemberTable.get_remove] at hget'
    split_ifs at hget'
    rw [← Option.some.inj (hget.symm.trans hget')]

/-! ## What a turn leaves of the queue -/

/-- A record about another node names an address somebody can connect to, and the one the
table knows. -/
def Known (node : LocalNode) (table : MemberTable) (record : WireMember) : Prop :=
  record.id ≠ node.id → record.addr.ip.isUnspecified = false ∧
    ∀ entry, table.get record.id = some entry → record.addr = entry.addr

/-- Everything in the queue is known that way. -/
structure Trusts (node : LocalNode) (w : World) : Prop where
  reachable : w.shared.table.Reachable
  queued : ∀ pending ∈ w.shared.queue, Known node w.shared.table pending.rumor

/-- A record stays known as long as its entry stays as it is. -/
lemma Known.of_get {table table' : MemberTable} {record : WireMember}
    (h : Known node table record) (hsame : table'.get record.id = table.get record.id) :
    Known node table' record := by
  unfold Known at h ⊢
  rw [hsame]
  exact h

lemma known_of_mem {table : MemberTable} (hreach : table.Reachable) {member : Member}
    (hmember : member ∈ table.members) : Known node table (WireMember.new member) := by
  have hget := MemberTable.get_of_mem hmember
  refine fun _ => ⟨hreach member.id member hget, fun entry hentry => ?_⟩
  rw [← Option.some.inj (hget.symm.trans hentry)]
  rfl

/-- A record stays known in a table that retains its entries, if it had an entry. -/
lemma Known.of_retains {table table' : MemberTable} {record : WireMember}
    (h : Known node table record) (hretains : table.Retains table')
    (hentry : (table.get record.id).isSome) : Known node table' record := by
  intro hother
  obtain ⟨hspecified, haddr⟩ := h hother
  obtain ⟨entry, hget⟩ := Option.isSome_iff_exists.mp hentry
  obtain ⟨kept, hkept, hsame⟩ := hretains record.id entry hget
  refine ⟨hspecified, fun entry' hget' => ?_⟩
  rw [← Option.some.inj (hkept.symm.trans hget'), hsame]
  exact haddr entry hget

/-- Applying a rumor that agrees with the table keeps the queue in agreement with it. -/
lemma exec_apply_trusts {outcome : MergeOutcome}
    (h : Exec (Op.Run node now) (apply node rumor) w outcome w')
    (hagrees : (Op.merge rumor node.id).Agrees w) (htrusts : Trusts node w) : Trusts node w' := by
  obtain ⟨hout, happlied⟩ := exec_apply_iff.mp h
  have hspec := w.shared.table.merge_spec now rumor node.id
  have hreach := MemberTable.reachable_merge htrusts.reachable now rumor node.id
  have hretains := w.shared.table.retains_merge now rumor node.id
  have hother : ∀ id, id ≠ rumor.id →
      (w.shared.table.merge now rumor node.id).2.get id = w.shared.table.get id := by
    intro id hid
    rw [MemberTable.get_merge, if_neg (by simp [hid])]
  rw [hout] at hspec
  generalize (w.shared.table.merge now rumor node.id).2 = table
    at hspec hreach hretains hother happlied
  cases happlied with
  | ignored =>
    have hsame : table = w.shared.table := by cases hspec <;> rfl
    refine ⟨hreach, fun pending hpending => ?_⟩
    show Known node table pending.rumor
    rw [hsame]
    exact htrusts.queued pending hpending
  | queued hnews =>
    have hknown : Known node table rumor := by
      cases hspec with
      | own | doubted | refused | stale => simp at hnews
      | added =>
        intro _
        have hget : (w.shared.table.put (rumor.toMember now)).get rumor.id =
            some (rumor.toMember now) := by
          rw [MemberTable.get_put]
          exact if_pos rfl
        refine ⟨hreach rumor.id _ hget, fun entry hentry => ?_⟩
        rw [← Option.some.inj (hget.symm.trans hentry)]
        rfl
      | updated _ member hget hkey =>
        have haddr : rumor.addr = member.addr := hagrees member hget (decide_eq_true hkey)
        have hbefore : Known node w.shared.table rumor := by
          intro _
          refine ⟨haddr ▸ htrusts.reachable _ member hget, fun entry hentry => ?_⟩
          rw [← Option.some.inj (hget.symm.trans hentry), haddr]
        exact hbefore.of_retains hretains (by rw [hget]; rfl)
    -- it takes the place of whatever was queued about it
    refine ⟨hreach, fun pending hpending => ?_⟩
    rcases List.mem_append.mp hpending with hold | hnew
    · obtain ⟨hold, hid⟩ := List.mem_filter.mp hold
      exact (htrusts.queued pending hold).of_get (hother _ (by simpa using hid))
    · rw [List.mem_singleton.mp hnew]
      exact hknown
  | unanswered =>
    cases hspec with
    | doubted => exact ⟨hreach, htrusts.queued⟩
  | answered =>
    cases hspec with
    | doubted =>
      refine ⟨hreach, fun pending hpending => ?_⟩
      rcases GossipQueue.mem_push hpending with hold | hown
      · exact htrusts.queued pending hold
      · rw [hown]
        exact fun hne => absurd rfl hne

/-- What operations do where every rumor merged agrees with the table. -/
abbrev agreed (node : LocalNode) (now : Instant) (o : Op) (w : World) (r : o.Res) (w' : World) :
    Prop :=
  Op.Run node now o w r w' ∧ o.Agrees w

/-- A rumor that names the entry's address may be queued as it is. -/
lemma exec_apply_agreed {outcome : MergeOutcome}
    (h : Exec (agreed node now) (apply node rumor) w outcome w') (htrusts : Trusts node w) :
    Trusts node w' := by
  obtain ⟨_, _, ⟨_, hagrees⟩, _⟩ := exec_call_bind.mp h
  exact exec_apply_trusts (h.mono fun _ _ _ _ hrun => hrun.1) hagrees htrusts

lemma exec_applyAll_agreed {rumors : List WireMember} {out : Unit}
    (h : Exec (agreed node now) (applyAll node rumors) w out w') (htrusts : Trusts node w) :
    Trusts node w' := by
  induction rumors generalizing w with
  | nil =>
    obtain ⟨_, rfl⟩ := exec_pure.mp h
    exact htrusts
  | cons rumor rumors ih =>
    obtain ⟨_, w₁, hfirst, hrest⟩ := exec_bind.mp h
    exact ih hrest (exec_apply_agreed hfirst htrusts)

lemma exec_respond_agreed {body : TcpBody} {reply : Option TcpBody}
    (h : Exec (agreed node now) (respond node body) w reply w') (htrusts : Trusts node w) :
    Trusts node w' := by
  cases body with
  | joinRequest sender =>
    obtain ⟨answer, w₁, hhandle, hret⟩ := exec_bind.mp h
    obtain ⟨_, hend⟩ := exec_pure.mp hret
    obtain ⟨members, w₂, ⟨⟨_, hsame⟩, _⟩, hhandle₁⟩ := exec_call_bind.mp hhandle
    obtain ⟨_, w₃, happly, hhandle₂⟩ := exec_bind.mp hhandle₁
    obtain ⟨current, w₄, ⟨⟨_, hsame'⟩, _⟩, hhandle₃⟩ := exec_call_bind.mp hhandle₂
    obtain ⟨_, hend'⟩ := exec_pure.mp hhandle₃
    rw [hend, hend', hsame']
    rw [hsame] at happly
    exact exec_apply_agreed happly htrusts
  | membersRequest =>
    obtain ⟨current, w₁, ⟨⟨_, hsame⟩, _⟩, h₁⟩ := exec_call_bind.mp h
    obtain ⟨members, w₂, ⟨⟨_, hsame'⟩, _⟩, h₂⟩ := exec_call_bind.mp h₁
    obtain ⟨_, hend⟩ := exec_pure.mp h₂
    rw [hend, hsame', hsame]
    exact htrusts
  | syncRequest sender members =>
    obtain ⟨current, w₁, ⟨⟨_, hsame⟩, _⟩, h₁⟩ := exec_call_bind.mp h
    obtain ⟨ours, w₂, ⟨⟨_, hsame'⟩, _⟩, h₂⟩ := exec_call_bind.mp h₁
    obtain ⟨_, w₃, habsorb, h₃⟩ := exec_bind.mp h₂
    obtain ⟨_, hend⟩ := exec_pure.mp h₃
    rw [hsame', hsame] at habsorb
    obtain ⟨_, w₄, hfirst, hrest⟩ := exec_bind.mp habsorb
    rw [hend]
    exact exec_applyAll_agreed hrest (exec_apply_agreed hfirst htrusts)
  | joinResponse | membersResponse | syncResponse =>
    obtain ⟨_, hend⟩ := exec_pure.mp h
    rw [hend]
    exact htrusts

/-- The node's own findings agree with the table by themselves. -/
lemma exec_declareDead_trusts {members : List Member} {out : Unit}
    (h : Exec (Op.Run node now) (declareDead node members) w out w')
    (hmembers : ∀ member ∈ members, ∃ entry, w.shared.table.get member.id = some entry ∧
      entry.addr = member.addr) (htrusts : Trusts node w) : Trusts node w' := by
  induction members generalizing w with
  | nil =>
    obtain ⟨_, rfl⟩ := exec_pure.mp h
    exact htrusts
  | cons member members ih =>
    obtain ⟨_, w₁, hmark, hrest⟩ := exec_bind.mp h
    obtain ⟨_, w₂, happly, hret⟩ := exec_bind.mp hmark
    obtain ⟨_, rfl⟩ := exec_pure.mp hret
    obtain ⟨entry, hget, haddr⟩ := hmembers member (by simp)
    refine ih hrest (fun member' hmember' => ?_) (exec_apply_trusts happly ?_ htrusts)
    · obtain ⟨entry', hget', haddr'⟩ := hmembers member' (by simp [hmember'])
      obtain ⟨kept, hkept, hsame⟩ :=
        w.shared.table.retains_mergeAll node.id _ member'.id entry' hget'
      rw [(exec_apply happly).table]
      exact ⟨kept, hkept, hsame.trans haddr'⟩
    · intro entry' hget' _
      rw [← Option.some.inj (hget.symm.trans hget'), haddr]
      rfl

lemma Trusts.take (htrusts : Trusts node w) :
    Trusts node { w with shared := { w.shared with queue := w.shared.queue.take.2 } } := by
  refine ⟨htrusts.reachable, fun pending hpending => ?_⟩
  obtain ⟨pending', hpending', hsame⟩ := GossipQueue.exists_mem_of_mem_take_snd hpending
  have hknown : Known node w.shared.table pending'.rumor := htrusts.queued pending' hpending'
  rw [hsame] at hknown
  exact hknown

lemma Trusts.remove (htrusts : Trusts node w) (ids : List NodeId) :
    Trusts node { w with shared := { w.shared with table := w.shared.table.remove ids } } := by
  refine ⟨MemberTable.reachable_remove htrusts.reachable ids, fun pending hpending hother => ?_⟩
  obtain ⟨hspecified, haddr⟩ := htrusts.queued pending hpending hother
  refine ⟨hspecified, fun entry hget => ?_⟩
  have hget : (w.shared.table.remove ids).get pending.rumor.id = some entry := hget
  rw [MemberTable.get_remove] at hget
  split_ifs at hget
  exact haddr entry hget

/-- A turn keeps the queue in agreement with the table, and so is what it sends. -/
lemma Turn.exec_trusts {turn : Turn} {sent : List WireMember}
    (h : Exec (turn.runsAgreed node now) (turn.prog node) w sent w') (htrusts : Trusts node w) :
    Trusts node w' ∧ ∀ record ∈ sent, Known node w'.shared.table record := by
  have hrun : Exec (Op.Run node now) (turn.prog node) w sent w' :=
    h.mono fun _ _ _ _ hrun => hrun.1
  have hgiven : turn.given = true → Exec (agreed node now) (turn.prog node) w sent w' :=
    fun hgiven => h.mono fun _ _ _ _ hrun => ⟨hrun.1, hrun.2 hgiven⟩
  -- only `apply` and `respond` bring in records, and theirs agree with the table by assumption
  cases turn with
  | apply rumor =>
    obtain ⟨_, w₁, happly, hret⟩ := exec_bind.mp (hgiven rfl)
    obtain ⟨rfl, rfl⟩ := exec_pure.mp hret
    exact ⟨exec_apply_agreed happly htrusts, by simp⟩
  | take =>
    obtain ⟨hsent, hend⟩ := exec_call.mp hrun
    rw [hsent, hend]
    refine ⟨htrusts.take, fun record hrecord => ?_⟩
    obtain ⟨pending, hpending, rfl⟩ := GossipQueue.exists_mem_of_mem_take_fst hrecord
    exact htrusts.queued pending hpending
  | snapshot =>
    obtain ⟨members, w₁, ⟨hperm, hsame⟩, hret⟩ := exec_call_bind.mp hrun
    obtain ⟨hsent, hend⟩ := exec_pure.mp hret
    rw [hsent, hend, hsame]
    refine ⟨htrusts, fun record hrecord => ?_⟩
    obtain ⟨member, hmember, rfl⟩ := List.mem_map.mp hrecord
    exact known_of_mem htrusts.reachable (hperm.mem_iff.mp hmember)
  | respond body =>
    obtain ⟨reply, w₁, hrespond, hret⟩ := exec_bind.mp (hgiven rfl)
    obtain ⟨hsent, hend⟩ := exec_pure.mp hret
    rw [hsent, hend]
    obtain ⟨⟨rumors, htable⟩, hlisted⟩ := exec_respond (hrespond.mono fun _ _ _ _ hrun => hrun.1)
    refine ⟨exec_respond_agreed hrespond htrusts, fun record hrecord => ?_⟩
    obtain ⟨member, hmember, rfl⟩ := hlisted record hrecord
    have hentry : (w.shared.table.get (WireMember.new member).id).isSome := by
      rw [show (WireMember.new member).id = member.id from rfl, MemberTable.get_of_mem hmember]
      rfl
    rw [htable]
    exact (known_of_mem htrusts.reachable hmember).of_retains
      (w.shared.table.retains_mergeAll node.id rumors) hentry
  | sweep =>
    obtain ⟨_, w₁, hsweep, hret⟩ := exec_bind.mp hrun
    obtain ⟨hsent, hend⟩ := exec_pure.mp hret
    obtain ⟨expired, w₂, ⟨hperm, hsame⟩, hloop⟩ := exec_call_bind.mp hsweep
    rw [hsame] at hloop
    rw [hsent, hend]
    refine ⟨exec_declareDead_trusts hloop (fun member hmember => ?_) htrusts, by simp⟩
    have hmem := (List.mem_filter.mp (hperm.mem_iff.mp hmember)).1
    exact ⟨member, MemberTable.get_of_mem hmem, rfl⟩
  | reap =>
    obtain ⟨_, w₁, hreap, hret⟩ := exec_bind.mp hrun
    obtain ⟨hsent, hend⟩ := exec_pure.mp hret
    obtain ⟨ids, hremoved⟩ := exec_reapDead hreap
    rw [hsent, hend, hremoved]
    exact ⟨htrusts.remove ids, by simp⟩

/-! ## Runs of turns -/

/-- Every sequence of turns leaves the addresses ones that can be connected to. -/
lemma Serves.reachable (h : Serves node (Turn.runs node) w₀ w)
    (hstart : w₀.shared.table.Reachable) : w.shared.table.Reachable := by
  induction h with
  | start => exact hstart
  | turn _ hturn ih => exact (Turn.exec_addresses hturn).1 ih

lemma Serves.trusts (h : Serves node (Turn.runsAgreed node) w₀ w) (hstart : Trusts node w₀) :
    Trusts node w := by
  induction h with
  | start => exact hstart
  | turn _ hturn ih => exact (Turn.exec_trusts hturn ih).1

/-- No entry's address ever changes or is unspecified. As long as every rumor given that changes
an entry names the entry's address, so does every record passed on. -/
theorem passes_on_known_addresses (node : LocalNode) (w₀ : World)
    (htable : w₀.shared.table = .new) (hqueue : w₀.shared.queue = .new) :
    (∀ w, Serves node (Turn.runs node) w₀ w → w.shared.table.Reachable ∧
      ∀ turn now sent w', Exec (Turn.runs node turn now) (turn.prog node) w sent w' →
        ∀ id entry entry', w.shared.table.get id = some entry →
          w'.shared.table.get id = some entry' → entry'.addr = entry.addr) ∧
    ∀ w, Serves node (Turn.runsAgreed node) w₀ w →
      ∀ turn now sent w', Exec (Turn.runsAgreed node turn now) (turn.prog node) w sent w' →
        ∀ record ∈ sent, Known node w'.shared.table record := by
  have hempty : w₀.shared.table.Reachable := by
    rw [htable]
    exact fun id entry hget => absurd (hget.symm.trans (MemberTable.get_new id)) (by simp)
  constructor
  · intro w h
    exact ⟨h.reachable hempty, fun turn now sent w' hturn => (Turn.exec_addresses hturn).2⟩
  · intro w h turn now sent w' hturn
    have hstart : Trusts node w₀ := by
      refine ⟨hempty, ?_⟩
      rw [hqueue]
      exact fun pending hpending => absurd hpending (List.not_mem_nil)
    exact (Turn.exec_trusts hturn (h.trusts hstart)).2

/-! ### A rumor under another address -/

/-- The process after it took in a rumor that changed its table. -/
def World.told (w : World) (node : LocalNode) (now : Instant) (rumor : WireMember) : World :=
  { w with shared := { w.shared with
    table := (w.shared.table.merge now rumor node.id).2
    queue := w.shared.queue.push rumor ((w.shared.table.merge now rumor node.id).2.len + 1) } }

lemma exec_apply_told {P : Op → World → Prop}
    (hout : (w.shared.table.merge now rumor node.id).1 = .added ∨
      (w.shared.table.merge now rumor node.id).1 = .updated)
    (hmerge : P (.merge rumor node.id) w) (hrest : ∀ w size, P .len w ∧ P (.push rumor size) w) :
    Exec (fun o w r w' => Op.Run node now o w r w' ∧ P o w) (Turn.prog node (.apply rumor)) w []
      (w.told node now rumor) := by
  refine exec_bind.mpr ⟨(w.shared.table.merge now rumor node.id).1, _, ?_,
    exec_pure.mpr ⟨rfl, rfl⟩⟩
  refine exec_call_bind.mpr ⟨_, _, ⟨⟨rfl, rfl⟩, hmerge⟩, ?_⟩
  refine exec_call_bind.mpr ⟨_, _, ⟨⟨rfl, rfl⟩, (hrest _ 0).1⟩, ?_⟩
  rcases hout with hout | hout
  · rw [hout]
    exact exec_call_bind.mpr ⟨(), _, ⟨rfl, (hrest _ _).2⟩, exec_pure.mpr ⟨rfl, rfl⟩⟩
  · rw [hout]
    exact exec_call_bind.mpr ⟨(), _, ⟨rfl, (hrest _ _).2⟩, exec_pure.mpr ⟨rfl, rfl⟩⟩

lemma GossipQueue.take_fst_singleton (pending : Pending) :
    (GossipQueue.take [pending]).1 = [pending.rumor] := by
  simp [GossipQueue.take, GossipQueue.freshestFirst, MAX_PIGGYBACK]

/-- The suspicion of a peer, under an address nobody can connect to. -/
def misaddressed : WireMember :=
  { sampleRumor .suspect 0 with addr := ⟨.v4 (Vector.replicate 4 0), 7946⟩ }

/-- The node the sample rumors are told to. -/
def listener : LocalNode := ⟨⟨Vector.replicate 16 0⟩, (sampleRumor .alive 0).addr, []⟩

/-- It has heard of one peer. -/
def informed : World := World.told ⟨.new, []⟩ listener 0 (sampleRumor .alive 0)

/-- It is told that the peer is suspect, under the peer's own address. -/
def warned : World := informed.told listener 0 (sampleRumor .suspect 0)

/-- What is passed on about a peer just heard of, and then suspected under the address it has, is
known. -/
theorem passes_on_known_addresses_sample :
    Serves listener (Turn.runsAgreed listener) ⟨.new, []⟩ warned ∧
      (informed.shared.table.merge 0 (sampleRumor .suspect 0) listener.id).1 = .updated ∧
      Exec (Op.Run listener 0) (Turn.prog listener .take) warned [sampleRumor .suspect 0]
        { warned with shared :=
          { warned.shared with queue := warned.shared.queue.take.2 } } ∧
      Known listener warned.shared.table (sampleRumor .suspect 0) := by
  have hsent : warned.shared.queue.take.1 = [sampleRumor .suspect 0] :=
    GossipQueue.take_fst_singleton _
  have htake : Exec (Op.Run listener 0) (Turn.prog listener .take) warned [sampleRumor .suspect 0]
      { warned with shared := { warned.shared with queue := warned.shared.queue.take.2 } } :=
    exec_call.mpr ⟨hsent.symm, rfl⟩
  have hinforms : Exec (Turn.runsAgreed listener (.apply (sampleRumor .alive 0)) 0)
      (Turn.prog listener (.apply (sampleRumor .alive 0))) ⟨.new, []⟩ [] informed :=
    exec_apply_told (.inl (by decide))
      (fun _ _ hget => absurd (hget.symm.trans (MemberTable.get_new _)) (by simp))
      fun _ _ => ⟨fun _ => trivial, fun _ => trivial⟩
  -- the suspicion names the address the entry has
  have hwarns : Exec (Turn.runsAgreed listener (.apply (sampleRumor .suspect 0)) 0)
      (Turn.prog listener (.apply (sampleRumor .suspect 0))) informed [] warned := by
    refine exec_apply_told (.inr (by decide)) (fun _ entry hget => ?_)
      fun _ _ => ⟨fun _ => trivial, fun _ => trivial⟩
    have hentry : informed.shared.table.get (sampleRumor .suspect 0).id =
        some ((sampleRumor .alive 0).toMember 0) := by decide
    rw [← Option.some.inj (hentry.symm.trans hget)]
    exact fun _ => rfl
  have hserves := Serves.turn (.turn .start hinforms) hwarns
  refine ⟨hserves, by decide, htake, ?_⟩
  exact (passes_on_known_addresses listener ⟨.new, []⟩ rfl rfl).2 warned hserves
    .take 0 _ _ (htake.mono fun _ _ _ _ hrun => ⟨hrun, by simp [Turn.given]⟩) _ (by simp)

/-- Told that a peer it knows is suspect, under `0.0.0.0`, a node passes that address on, while
its own table holds the right one. -/
theorem passes_on_unspecified_address :
    ∃ w sent w' record, Serves listener (Turn.runs listener) ⟨.new, []⟩ w ∧
      Exec (Turn.runs listener .take 0) (Turn.prog listener .take) w sent w' ∧
      record ∈ sent ∧ record.id ≠ listener.id ∧ record.addr.ip.isUnspecified = true ∧
      ∃ entry, w'.shared.table.get record.id = some entry ∧ entry.addr ≠ record.addr := by
  have hfirst : Exec (Turn.runs listener (.apply (sampleRumor .alive 0)) 0)
      (Turn.prog listener (.apply (sampleRumor .alive 0))) ⟨.new, []⟩ [] informed :=
    (exec_apply_told (P := fun _ _ => True) (.inl (by decide)) trivial
      fun _ _ => ⟨trivial, trivial⟩).mono fun _ _ _ _ hrun => hrun.1
  have hsecond : Exec (Turn.runs listener (.apply misaddressed) 0)
      (Turn.prog listener (.apply misaddressed)) informed []
      (informed.told listener 0 misaddressed) :=
    (exec_apply_told (P := fun _ _ => True) (.inr (by decide)) trivial
      fun _ _ => ⟨trivial, trivial⟩).mono fun _ _ _ _ hrun => hrun.1
  have hsent : (informed.told listener 0 misaddressed).shared.queue.take.1 = [misaddressed] :=
    GossipQueue.take_fst_singleton _
  refine ⟨_, [misaddressed], _, misaddressed, .turn (.turn .start hfirst) hsecond,
    exec_call.mpr ⟨hsent.symm, rfl⟩, by simp, by decide, by decide, ?_⟩
  exact ⟨(((sampleRumor .alive 0).toMember 0).update 0 misaddressed), by decide, by decide⟩

end Dalila
