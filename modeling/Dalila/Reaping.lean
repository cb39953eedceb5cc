import Dalila.Programs.Detector
import Dalila.MergeOrder

/-!
# Reaping while others merge

`reap_dead` picks the expired under one lock and removes them under another. `ReapsSafely` says that
it removes nobody who is not dead and expired by then, and `NoComeback` that nothing merged in
between brings one of those picked back. The file proves that the one holds exactly if the other
does (`reapsSafely_iff`).
-/

namespace Dalila

open Program
open MemberTable (sampleRumor)

/-- The other tasks' merges around the two critical sections of `reap_dead`. -/
def othersMerge (me : NodeId) (before between : List (WireMember × Instant)) (k : ℕ)
    (w w' : World) : Prop :=
  w' = { w with shared := { w.shared with
    table := w.shared.table.mergeAll me ([before, between].getD k []) } }

/-- `reap_dead` with its first section at `read` and its second at `removal`. -/
def Reaps (node : LocalNode) (before between : List (WireMember × Instant))
    (read removal : Instant) (w : World) (log : List (Σ o, Op.Res o)) (w' : World) : Prop :=
  Exec (amid (othersMerge node.id before between) fun k => Op.Run node ([read, removal].getD k 0))
    reapDead ([], w) () (log, w')

/-- Whatever reaping removes is dead for long enough at that moment, and every entry updated
since the expired were picked is still in the table afterwards. -/
def ReapsSafely (node : LocalNode) (before between : List (WireMember × Instant))
    (read removal : Instant) (w : World) : Prop :=
  ∀ log w', Reaps node before between read removal w log w' →
    let picked := w.shared.table.mergeAll node.id before
    let merged := picked.mergeAll node.id between
    -- nothing was removed if nothing had expired
    let left := if log.length = 2 then w'.shared.table else merged
    (∀ member, merged.get member.id = some member → left.get member.id = none →
      deathExpired removal member = true) ∧
    ∀ earlier rumor now later, between = earlier ++ (rumor, now) :: later →
      ((picked.mergeAll node.id earlier).merge now rumor node.id).1 = .updated →
        left.get rumor.id = merged.get rumor.id ∧ (left.get rumor.id).isSome

/-- No rumor merged between the two sections supersedes the entry of a peer that had expired in
the first. -/
def NoComeback (node : LocalNode) (before between : List (WireMember × Instant)) (read : Instant)
    (w : World) : Prop :=
  ∀ member, member.id ≠ node.id →
    (w.shared.table.mergeAll node.id before).get member.id = some member →
    deathExpired read member = true →
      ∀ rumor ∈ between, rumor.1.id = member.id → supersedes rumor.1 member = false

namespace MemberTable

variable {table : MemberTable} {me id : NodeId} {rumors : List (WireMember × Instant)}
  {member : Member}

/-- An entry stays an entry. -/
lemma isSome_get_mergeAll (h : (table.get id).isSome) :
    ((table.mergeAll me rumors).get id).isSome := by
  by_cases hid : id = me
  · rw [hid, get_mergeAll_me, ← hid]
    exact h
  · obtain ⟨entry, hget⟩ := Option.isSome_iff_exists.mp h
    obtain ⟨entry', hentry', _⟩ :=
      Register.offers_some entryRules entry (rumorsAbout id rumors)
    rw [get_mergeAll table hid, hget, hentry']
    rfl

/-- Rumors that do not supersede an entry leave it. -/
lemma get_mergeAll_of_not_supersedes (hget : table.get id = some member)
    (hold : ∀ rumor ∈ rumors, rumor.1.id = id → supersedes rumor.1 member = false) :
    (table.mergeAll me rumors).get id = some member := by
  by_cases hid : id = me
  · rw [hid, get_mergeAll_me, ← hid]
    exact hget
  · rw [get_mergeAll table hid, hget]
    refine Register.offers_eq_of_le fun rumor hrumor => ?_
    obtain ⟨hmem, hrid⟩ := mem_rumorsAbout.mp hrumor
    have hnot := hold rumor hmem hrid
    unfold supersedes at hnot
    rw [decide_eq_false_iff_not] at hnot
    exact not_lt.mp hnot

lemma isSome_of_updated {now : Instant} {rumor : WireMember}
    (h : (table.merge now rumor me).1 = .updated) :
    ∃ member, table.get rumor.id = some member ∧ supersedes rumor member = true := by
  have hspec := table.merge_spec now rumor me
  rw [h] at hspec
  generalize (table.merge now rumor me).2 = table' at hspec
  cases hspec with
  | updated _ member hget hkey =>
    refine ⟨member, hget, ?_⟩
    unfold supersedes
    exact decide_eq_true hkey

lemma updated_of_supersedes {now : Instant} {rumor : WireMember} (hid : rumor.id ≠ me)
    (hget : table.get rumor.id = some member) (h : supersedes rumor member = true) :
    (table.merge now rumor me).1 = .updated := by
  unfold merge
  rw [if_neg hid, hget]
  simp only
  rw [if_pos h]

/-- Of the rumors about an entry one is the first to supersede it, if any does. -/
lemma exists_first_updated (hme : id ≠ me) (hget : table.get id = some member)
    (hany : ∃ rumor ∈ rumors, rumor.1.id = id ∧ supersedes rumor.1 member = true) :
    ∃ earlier rumor now later, rumors = earlier ++ (rumor, now) :: later ∧ rumor.id = id ∧
      ((table.mergeAll me earlier).merge now rumor me).1 = .updated := by
  have hany : rumors.find? (fun r => decide (r.1.id = id) && supersedes r.1 member) ≠ none := by
    obtain ⟨r, hr, hrid, hsup⟩ := hany
    intro hnone
    have hnot := List.find?_eq_none.mp hnone r hr
    rw [hsup, hrid] at hnot
    exact hnot (by simp)
  obtain ⟨⟨rumor, now⟩, hfound⟩ := Option.ne_none_iff_exists'.mp hany
  obtain ⟨hrumor, earlier, later, hsplit, hearlier⟩ :=
    List.find?_eq_some_iff_append.mp hfound
  rw [Bool.and_eq_true, decide_eq_true_eq] at hrumor
  obtain ⟨hrid, hsup⟩ := hrumor
  refine ⟨earlier, rumor, now, later, hsplit, hrid, ?_⟩
  have hsame : (table.mergeAll me earlier).get id = some member := by
    refine get_mergeAll_of_not_supersedes hget fun r hr hrid' => ?_
    have hnot := hearlier r hr
    rw [hrid'] at hnot
    simpa using hnot
  have hrid : rumor.id = id := hrid
  exact updated_of_supersedes (hrid ▸ hme) (hrid ▸ hsame) hsup

end MemberTable

variable {node : LocalNode} {before between : List (WireMember × Instant)}
  {read removal : Instant} {w w' : World} {log : List (Σ o, Op.Res o)}

/-! ## What a reap does -/

/-- What `reap_dead` goes on with once it has picked the expired. -/
lemma reapDead_eq : reapDead = (Op.call (.membersWhere deathExpired) >>= fun expired =>
    if (expired.map Member.id).isEmpty then pure ()
    else Op.call (.remove (expired.map Member.id))) := rfl

/-- The expired a reap picks, and what is left once it is through. -/
lemma Reaps.spec (h : Reaps node before between read removal w log w') :
    ∃ expired : List Member,
      expired.Perm ((w.shared.table.mergeAll node.id before).membersWhere (deathExpired read)) ∧
      (log.length = 2 → w'.shared.table = ((w.shared.table.mergeAll node.id before).mergeAll
        node.id between).remove (expired.map Member.id)) ∧
      (log.length ≠ 2 → expired = []) := by
  unfold Reaps at h
  rw [reapDead_eq] at h
  obtain ⟨expired, ⟨log₁, w₁⟩, ⟨hlog, w₀, hothers, hperm, hsame⟩, h⟩ := exec_call_bind.mp h
  have hlog : log₁ = [⟨.membersWhere deathExpired, expired⟩] := hlog
  have hone : log₁.length = 1 := by
    rw [hlog]
    rfl
  have hothers : w₀ = { w with shared := { w.shared with
    table := w.shared.table.mergeAll node.id before } } := hothers
  have hsame : w₁ = w₀ := hsame
  rw [hothers] at hperm
  refine ⟨expired, hperm, ?_⟩
  by_cases hempty : (expired.map Member.id).isEmpty = true
  · rw [if_pos hempty] at h
    obtain ⟨_, hend⟩ := exec_pure.mp h
    have hlogs : log = log₁ := congrArg Prod.fst hend
    rw [hlogs, hone]
    exact ⟨fun htwo => absurd htwo (by decide), fun _ => by simpa using hempty⟩
  · rw [if_neg hempty] at h
    obtain ⟨hend, w₂, hothers₂, hremoved⟩ := exec_call.mp h
    have hlogs : log = log₁ ++ [⟨.remove (expired.map Member.id), ()⟩] := hend
    have htwo : log.length = 2 := by
      rw [hlogs, List.length_append, hone]
      rfl
    have hothers₂ : w₂ = { w₁ with shared := { w₁.shared with
        table := w₁.shared.table.mergeAll node.id ([before, between].getD log₁.length []) } } :=
      hothers₂
    have hremoved : w' = { w₂ with shared := { w₂.shared with
      table := w₂.shared.table.remove (expired.map Member.id) } } := hremoved
    rw [hone] at hothers₂
    refine ⟨fun _ => ?_, fun hne => absurd htwo hne⟩
    rw [hremoved, hothers₂, hsame, hothers]
    rfl

lemma exists_reaps (node : LocalNode) (before between : List (WireMember × Instant))
    (read removal : Instant) (w : World) :
    ∃ log w', Reaps node before between read removal w log w' := by
  unfold Reaps
  rw [reapDead_eq]
  let picked := w.shared.table.mergeAll node.id before
  let expired := picked.membersWhere (deathExpired read)
  let w₀ : World := { w with shared := { w.shared with table := picked } }
  let w₁ : World := { w with shared := { w.shared with
    table := (picked.mergeAll node.id between).remove (expired.map Member.id) } }
  have hfirst : amid (othersMerge node.id before between)
      (fun k => Op.Run node ([read, removal].getD k 0)) (.membersWhere deathExpired) ([], w)
      expired ([⟨.membersWhere deathExpired, expired⟩], w₀) :=
    ⟨rfl, w₀, rfl, List.Perm.refl _, rfl⟩
  by_cases hempty : (expired.map Member.id).isEmpty = true
  · refine ⟨[⟨.membersWhere deathExpired, expired⟩], w₀,
      exec_call_bind.mpr ⟨expired, _, hfirst, ?_⟩⟩
    rw [if_pos hempty]
    exact exec_pure.mpr ⟨rfl, rfl⟩
  · refine ⟨[⟨.membersWhere deathExpired, expired⟩, ⟨.remove (expired.map Member.id), ()⟩], w₁,
      exec_call_bind.mpr ⟨expired, _, hfirst, ?_⟩⟩
    rw [if_neg hempty]
    exact exec_call.mpr ⟨rfl, _, rfl, rfl⟩

/-- The ids a reap picks are those of the expired. -/
lemma mem_map_id_iff {table : MemberTable} {expired : List Member} {id : NodeId}
    (hperm : expired.Perm (table.membersWhere (deathExpired read))) :
    id ∈ expired.map Member.id ↔
      ∃ member, table.get id = some member ∧ deathExpired read member = true := by
  constructor
  · intro hid
    obtain ⟨member, hmember, rfl⟩ := List.mem_map.mp hid
    obtain ⟨hmem, hexpired⟩ := List.mem_filter.mp (hperm.mem_iff.mp hmember)
    exact ⟨member, MemberTable.get_of_mem hmem, hexpired⟩
  · rintro ⟨member, hget, hexpired⟩
    have hmem : member ∈ table.membersWhere (deathExpired read) :=
      List.mem_filter.mpr ⟨MemberTable.mem_of_get hget, hexpired⟩
    exact List.mem_map.mpr ⟨member, hperm.mem_iff.mpr hmem, MemberTable.id_of_get hget⟩

/-- If nobody came back, the expired are still as they were when they are removed. -/
lemma NoComeback.get_merged (h : NoComeback node before between read w)
    {earlier later : List (WireMember × Instant)} (hsplit : between = earlier ++ later)
    {member : Member} (hget : (w.shared.table.mergeAll node.id before).get member.id = some member)
    (hexpired : deathExpired read member = true) :
    ((w.shared.table.mergeAll node.id before).mergeAll node.id earlier).get member.id =
      some member := by
  by_cases hme : member.id = node.id
  · rw [hme] at hget
    rw [hme, MemberTable.get_mergeAll_me]
    exact hget
  · refine MemberTable.get_mergeAll_of_not_supersedes hget fun rumor hrumor hid => ?_
    exact h member hme hget hexpired rumor (by simp [hsplit, hrumor]) hid

/-- A refutation that beat the removal went with the entry it updated. -/
lemma ReapsSafely.noComeback (hsafe : ReapsSafely node before between read removal w) :
    NoComeback node before between read w := by
  intro member hme hget hexpired rumor hrumor hid
  by_contra hsupersedes
  rw [Bool.not_eq_false] at hsupersedes
  obtain ⟨earlier, first, now, later, hsplit, hfirst, hupdated⟩ :=
    MemberTable.exists_first_updated hme hget ⟨rumor, hrumor, hid, hsupersedes⟩
  obtain ⟨log, w', hreaps⟩ := exists_reaps node before between read removal w
  obtain ⟨expired, hperm, hremoved, hnothing⟩ := hreaps.spec
  have hpicked : first.id ∈ expired.map Member.id :=
    (mem_map_id_iff hperm).mpr ⟨member, hfirst ▸ hget, hexpired⟩
  have htwo : log.length = 2 := by
    by_contra hne
    rw [hnothing hne] at hpicked
    exact absurd hpicked (by simp)
  -- the update went with the entry
  obtain ⟨_, hleft⟩ := (hsafe log w' hreaps).2 earlier first now later hsplit hupdated
  rw [if_pos htwo, hremoved htwo, MemberTable.get_remove, if_pos hpicked] at hleft
  exact absurd hleft (by simp)

/-- If nobody came back, what is removed was expired, and no update goes with it. -/
lemma NoComeback.reapsSafely (hno : NoComeback node before between read w)
    (hclock : read ≤ removal) : ReapsSafely node before between read removal w := by
  intro log w' hreaps
  obtain ⟨expired, hperm, hremoved, hnothing⟩ := hreaps.spec
  intro picked merged left
  -- without a second lock nothing was picked, and removing nothing is the same
  have hleft : left = merged.remove (expired.map Member.id) := by
    show (if log.length = 2 then w'.shared.table else merged) = _
    by_cases htwo : log.length = 2
    · rw [if_pos htwo, hremoved htwo]
    · rw [if_neg htwo, hnothing htwo]
      simp [MemberTable.remove]
  constructor
  · intro member hget hgone
    rw [hleft, MemberTable.get_remove] at hgone
    split_ifs at hgone with hid
    · obtain ⟨found, hfound, hexpired⟩ := (mem_map_id_iff hperm).mp hid
      have hfoundid : found.id = member.id := MemberTable.id_of_get hfound
      have hsame := hno.get_merged (List.append_nil between).symm (hfoundid ▸ hfound) hexpired
      rw [hfoundid] at hsame
      obtain rfl := Option.some.inj (hget.symm.trans hsame)
      exact deathExpired_mono hclock hexpired
    · exact absurd (hget.symm.trans hgone) (by simp)
  · intro earlier rumor now later hsplit hupdated
    obtain ⟨entry, hentry, hsupersedes⟩ := MemberTable.isSome_of_updated hupdated
    -- an update would be what nobody was to come back with
    have hkept : rumor.id ∉ expired.map Member.id := by
      intro hid
      obtain ⟨found, hfound, hexpired⟩ := (mem_map_id_iff hperm).mp hid
      have hfoundid : found.id = rumor.id := MemberTable.id_of_get hfound
      have hsame := hno.get_merged hsplit (hfoundid ▸ hfound) hexpired
      rw [hfoundid] at hsame
      obtain rfl := Option.some.inj (hentry.symm.trans hsame)
      have hme : entry.id ≠ node.id := by
        intro hme
        unfold MemberTable.merge at hupdated
        rw [if_pos (hfoundid.symm.trans hme)] at hupdated
        cases hstate : rumor.state <;> simp [hstate] at hupdated
      have hstale := hno entry hme (hfoundid ▸ hfound) hexpired (rumor, now) (by simp [hsplit])
        hfoundid.symm
      exact absurd (hsupersedes.symm.trans hstale) (by simp)
    have hsame : left.get rumor.id = merged.get rumor.id := by
      rw [hleft, MemberTable.get_remove, if_neg hkept]
    refine ⟨hsame, ?_⟩
    rw [hsame]
    show ((picked.mergeAll node.id between).get rumor.id).isSome
    have hlast : picked.mergeAll node.id between =
        (picked.mergeAll node.id earlier).mergeAll node.id ((rumor, now) :: later) := by
      rw [hsplit]
      unfold MemberTable.mergeAll
      rw [List.foldl_append]
    rw [hlast]
    exact MemberTable.isSome_get_mergeAll (by simp [hentry])

/-- Reaping is safe exactly if nobody found expired came back before the removal. -/
theorem reapsSafely_iff (node : LocalNode) (before between : List (WireMember × Instant))
    (read removal : Instant) (w : World) (hclock : read ≤ removal) :
    ReapsSafely node before between read removal w ↔ NoComeback node before between read w :=
  ⟨ReapsSafely.noComeback, fun hno => hno.reapsSafely hclock⟩

/-- A peer dead since 0 at incarnation 0 in the table. -/
def reapSample : World :=
  ⟨{ Shared.new with table := MemberTable.new.put ((sampleRumor .dead 0).toMember 0) }, []⟩

/-- The process that reaps. -/
def reaper : LocalNode := ⟨⟨Vector.replicate 16 0⟩, (sampleRumor .dead 0).addr, []⟩

/-- Another peer, alive. -/
def reapOther (incarnation : Incarnation) : WireMember :=
  { sampleRumor .alive incarnation with id := ⟨Vector.replicate 16 2⟩ }

/-- Another peer comes in before the expired are picked. Old news of the expired one and an
update of the other come in between, and the reap is safe. -/
theorem reapsSafely_iff_stale :
    ReapsSafely reaper [(reapOther 0, 0)]
      [(sampleRumor .alive 0, REAP_TIMEOUT), (reapOther 1, REAP_TIMEOUT)] REAP_TIMEOUT
      REAP_TIMEOUT reapSample ∧
    0 < (reapSample.shared.table.membersWhere (deathExpired REAP_TIMEOUT)).length ∧
    ((reapSample.shared.table.mergeAll reaper.id [(reapOther 0, 0),
      (sampleRumor .alive 0, REAP_TIMEOUT)]).merge REAP_TIMEOUT (reapOther 1) reaper.id).1 =
      .updated := by
  refine ⟨(reapsSafely_iff _ _ _ REAP_TIMEOUT REAP_TIMEOUT reapSample (le_refl _)).mpr ?_,
    by decide, by decide⟩
  intro member _ hget hexpired rumor hrumor hid
  rcases List.mem_pair.mp hrumor with rfl | rfl
  · -- old news of the expired peer
    have hentry : (reapSample.shared.table.mergeAll reaper.id [(reapOther 0, 0)]).get
        (sampleRumor .alive 0).id = some ((sampleRumor .dead 0).toMember 0) := by decide
    rw [← hid, hentry] at hget
    rw [← Option.some.inj hget]
    decide
  · -- the other peer had not expired
    have hentry : (reapSample.shared.table.mergeAll reaper.id [(reapOther 0, 0)]).get
        (reapOther 1).id = some ((reapOther 0).toMember 0) := by decide
    rw [← hid, hentry] at hget
    rw [← Option.some.inj hget] at hexpired
    exact absurd hexpired (by decide)

/-- A refutation merged between the two sections is removed with the entry it updated. -/
theorem refutation_reaped :
    ¬ ReapsSafely reaper []
      [(sampleRumor .alive 1, REAP_TIMEOUT)] REAP_TIMEOUT REAP_TIMEOUT reapSample := by
  intro hsafe
  obtain ⟨log, w', hreaps⟩ := exists_reaps reaper
    [] [(sampleRumor .alive 1, REAP_TIMEOUT)] REAP_TIMEOUT REAP_TIMEOUT reapSample
  obtain ⟨expired, hperm, hremoved, hnothing⟩ := hreaps.spec
  have hpicked : (sampleRumor .alive 1).id ∈ expired.map Member.id :=
    (mem_map_id_iff hperm).mpr ⟨(sampleRumor .dead 0).toMember 0, by decide, by decide⟩
  have htwo : log.length = 2 := by
    by_contra hne
    rw [hnothing hne] at hpicked
    exact absurd hpicked (by simp)
  obtain ⟨_, hleft⟩ := (hsafe log w' hreaps).2 [] (sampleRumor .alive 1) REAP_TIMEOUT [] rfl
    (by decide)
  rw [if_pos htwo, hremoved htwo, MemberTable.get_remove, if_pos hpicked] at hleft
  exact absurd hleft (by simp)

end Dalila
