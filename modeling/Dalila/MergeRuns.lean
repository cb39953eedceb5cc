import Dalila.MergeOrder
import Mathlib.Order.Bounds.Basic

/-!
# The exact meaning of a run of merges

An entry starts from a record, the one held before the run or the first admissible rumor. It
ends as what the earliest record of the greatest `(incarnation, rank)` leaves of that start.
-/

namespace Dalila
namespace MemberTable

/-- The record an id's entry starts from, with the rumors about the id that come after it. -/
inductive StartRecord (table : MemberTable) (rumors : List (WireMember × Instant)) (id : NodeId) :
    Member → List (WireMember × Instant) → Prop where
  | held (member : Member) (hget : table.get id = some member) :
      StartRecord table rumors id member (rumorsAbout id rumors)
  | first (before : List (WireMember × Instant)) (rumor : WireMember × Instant)
      (after : List (WireMember × Instant)) (hget : table.get id = none)
      (hsplit : rumorsAbout id rumors = before ++ rumor :: after)
      (hbefore : ∀ r ∈ before, r.1.admissible = false) (hadm : rumor.1.admissible = true) :
      StartRecord table rumors id (rumor.1.toMember rumor.2) after

/-- What the earliest record to reach the greatest key leaves of the start record: its own
incarnation, state, clock, readiness and tags, and the start record's address. -/
inductive Reached (start : Member) (later : List (WireMember × Instant)) : Member → Prop where
  | start (hmax : ∀ r ∈ later, r.1.key ≤ start.key) : Reached start later start
  | rumor (before : List (WireMember × Instant)) (rumor : WireMember) (now : Instant)
      (after : List (WireMember × Instant)) (hsplit : later = before ++ (rumor, now) :: after)
      (hstart : start.key < rumor.key) (hbefore : ∀ r ∈ before, r.1.key < rumor.key)
      (hafter : ∀ r ∈ after, r.1.key ≤ rumor.key) :
      Reached start later
        { id := start.id
          addr := start.addr
          incarnation := rumor.incarnation
          state := rumor.state.toMember now
          ready := rumor.ready
          tags := rumor.tags }

/-- What one merge tells of the tables before and after it. -/
structure MergeStep (table table' : MemberTable) (id : NodeId) (outcome : MergeOutcome) :
    Prop where
  added : outcome = .added ↔ table.get id = none ∧ (table'.get id).isSome
  updated : outcome = .updated ↔
    ∃ m m', table.get id = some m ∧ table'.get id = some m' ∧ m.key < m'.key
  unchanged : outcome = .ignored ∨ (∃ rumored, outcome = .refute rumored) → table' = table
  others : ∀ other, other ≠ id → table'.get other = table.get other

variable {table : MemberTable} {me id : NodeId} {rumors later : List (WireMember × Instant)}
  {start final : Member}

/-! ## One merge -/

lemma mergeStep_same (table : MemberTable) (id : NodeId) {outcome : MergeOutcome}
    (hadded : outcome ≠ .added) (hupdated : outcome ≠ .updated) :
    MergeStep table table id outcome where
  added := by
    refine ⟨fun h => absurd h hadded, fun ⟨hnone, hsome⟩ => ?_⟩
    rw [hnone] at hsome
    exact absurd hsome (by simp)
  updated := by
    refine ⟨fun h => absurd h hupdated, fun ⟨m, m', hm, hm', hlt⟩ => ?_⟩
    have hsame : m = m' := Option.some.inj (hm.symm.trans hm')
    rw [hsame] at hlt
    exact absurd hlt (lt_irrefl _)
  unchanged _ := rfl
  others _ _ := rfl

theorem mergeStep_merge (table : MemberTable) (now : Instant) (rumor : WireMember) (me : NodeId) :
    MergeStep table (table.merge now rumor me).2 rumor.id (table.merge now rumor me).1 := by
  have hspec := merge_spec table now rumor me
  generalize (table.merge now rumor me).1 = outcome at hspec ⊢
  generalize (table.merge now rumor me).2 = table' at hspec ⊢
  cases hspec with
  | own _ _ => exact mergeStep_same table _ (by simp) (by simp)
  | doubted _ _ => exact mergeStep_same table _ (by simp) (by simp)
  | refused _ _ _ => exact mergeStep_same table _ (by simp) (by simp)
  | stale _ _ _ _ => exact mergeStep_same table _ (by simp) (by simp)
  | added _ hget _ =>
    have hid : (rumor.toMember now).id = rumor.id := rfl
    constructor
    · simp [hget, hid]
    · simp [hget]
    · simp
    · intro other hother
      rw [get_put, if_neg (hid ▸ hother)]
  | updated _ member hget hkey =>
    have hmid : member.id = rumor.id := id_of_get hget
    have hid : (member.update now rumor).id = rumor.id := hmid
    constructor
    · simp [hget]
    · refine iff_of_true rfl ⟨member, member.update now rumor, hget, ?_, ?_⟩
      · rw [get_put, if_pos hid.symm]
      · rw [Member.key_update]
        exact hkey
    · simp
    · intro other hother
      rw [get_put, if_neg (hid ▸ hother)]

/-! ## A run of merges -/

/-- With a start record, the entry is what the later rumors make of it. -/
lemma StartRecord.get_mergeAll (hstart : StartRecord table rumors id start later) (hid : id ≠ me) :
    (table.mergeAll me rumors).get id = Register.offers entryRules (some start) later := by
  rw [MemberTable.get_mergeAll table hid]
  cases hstart with
  | held _ hget => rw [hget]
  | first before rumor after hget hsplit hbefore hadm =>
    rw [hget, hsplit]
    exact Register.offers_none_of_first hbefore hadm

/-- There is a start record exactly if the id was held or some rumor about it is admissible. -/
lemma exists_startRecord_iff :
    (∃ start later, StartRecord table rumors id start later) ↔
      (table.get id).isSome ∨ ∃ r ∈ rumors, r.1.id = id ∧ r.1.admissible = true := by
  constructor
  · rintro ⟨start, later, hstart⟩
    cases hstart with
    | held _ hget => exact .inl (by simp [hget])
    | first before rumor after _ hsplit _ hadm =>
      have hmem : rumor ∈ rumorsAbout id rumors := by simp [hsplit]
      obtain ⟨hmem, hrid⟩ := mem_rumorsAbout.mp hmem
      exact .inr ⟨rumor, hmem, hrid, hadm⟩
  · intro h
    cases hget : table.get id with
    | some member => exact ⟨member, _, .held member hget⟩
    | none =>
      rcases h with h | ⟨r, hr, hrid, hadm⟩
      · rw [hget] at h
        exact absurd h (by simp)
      rcases Register.exists_first_admitted (R := entryRules) (rumorsAbout id rumors) with
        hall | ⟨before, rumor, after, hsplit, hbefore, hrumor⟩
      · have hrefused : r.1.admissible = false := hall r (mem_rumorsAbout.mpr ⟨hr, hrid⟩)
        exact absurd hadm (by simp [hrefused])
      · exact ⟨_, after, .first before rumor after hget hsplit hbefore hrumor⟩

/-- Without a start record the id stays out. -/
lemma get_mergeAll_of_no_start (hid : id ≠ me)
    (hnone : ¬ ∃ start later, StartRecord table rumors id start later) :
    (table.mergeAll me rumors).get id = none := by
  rw [exists_startRecord_iff] at hnone
  push Not at hnone
  obtain ⟨hget, hrefused⟩ := hnone
  have hget : table.get id = none := by simpa using hget
  rw [get_mergeAll table hid, hget]
  refine Register.offers_none_of_not_admits fun r hr => ?_
  obtain ⟨hr, hrid⟩ := mem_rumorsAbout.mp hr
  have hadm : r.1.admissible ≠ true := hrefused r hr hrid
  show r.1.admissible = false
  simpa using hadm

/-- The register's outcome, in the words of entries and rumors. -/
lemma reached_of_outcome (hout : Register.Outcome entryRules start later final) :
    Reached start later final := by
  cases hout with
  | kept h hle =>
    rw [h]
    exact .start hle
  | replaced before w after hsplit h hgt hbefore hafter =>
    rw [h]
    exact .rumor before w.1 w.2 after hsplit hgt hbefore hafter

/-- The key reached is the greatest of the start record's and the later rumors'. -/
lemma Reached.isGreatest (h : Reached start later final) :
    IsGreatest {k | k = start.key ∨ ∃ r ∈ later, k = r.1.key} final.key := by
  cases h with
  | start hmax =>
    refine ⟨.inl rfl, ?_⟩
    rintro k (rfl | ⟨r, hr, rfl⟩)
    · exact le_refl _
    · exact hmax r hr
  | rumor before rumor now after hsplit hstart hbefore hafter =>
    have hkey : (start.update now rumor).key = rumor.key := Member.key_update start now rumor
    show IsGreatest _ (start.update now rumor).key
    rw [hkey]
    refine ⟨.inr ⟨(rumor, now), by simp [hsplit], rfl⟩, ?_⟩
    rintro k (rfl | ⟨r, hr, rfl⟩)
    · exact le_of_lt hstart
    · rw [hsplit, List.mem_append, List.mem_cons] at hr
      rcases hr with hr | rfl | hr
      · exact le_of_lt (hbefore r hr)
      · exact le_refl _
      · exact hafter r hr

lemma Reached.addr (h : Reached start later final) : final.addr = start.addr := by
  cases h with
  | start _ => rfl
  | rumor _ _ _ _ _ _ _ _ => rfl

/-- Who is in the table after a run of merges, with which record, and what each merge of the
run reports. -/
theorem mergeAll_exact (table : MemberTable) (me : NodeId)
    (rumors : List (WireMember × Instant)) (hme : table.get me = none) :
    (table.mergeAll me rumors).get me = none ∧
    (∀ id, id ≠ me →
      (((table.mergeAll me rumors).get id).isSome ↔
        (table.get id).isSome ∨ ∃ r ∈ rumors, r.1.id = id ∧ r.1.admissible = true) ∧
      ∀ start later, StartRecord table rumors id start later →
        ∃ final, (table.mergeAll me rumors).get id = some final ∧
          IsGreatest {k | k = start.key ∨ ∃ r ∈ later, k = r.1.key} final.key ∧
          Reached start later final ∧ final.addr = start.addr) ∧
    ∀ before rumor now after, rumors = before ++ (rumor, now) :: after →
      MergeStep (table.mergeAll me before) (table.mergeAll me (before ++ [(rumor, now)])) rumor.id
        ((table.mergeAll me before).merge now rumor me).1 := by
  refine ⟨?_, fun id hid => ⟨?_, ?_⟩, ?_⟩
  · rw [get_mergeAll_me, hme]
  · rw [← exists_startRecord_iff]
    by_cases hstart : ∃ start later, StartRecord table rumors id start later
    · obtain ⟨start, later, hrecord⟩ := hstart
      obtain ⟨final, hfinal, _⟩ := Register.offers_some entryRules start later
      rw [hrecord.get_mergeAll hid, hfinal]
      exact iff_of_true rfl ⟨start, later, hrecord⟩
    · rw [get_mergeAll_of_no_start hid hstart]
      exact iff_of_false (by simp) hstart
  · intro start later hstart
    obtain ⟨final, hfinal, hout⟩ := Register.offers_some entryRules start later
    have hreached : Reached start later final := reached_of_outcome hout
    exact ⟨final, (hstart.get_mergeAll hid).trans hfinal, hreached.isGreatest, hreached,
      hreached.addr⟩
  · intro before rumor now after _
    have hlast : table.mergeAll me (before ++ [(rumor, now)]) =
        ((table.mergeAll me before).merge now rumor me).2 := by
      unfold mergeAll
      rw [List.foldl_append]
      rfl
    rw [hlast]
    exact mergeStep_merge _ now rumor me

/-- A member first heard of as suspect at 0 and then alive at 1 ends up alive at 1. -/
theorem mergeAll_exact_refuted :
    new.get ⟨Vector.replicate 16 0⟩ = none ∧
    ∃ final,
      (new.mergeAll ⟨Vector.replicate 16 0⟩
        [(sampleRumor .suspect 0, 5), (sampleRumor .alive 1, 6)]).get
          (sampleRumor .alive 1).id = some final ∧
      Reached ((sampleRumor .suspect 0).toMember 5) [(sampleRumor .alive 1, 6)] final := by
  have hstart : StartRecord new [(sampleRumor .suspect 0, 5), (sampleRumor .alive 1, 6)]
      (sampleRumor .alive 1).id ((sampleRumor .suspect 0).toMember 5)
      [(sampleRumor .alive 1, 6)] :=
    .first [] (sampleRumor .suspect 0, 5) [(sampleRumor .alive 1, 6)] rfl rfl (by simp) rfl
  have hexact := mergeAll_exact new ⟨Vector.replicate 16 0⟩
    [(sampleRumor .suspect 0, 5), (sampleRumor .alive 1, 6)] rfl
  obtain ⟨final, hget, _, hreached, _⟩ :=
    (hexact.2.1 (sampleRumor .alive 1).id (by decide)).2 _ _ hstart
  exact ⟨rfl, final, hget, hreached⟩

end MemberTable
end Dalila
