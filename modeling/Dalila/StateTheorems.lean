import Dalila.State
import Dalila.Lib.Register

/-!
# What merging does to a table

One merge, case by case (`merge_spec`), and then a run of merges, seen from one id at a
time: an entry is a last-writer-wins register whose keys are `(incarnation, rank)`.
-/

namespace Dalila

/-- May this rumor create an entry? -/
def WireMember.admissible (rumor : WireMember) : Bool :=
  !rumor.addr.ip.isUnspecified && rumor.state ≠ .dead

/-- An entry may be told of to somebody without one, unless it is dead. -/
lemma WireMember.admissible_new {m : Member} (hip : m.addr.ip.isUnspecified = false) :
    (WireMember.new m).admissible = !m.state.isDead := by
  cases hstate : m.state <;>
    simp [WireMember.admissible, WireMember.new, hip, hstate, MemberState.toWire,
      MemberState.isDead]

/-- What a node says of itself may create its entry. -/
lemma WireIdentity.admissible_intoMember (identity : WireIdentity)
    (hip : identity.addr.ip.isUnspecified = false) : identity.intoMember.admissible = true := by
  simp [WireMember.admissible, WireIdentity.intoMember, hip]

@[simp] theorem Member.key_update (member : Member) (now : Instant) (rumor : WireMember) :
    (member.update now rumor).key = rumor.key := by
  simp [Member.key, Member.update, WireMember.key]

/-- An entry reads as the rumor it was updated by, if that is for the same address. -/
theorem WireMember.new_update (now : Instant) {rumor : WireMember} {member : Member}
    (hid : rumor.id = member.id) (haddr : rumor.addr = member.addr) :
    WireMember.new (member.update now rumor) = rumor := by
  simp [WireMember.new, Member.update, ← hid, ← haddr]

/-- How an entry takes rumors, each with the time it is merged at. -/
def entryRules : Register.Rules (WireMember × Instant) Member (Incarnation ×ₗ ℕ) where
  key w := w.1.key
  keyOf := Member.key
  admits w := w.1.admissible
  fresh w := w.1.toMember w.2
  update member w := member.update w.2 w.1
  keyOf_fresh w := WireMember.key_toMember w.2 w.1
  keyOf_update member w := Member.key_update member w.2 w.1
  update_update _ _ _ := rfl

namespace MemberTable

/-! ## One merge -/

/-- Every way `merge` can go. -/
inductive Merged (table : MemberTable) (now : Instant) (rumor : WireMember) (me : NodeId) :
    MergeOutcome → MemberTable → Prop where
  | own (hid : rumor.id = me) (hstate : rumor.state = .alive) :
      Merged table now rumor me .ignored table
  | doubted (hid : rumor.id = me) (hstate : rumor.state ≠ .alive) :
      Merged table now rumor me (.refute rumor.incarnation) table
  | refused (hid : rumor.id ≠ me) (hget : table.get rumor.id = none)
      (hadm : rumor.admissible = false) : Merged table now rumor me .ignored table
  | added (hid : rumor.id ≠ me) (hget : table.get rumor.id = none)
      (hadm : rumor.admissible = true) :
      Merged table now rumor me .added (table.put (rumor.toMember now))
  | stale (hid : rumor.id ≠ me) (member : Member) (hget : table.get rumor.id = some member)
      (hkey : rumor.key ≤ member.key) : Merged table now rumor me .ignored table
  | updated (hid : rumor.id ≠ me) (member : Member) (hget : table.get rumor.id = some member)
      (hkey : member.key < rumor.key) :
      Merged table now rumor me .updated (table.put (member.update now rumor))

theorem merge_spec (table : MemberTable) (now : Instant) (rumor : WireMember) (me : NodeId) :
    Merged table now rumor me (table.merge now rumor me).1 (table.merge now rumor me).2 := by
  unfold merge
  by_cases hid : rumor.id = me
  · rw [if_pos hid]
    cases hstate : rumor.state with
    | alive => exact .own hid hstate
    | suspect => exact .doubted hid (by simp [hstate])
    | dead => exact .doubted hid (by simp [hstate])
  · rw [if_neg hid]
    cases hget : table.get rumor.id with
    | none =>
      simp only
      split_ifs with hip hdead
      · exact .refused hid hget (by simp [WireMember.admissible, hip])
      · exact .refused hid hget (by simp [WireMember.admissible, hdead])
      · exact .added hid hget (by simp [WireMember.admissible, hip, hdead])
    | some member =>
      simp only [supersedes, decide_eq_true_eq]
      split_ifs with hkey
      · exact .updated hid member hget hkey
      · exact .stale hid member hget (le_of_not_gt hkey)

/-- A merge is one write to the register of the id it is about, and nothing else. -/
theorem get_merge (table : MemberTable) (now : Instant) (rumor : WireMember) (me id : NodeId) :
    (table.merge now rumor me).2.get id =
      if id = rumor.id ∧ id ≠ me then
        Register.offer entryRules (table.get id) (rumor, now)
      else table.get id := by
  have hspec := merge_spec table now rumor me
  generalize (table.merge now rumor me).1 = outcome at hspec
  generalize (table.merge now rumor me).2 = table' at hspec ⊢
  cases hspec with
  | own hid _ => rw [if_neg (by rintro ⟨rfl, h⟩; exact h hid)]
  | doubted hid _ => rw [if_neg (by rintro ⟨rfl, h⟩; exact h hid)]
  | refused hid hget hadm =>
    split_ifs with h
    · rw [h.1, hget]
      simp [Register.offer, entryRules, hadm]
    · rfl
  | added hid hget hadm =>
    rw [get_put]
    by_cases h : id = rumor.id
    · have hme : id ≠ me := h ▸ hid
      rw [if_pos (show id = (rumor.toMember now).id from h), if_pos ⟨h, hme⟩, h, hget]
      exact (Register.offer_none_of_admits entryRules (w := (rumor, now)) hadm).symm
    · rw [if_neg (show ¬ id = (rumor.toMember now).id from h), if_neg (by simp [h])]
  | stale hid member hget hkey =>
    split_ifs with h
    · rw [h.1, hget]
      simp [Register.offer, entryRules, not_lt_of_ge hkey]
    · rfl
  | updated hid member hget hkey =>
    have hmid : member.id = rumor.id := id_of_get hget
    rw [get_put, show (member.update now rumor).id = rumor.id from hmid]
    by_cases h : id = rumor.id
    · have hme : id ≠ me := h ▸ hid
      rw [if_pos h, if_pos ⟨h, hme⟩, h, hget]
      exact (Register.offer_some_of_lt entryRules (e := member) (w := (rumor, now)) hkey).symm
    · rw [if_neg h, if_neg (by simp [h])]

/-- A merge updates an entry that its rumor is about and exceeds, and leaves any other. -/
lemma get_merge_of_get {table : MemberTable} (now : Instant) (rumor : WireMember) (me : NodeId)
    {id : NodeId} {member : Member} (hget : table.get id = some member) :
    id = rumor.id ∧ id ≠ me ∧ member.key < rumor.key ∧
        (table.merge now rumor me).2.get id = some (member.update now rumor) ∨
      (id = rumor.id → id ≠ me → rumor.key ≤ member.key) ∧
        (table.merge now rumor me).2.get id = some member := by
  have hmerge := table.get_merge now rumor me id
  rw [hget] at hmerge
  split_ifs at hmerge with hid
  · rcases lt_or_ge member.key rumor.key with hlt | hle
    · rw [Register.offer_some_of_lt entryRules (e := member) (w := (rumor, now)) hlt] at hmerge
      exact .inl ⟨hid.1, hid.2, hlt, hmerge⟩
    · rw [Register.offer_some_of_le entryRules (e := member) (w := (rumor, now)) hle] at hmerge
      exact .inr ⟨fun _ _ => hle, hmerge⟩
  · exact .inr ⟨fun h hme => absurd ⟨h, hme⟩ hid, hmerge⟩

/-- After a rumor about a known member was merged, its entry is no lower than the rumor. -/
lemma le_get_merge {table : MemberTable} (now : Instant) {rumor : WireMember} {me : NodeId}
    {member : Member} (hid : rumor.id ≠ me) (hget : table.get rumor.id = some member) :
    ∃ member', (table.merge now rumor me).2.get rumor.id = some member' ∧
      rumor.key ≤ member'.key ∧ member.key ≤ member'.key := by
  rcases get_merge_of_get now rumor me hget with ⟨_, _, hlt, hmerge⟩ | ⟨hle, hmerge⟩
  · refine ⟨_, hmerge, ?_, ?_⟩
    · rw [Member.key_update]
    · rw [Member.key_update]
      exact le_of_lt hlt
  · exact ⟨member, hmerge, hle rfl hid, le_refl _⟩

/-! ## A run of merges -/

/-- Merge the rumors one after another, each at its time. -/
def mergeAll (table : MemberTable) (me : NodeId) (rumors : List (WireMember × Instant)) :
    MemberTable :=
  rumors.foldl (fun table rumor => (table.merge rumor.2 rumor.1 me).2) table

@[simp] theorem mergeAll_nil (table : MemberTable) (me : NodeId) :
    table.mergeAll me [] = table := rfl

@[simp] theorem mergeAll_cons (table : MemberTable) (me : NodeId) (rumor : WireMember × Instant)
    (rumors : List (WireMember × Instant)) :
    table.mergeAll me (rumor :: rumors) = (table.merge rumor.2 rumor.1 me).2.mergeAll me rumors :=
  rfl

/-- The rumors about one id. -/
def rumorsAbout (id : NodeId) (rumors : List (WireMember × Instant)) :
    List (WireMember × Instant) :=
  rumors.filter fun rumor => rumor.1.id = id

theorem mem_rumorsAbout {id : NodeId} {rumors : List (WireMember × Instant)}
    {rumor : WireMember × Instant} :
    rumor ∈ rumorsAbout id rumors ↔ rumor ∈ rumors ∧ rumor.1.id = id := by
  simp [rumorsAbout]

/-- An id's entry after a run of merges is its register after the rumors about it. -/
theorem get_mergeAll (table : MemberTable) {me id : NodeId} (hid : id ≠ me)
    (rumors : List (WireMember × Instant)) :
    (table.mergeAll me rumors).get id =
      Register.offers entryRules (table.get id) (rumorsAbout id rumors) := by
  induction rumors generalizing table with
  | nil => rfl
  | cons rumor rumors ih =>
    rw [mergeAll_cons, ih, get_merge]
    by_cases h : id = rumor.1.id
    · rw [if_pos ⟨h, hid⟩]
      simp [rumorsAbout, h]
    · rw [if_neg (by simp [h])]
      simp [rumorsAbout, Ne.symm h]

/-- No run of merges touches what the table holds under the own id. -/
theorem get_mergeAll_me (table : MemberTable) (me : NodeId)
    (rumors : List (WireMember × Instant)) :
    (table.mergeAll me rumors).get me = table.get me := by
  induction rumors generalizing table with
  | nil => rfl
  | cons rumor rumors ih =>
    rw [mergeAll_cons, ih, get_merge, if_neg (by simp)]

end MemberTable

end Dalila
