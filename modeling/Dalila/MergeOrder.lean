import Dalila.StateTheorems

/-!
# Does the order of merges matter?

For an id the table already holds it never does. For one it does not hold, a Dead rumor is refused
until some other rumor has created the entry. `NoDeathOnTop` and `NoDeathLost` are the conditions
under which that cannot show, for reordering and for repeating a list of rumors, and
`mergeAll_order_and_repeat` proves them exact.
-/

namespace Dalila
namespace MemberTable

/-- The same members with the same records. Suspicion and death clocks are left out: they
never leave the node. -/
def SameMembers (a b : MemberTable) : Prop :=
  ∀ id, (a.get id).map WireMember.new = (b.get id).map WireMember.new

/-- An id determines address and tags, and an id with an incarnation determines readiness. -/
structure Consistent (rumors : List WireMember) : Prop where
  addr : ∀ a ∈ rumors, ∀ b ∈ rumors, a.id = b.id → a.addr = b.addr
  tags : ∀ a ∈ rumors, ∀ b ∈ rumors, a.id = b.id → a.tags = b.tags
  ready : ∀ a ∈ rumors, ∀ b ∈ rumors,
    a.id = b.id → a.incarnation = b.incarnation → a.ready = b.ready

/-- For every id the table lacks: if any rumor may create its entry, one that may is not
superseded by any rumor about it. In other words, its highest rumor is not Dead. -/
def NoDeathOnTop (table : MemberTable) (me : NodeId) (rumors : List WireMember) : Prop :=
  ∀ id, id ≠ me → table.get id = none →
    (∃ r ∈ rumors, r.id = id ∧ r.admissible = true) →
      ∃ r ∈ rumors, r.id = id ∧ r.admissible = true ∧ ∀ d ∈ rumors, d.id = id → d.key ≤ r.key

/-- For every id the table lacks: no rumor that came before the entry could be created
supersedes all the rumors about it from there on. -/
def NoDeathLost (table : MemberTable) (me : NodeId) (rumors : List WireMember) : Prop :=
  ∀ before r after, rumors = before ++ r :: after → r.id ≠ me → table.get r.id = none →
    r.admissible = true → (∀ d ∈ before, d.id = r.id → d.admissible = false) →
      ∀ d ∈ before, d.id = r.id → ∃ u ∈ r :: after, u.id = r.id ∧ d.key ≤ u.key

/-! ## One id's rumors -/

variable {me id : NodeId} {rumors reordered : List (WireMember × Instant)}

theorem exists_mem_of_map_fst {r : WireMember} (h : r ∈ rumors.map Prod.fst) :
    ∃ now, (r, now) ∈ rumors := by
  obtain ⟨⟨_, now⟩, hmem, rfl⟩ := List.mem_map.mp h
  exact ⟨now, hmem⟩

/-- What two runs over the same rumors offer an id. -/
theorem sameWrites_rumorsAbout
    (hmem : ∀ r, r ∈ reordered.map Prod.fst ↔ r ∈ rumors.map Prod.fst) (id : NodeId) :
    Register.SameWrites entryRules (rumorsAbout id reordered) (rumorsAbout id rumors) := by
  have key : ∀ {as bs : List (WireMember × Instant)},
      (∀ r, r ∈ as.map Prod.fst → r ∈ bs.map Prod.fst) →
      ∀ v ∈ rumorsAbout id as, ∃ w ∈ rumorsAbout id bs,
        entryRules.key v = entryRules.key w ∧ entryRules.admits v = entryRules.admits w := by
    intro as bs hsub v hv
    obtain ⟨hv, hid⟩ := mem_rumorsAbout.mp hv
    obtain ⟨now, hw⟩ := exists_mem_of_map_fst (hsub v.1 (List.mem_map_of_mem hv))
    exact ⟨(v.1, now), mem_rumorsAbout.mpr ⟨hw, hid⟩, rfl, rfl⟩
  exact ⟨key fun r => (hmem r).mp, key fun r => (hmem r).mpr⟩

theorem coherent_rumorsAbout (hcons : Consistent (rumors.map Prod.fst)) (id : NodeId) :
    Register.Coherent entryRules WireMember.new (rumorsAbout id rumors) := by
  have hmem : ∀ v ∈ rumorsAbout id rumors, v.1 ∈ rumors.map Prod.fst ∧ v.1.id = id :=
    fun v hv => ⟨List.mem_map_of_mem (mem_rumorsAbout.mp hv).1, (mem_rumorsAbout.mp hv).2⟩
  constructor
  · intro v hv w hw hkey member
    obtain ⟨hvm, hvid⟩ := hmem v hv
    obtain ⟨hwm, hwid⟩ := hmem w hw
    have hid : v.1.id = w.1.id := hvid.trans hwid.symm
    obtain ⟨hinc, hstate⟩ := WireMember.key_eq_iff.mp hkey
    have hready := hcons.ready _ hvm _ hwm hid hinc
    have htags := hcons.tags _ hvm _ hwm hid
    simp [WireMember.new, entryRules, Member.update, hinc, hstate, hready, htags]
  · intro v hv w hw
    obtain ⟨hvm, hvid⟩ := hmem v hv
    obtain ⟨hwm, hwid⟩ := hmem w hw
    have hid : v.1.id = w.1.id := hvid.trans hwid.symm
    have haddr := hcons.addr _ hvm _ hwm hid
    simp [WireMember.new, entryRules, Member.update, WireMember.toMember, hid, haddr]

theorem Consistent.of_mem {as bs : List WireMember} (h : Consistent bs)
    (hsub : ∀ r ∈ as, r ∈ bs) : Consistent as where
  addr a ha b hb := h.addr a (hsub a ha) b (hsub b hb)
  tags a ha b hb := h.tags a (hsub a ha) b (hsub b hb)
  ready a ha b hb := h.ready a (hsub a ha) b (hsub b hb)

/-! ## Reordering -/

/-- `NoDeathOnTop` is the register's `Settled`, id by id. -/
theorem settled_rumorsAbout {table : MemberTable}
    (h : NoDeathOnTop table me (rumors.map Prod.fst)) (hid : id ≠ me)
    (hget : table.get id = none) : Register.Settled entryRules (rumorsAbout id rumors) := by
  rintro ⟨w, hw, hadm⟩
  obtain ⟨hw, hwid⟩ := mem_rumorsAbout.mp hw
  obtain ⟨r, hr, hrid, hradm, hmax⟩ :=
    h id hid hget ⟨w.1, List.mem_map_of_mem hw, hwid, hadm⟩
  obtain ⟨now, hr⟩ := exists_mem_of_map_fst hr
  refine ⟨(r, now), mem_rumorsAbout.mpr ⟨hr, hrid⟩, hradm, fun v hv => ?_⟩
  obtain ⟨hv, hvid⟩ := mem_rumorsAbout.mp hv
  exact hmax v.1 (List.mem_map_of_mem hv) hvid

/-- Any order of the rumors leaves the same members if no id the table lacks has a death on
top. -/
theorem sameMembers_of_noDeathOnTop (table : MemberTable)
    (hcons : Consistent (rumors.map Prod.fst))
    (htop : NoDeathOnTop table me (rumors.map Prod.fst))
    (hmem : ∀ r, r ∈ reordered.map Prod.fst ↔ r ∈ rumors.map Prod.fst) :
    SameMembers (table.mergeAll me reordered) (table.mergeAll me rumors) := by
  intro id
  by_cases hid : id = me
  · subst hid
    rw [get_mergeAll_me, get_mergeAll_me]
  rw [get_mergeAll table hid, get_mergeAll table hid]
  have hcoh : Register.Coherent entryRules WireMember.new
      (rumorsAbout id reordered ++ rumorsAbout id rumors) := by
    have hboth : Consistent ((reordered ++ rumors).map Prod.fst) := by
      refine hcons.of_mem fun r hr => ?_
      rw [List.map_append, List.mem_append] at hr
      exact hr.elim (hmem r).mp fun h => h
    simpa [rumorsAbout] using coherent_rumorsAbout hboth id
  have hsame := sameWrites_rumorsAbout hmem id
  cases hget : table.get id with
  | none =>
    exact Register.view_offers_none_of_settled hcoh hsame (settled_rumorsAbout htop hid hget)
  | some member => exact Register.view_offers_some hcoh hsame

theorem rumorsAbout_append (id : NodeId) (as bs : List (WireMember × Instant)) :
    rumorsAbout id (as ++ bs) = rumorsAbout id as ++ rumorsAbout id bs :=
  List.filter_append ..

theorem rumorsAbout_filter (id : NodeId) (p : WireMember × Instant → Bool)
    (rumors : List (WireMember × Instant)) :
    rumorsAbout id (rumors.filter p) = (rumorsAbout id rumors).filter p := by
  simp [rumorsAbout, List.filter_filter, Bool.and_comm]

/-- With a death on top, two orders of the same rumors end in different records. -/
theorem exists_reordering (table : MemberTable)
    (htop : ¬ NoDeathOnTop table me (rumors.map Prod.fst)) :
    ∃ as bs : List (WireMember × Instant), as.Perm rumors ∧ bs.Perm rumors ∧
      ¬ SameMembers (table.mergeAll me as) (table.mergeAll me bs) := by
  unfold NoDeathOnTop at htop
  push Not at htop
  obtain ⟨id, hid, hget, ⟨r, hr, hrid, hradm⟩, hexceeded⟩ := htop
  have hset : ¬ Register.Settled entryRules (rumorsAbout id rumors) := by
    intro hset
    obtain ⟨now, hr⟩ := exists_mem_of_map_fst hr
    obtain ⟨w, hw, hwadm, hmax⟩ := hset ⟨(r, now), mem_rumorsAbout.mpr ⟨hr, hrid⟩, hradm⟩
    obtain ⟨hw, hwid⟩ := mem_rumorsAbout.mp hw
    obtain ⟨d, hd, hdid, hlt⟩ := hexceeded w.1 (List.mem_map_of_mem hw) hwid hwadm
    obtain ⟨now', hd⟩ := exists_mem_of_map_fst hd
    exact absurd (hmax (d, now') (mem_rumorsAbout.mpr ⟨hd, hdid⟩)) (not_le_of_gt hlt)
  obtain ⟨a, b, ha, hb, hlt⟩ := Register.exists_perm_of_not_settled hset
  -- the rumors that may not create an entry first, and then last
  let admits : WireMember × Instant → Bool := fun w => w.1.admissible
  refine ⟨rumors.filter (fun w => !admits w) ++ rumors.filter admits,
    rumors.filter admits ++ rumors.filter (fun w => !admits w), ?_, ?_, ?_⟩
  · exact List.perm_append_comm.trans (List.filter_append_perm admits rumors)
  · exact List.filter_append_perm admits rumors
  · intro hsame
    have hsame := hsame id
    rw [get_mergeAll table hid, get_mergeAll table hid, hget, rumorsAbout_append,
      rumorsAbout_append, rumorsAbout_filter, rumorsAbout_filter] at hsame
    have hview : (some a).map WireMember.new = (some b).map WireMember.new := by
      rw [← ha, ← hb]
      exact hsame
    have hkey : a.key = b.key := congrArg WireMember.key (Option.some.inj hview)
    exact absurd hlt (by simp [entryRules, hkey])

/-! ## Repeating -/

/-- A split of one id's rumors is a split of them all. -/
theorem exists_split_of_rumorsAbout {before after : List (WireMember × Instant)}
    {r : WireMember × Instant} (h : rumorsAbout id rumors = before ++ r :: after) :
    ∃ b a, rumors = b ++ r :: a ∧ rumorsAbout id b = before ∧ rumorsAbout id a = after := by
  obtain ⟨b, rest, rfl, hb, hrest⟩ := List.filter_eq_append_iff.mp h
  obtain ⟨skipped, a, rfl, hskip, _, ha⟩ := List.filter_eq_cons_iff.mp hrest
  refine ⟨b ++ skipped, a, by simp, ?_, ha⟩
  have hnone : rumorsAbout id skipped = [] := List.filter_eq_nil_iff.mpr hskip
  rw [rumorsAbout_append, hnone, List.append_nil]
  exact hb

/-- `NoDeathLost`, for one id's rumors. -/
theorem noDeathLost_rumorsAbout {table : MemberTable} {before after : List (WireMember × Instant)}
    {r : WireMember × Instant} (hlost : NoDeathLost table me (rumors.map Prod.fst))
    (hid : id ≠ me) (hget : table.get id = none)
    (hsplit : rumorsAbout id rumors = before ++ r :: after)
    (hbefore : ∀ v ∈ before, entryRules.admits v = false) (hadm : entryRules.admits r = true) :
    ∀ d ∈ before, ∃ u ∈ r :: after, d.1.key ≤ u.1.key := by
  intro d hd
  obtain ⟨b, a, rfl, rfl, rfl⟩ := exists_split_of_rumorsAbout hsplit
  have hrid : r.1.id = id := by
    have : r ∈ rumorsAbout id (b ++ r :: a) := by rw [hsplit]; simp
    exact (mem_rumorsAbout.mp this).2
  subst hrid
  obtain ⟨hd, hdid⟩ := mem_rumorsAbout.mp hd
  have hb : ∀ v ∈ b.map Prod.fst, v.id = r.1.id → v.admissible = false := by
    intro v hv hvid
    obtain ⟨now, hv⟩ := exists_mem_of_map_fst hv
    exact hbefore (v, now) (mem_rumorsAbout.mpr ⟨hv, hvid⟩)
  obtain ⟨u, hu, huid, hle⟩ := hlost (b.map Prod.fst) r.1 (a.map Prod.fst) (by simp) hid hget hadm
    hb d.1 (List.mem_map_of_mem hd) hdid
  rcases List.mem_cons.mp hu with rfl | hu
  · exact ⟨r, by simp, hle⟩
  · obtain ⟨now, hu⟩ := exists_mem_of_map_fst hu
    exact ⟨(u, now), List.mem_cons_of_mem _ (mem_rumorsAbout.mpr ⟨hu, huid⟩), hle⟩

/-- If merging again changes nothing, no death was lost. -/
lemma noDeathLost_of_repeat
    (h : ∀ again : List (WireMember × Instant), again.map Prod.fst = rumors.map Prod.fst →
      ∀ id, ((table.mergeAll me rumors).mergeAll me again).get id =
        (table.mergeAll me rumors).get id) :
    NoDeathLost table me (rumors.map Prod.fst) := by
  intro before r after hsplit hid hget hadm hbefore d hd hdid
  -- the entry ends with the key of a rumor from `r` on, and `d` does not exceed it
  obtain ⟨tbefore, trest, htsplit, htb, htr⟩ := List.map_eq_append_iff.mp hsplit
  obtain ⟨tr, tafter, htrest, rfl, hta⟩ := List.map_eq_cons_iff.mp htr
  have habout : rumorsAbout tr.1.id rumors =
      rumorsAbout tr.1.id tbefore ++ tr :: rumorsAbout tr.1.id tafter := by
    rw [htsplit, htrest, rumorsAbout_append]
    simp [rumorsAbout]
  have hlost : ∀ v ∈ rumorsAbout tr.1.id tbefore, entryRules.admits v = false := by
    intro v hv
    obtain ⟨hv, hvid⟩ := mem_rumorsAbout.mp hv
    exact hbefore v.1 (htb ▸ List.mem_map_of_mem hv) hvid
  have hfirst : Register.offers entryRules none
      (rumorsAbout tr.1.id tbefore ++ tr :: rumorsAbout tr.1.id tafter) =
        Register.offers entryRules (some (entryRules.fresh tr)) (rumorsAbout tr.1.id tafter) :=
    Register.offers_none_of_first hlost hadm
  obtain ⟨e', he', hout⟩ :=
    Register.offers_some entryRules (entryRules.fresh tr) (rumorsAbout tr.1.id tafter)
  have hagain := h rumors rfl tr.1.id
  rw [get_mergeAll _ hid, get_mergeAll table hid, hget, Register.offers_twice_none_iff] at hagain
  obtain ⟨now, hd⟩ := exists_mem_of_map_fst (htb ▸ hd)
  have hle : d.key ≤ e'.key := hagain e' (by rw [habout, hfirst, he']) (d, now)
    (by rw [habout]; exact List.mem_append_left _ (mem_rumorsAbout.mpr ⟨hd, hdid⟩))
  rcases hout.eq_or with rfl | ⟨v, hv, rfl⟩
  · refine ⟨tr.1, by simp, rfl, ?_⟩
    rwa [show (entryRules.fresh tr).key = tr.1.key from entryRules.keyOf_fresh tr] at hle
  · obtain ⟨hv, hvid⟩ := mem_rumorsAbout.mp hv
    refine ⟨v.1, List.mem_cons_of_mem _ (hta ▸ List.mem_map_of_mem hv), hvid, ?_⟩
    rwa [show (entryRules.update (entryRules.fresh tr) v).key = v.1.key
      from entryRules.keyOf_update _ v] at hle

/-- If no death was lost, merging again changes nothing. -/
lemma NoDeathLost.get_again {again : List (WireMember × Instant)}
    (hlost : NoDeathLost table me (rumors.map Prod.fst))
    (hagain : again.map Prod.fst = rumors.map Prod.fst) (id : NodeId) :
    ((table.mergeAll me rumors).mergeAll me again).get id = (table.mergeAll me rumors).get id := by
  by_cases hid : id = me
  · subst hid
    rw [get_mergeAll_me]
  rw [get_mergeAll _ hid, get_mergeAll table hid]
  -- every rumor merged again is one of those merged before
  have hback : ∀ v ∈ rumorsAbout id again, ∃ w ∈ rumorsAbout id rumors, w.1 = v.1 := by
    intro v hv
    obtain ⟨hv, hvid⟩ := mem_rumorsAbout.mp hv
    obtain ⟨now, hw⟩ := exists_mem_of_map_fst (hagain ▸ List.mem_map_of_mem hv)
    exact ⟨(v.1, now), mem_rumorsAbout.mpr ⟨hw, hvid⟩, rfl⟩
  cases hget : table.get id with
  | some member =>
    obtain ⟨e', he', hout⟩ := Register.offers_some entryRules member (rumorsAbout id rumors)
    rw [he']
    refine Register.offers_eq_of_le fun v hv => ?_
    obtain ⟨w, hw, hwv⟩ := hback v hv
    show v.1.key ≤ e'.key
    exact hwv ▸ hout.le w hw
  | none =>
    rcases Register.exists_first_admitted (R := entryRules) (rumorsAbout id rumors) with
      hall | ⟨before, r, after, hsplit, hbefore, hadm⟩
    · rw [Register.offers_none_of_not_admits hall]
      refine Register.offers_none_of_not_admits fun v hv => ?_
      obtain ⟨w, hw, hwv⟩ := hback v hv
      show v.1.admissible = false
      exact hwv ▸ hall w hw
    · obtain ⟨e', he', hout⟩ := Register.offers_some entryRules (entryRules.fresh r) after
      rw [hsplit, Register.offers_none_of_first hbefore hadm, he']
      refine Register.offers_eq_of_le fun v hv => ?_
      obtain ⟨w, hw, hwv⟩ := hback v hv
      show v.1.key ≤ e'.key
      rw [← hwv]
      have hfrom : ∀ u ∈ r :: after, u.1.key ≤ e'.key := by
        intro u hu
        rcases List.mem_cons.mp hu with rfl | hu
        · exact (entryRules.keyOf_fresh u).symm.le.trans hout.keyOf_le
        · exact hout.le u hu
      rw [hsplit, List.mem_append] at hw
      rcases hw with hw | hw
      · obtain ⟨u, hu, hle⟩ := noDeathLost_rumorsAbout hlost hid hget hsplit hbefore hadm w hw
        exact hle.trans (hfrom u hu)
      · exact hfrom w hw

/-- Merging the same rumors again changes nothing exactly when no death was lost. -/
theorem repeat_iff (table : MemberTable) (me : NodeId) (rumors : List (WireMember × Instant)) :
    (∀ again : List (WireMember × Instant), again.map Prod.fst = rumors.map Prod.fst →
        ∀ id, ((table.mergeAll me rumors).mergeAll me again).get id =
          (table.mergeAll me rumors).get id) ↔
      NoDeathLost table me (rumors.map Prod.fst) :=
  ⟨noDeathLost_of_repeat, fun hlost _ hagain => hlost.get_again hagain⟩

/-! ## The exact conditions -/

/-- Without a death on top none is lost, whatever the order. -/
theorem NoDeathOnTop.noDeathLost {table : MemberTable} {rumors : List WireMember}
    (h : NoDeathOnTop table me rumors) : NoDeathLost table me rumors := by
  intro before r after hsplit hid hget hadm hbefore d hd hdid
  obtain ⟨top, htop, htopid, htopadm, hmax⟩ :=
    h r.id hid hget ⟨r, by simp [hsplit], rfl, hadm⟩
  refine ⟨top, ?_, htopid, hmax d (by simp [hsplit, hd]) hdid⟩
  rw [hsplit, List.mem_append] at htop
  rcases htop with htop | htop
  · exact absurd htopadm (by simp [hbefore top htop htopid])
  · exact htop

/-- Order-independence holds exactly when no id the table lacks has a death on top, and a
repeat is a no-op exactly when no death was lost. Without a death on top both hold. -/
theorem mergeAll_order_and_repeat (table : MemberTable) (me : NodeId)
    (rumors : List (WireMember × Instant)) (hcons : Consistent (rumors.map Prod.fst)) :
    ((∀ reordered : List (WireMember × Instant),
        (reordered.map Prod.fst).Perm (rumors.map Prod.fst) →
          SameMembers (table.mergeAll me reordered) (table.mergeAll me rumors)) ↔
      NoDeathOnTop table me (rumors.map Prod.fst)) ∧
    ((∀ again : List (WireMember × Instant), again.map Prod.fst = rumors.map Prod.fst →
        ∀ id, ((table.mergeAll me rumors).mergeAll me again).get id =
          (table.mergeAll me rumors).get id) ↔
      NoDeathLost table me (rumors.map Prod.fst)) ∧
    (NoDeathOnTop table me (rumors.map Prod.fst) →
      NoDeathLost table me (rumors.map Prod.fst)) := by
  refine ⟨⟨?_, ?_⟩, repeat_iff table me rumors, NoDeathOnTop.noDeathLost⟩
  · intro h
    by_contra htop
    obtain ⟨as, bs, has, hbs, hdiff⟩ := exists_reordering table htop
    refine hdiff fun id => ?_
    rw [h as (has.map Prod.fst) id, h bs (hbs.map Prod.fst) id]
  · intro htop reordered hperm
    exact sameMembers_of_noDeathOnTop table hcons htop fun r => hperm.mem_iff

/-- One member's rumors, for the examples below. -/
def sampleRumor (state : WireMemberState) (incarnation : Incarnation) : WireMember where
  id := ⟨Vector.replicate 16 1⟩
  addr := ⟨.v4 #v[10, 0, 0, 1], 7946⟩
  incarnation := incarnation
  state := state
  ready := true
  tags := []

theorem consistent_sampleRumor (states : List (WireMemberState × Incarnation)) :
    Consistent (states.map fun s => sampleRumor s.1 s.2) := by
  constructor <;>
  · simp only [List.mem_map]
    rintro _ ⟨a, _, rfl⟩ _ ⟨b, _, rfl⟩
    simp [sampleRumor]

/-- A refuted suspicion has no death on top: either order leaves the member alive at 1. -/
theorem mergeAll_order_and_repeat_refuted :
    ((∀ reordered : List (WireMember × Instant),
        (reordered.map Prod.fst).Perm [sampleRumor .suspect 0, sampleRumor .alive 1] →
          SameMembers (new.mergeAll ⟨Vector.replicate 16 0⟩ reordered)
            (new.mergeAll ⟨Vector.replicate 16 0⟩
              [(sampleRumor .suspect 0, 5), (sampleRumor .alive 1, 6)])) ↔
      NoDeathOnTop new ⟨Vector.replicate 16 0⟩ [sampleRumor .suspect 0, sampleRumor .alive 1]) ∧
    NoDeathOnTop new ⟨Vector.replicate 16 0⟩ [sampleRumor .suspect 0, sampleRumor .alive 1] := by
  refine ⟨(mergeAll_order_and_repeat new ⟨Vector.replicate 16 0⟩
    [(sampleRumor .suspect 0, 5), (sampleRumor .alive 1, 6)]
    (consistent_sampleRumor [(.suspect, 0), (.alive, 1)])).1, ?_⟩
  rintro id _ _ ⟨r, hr, rfl, _⟩
  refine ⟨sampleRumor .alive 1, by simp, ?_, by decide, ?_⟩
  · rcases List.mem_pair.mp hr with rfl | rfl <;> rfl
  · intro d hd _
    rcases List.mem_pair.mp hd with rfl | rfl <;> decide

/-- A member unknown so far is heard of as dead at 1 and as alive at 0. Told in this order
it ends up alive, told in the other it ends up dead, and telling the first order twice
changes the table. -/
theorem mergeAll_order_dependent :
    let me : NodeId := ⟨Vector.replicate 16 0⟩
    let rumors := [(sampleRumor .dead 1, 0), (sampleRumor .alive 0, 0)]
    Consistent (rumors.map Prod.fst) ∧ rumors.reverse.Perm rumors ∧
      ¬ SameMembers (new.mergeAll me rumors.reverse) (new.mergeAll me rumors) ∧
      ¬ SameMembers ((new.mergeAll me rumors).mergeAll me rumors) (new.mergeAll me rumors) := by
  intro me rumors
  refine ⟨consistent_sampleRumor [(.dead, 1), (.alive, 0)], rumors.reverse_perm, ?_, ?_⟩
  · intro h
    exact absurd (h (sampleRumor .alive 0).id) (by decide)
  · intro h
    exact absurd (h (sampleRumor .alive 0).id) (by decide)

end MemberTable
end Dalila
