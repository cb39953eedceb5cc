import Dalila.Absorb
import Dalila.MergeOrder

/-!
# Refutations and readiness changes

Both move the node's own incarnation past another one, so that its next alive rumor overrules what
others hold (`Overrules`). The file proves that they do exactly below `u32::MAX`, where
`superseding` saturates (`refutation_and_readiness_win_iff`).
-/

namespace Dalila

open Program
open MemberTable (sampleRumor)

/-- Any table of another node whose entry is as old as `doubt` takes `news` for an update, and
its entry becomes alive. -/
def Overrules (news doubt : WireMember) : Prop :=
  ∀ (table : MemberTable) (now : Instant) (me : NodeId) (entry : Member),
    me ≠ doubt.id → table.get doubt.id = some entry → entry.key = doubt.key →
      (table.merge now news me).1 = .updated ∧
        ∃ entry', (table.merge now news me).2.get doubt.id = some entry' ∧
          entry'.state = .alive

/-- Applying `rumor` queues an alive rumor that overrules it, and an incarnation already above
it stays. -/
def RefutationWins (node : LocalNode) (now : Instant) (w : World) (rumor : WireMember) : Prop :=
  ∀ outcome w', Exec (Op.Run node now) (apply node rumor) w outcome w' →
    (∃ pending ∈ w'.shared.queue, pending.rumor.id = node.id ∧ pending.rumor.state = .alive ∧
      Overrules pending.rumor rumor) ∧
    (rumor.incarnation < w.shared.guarded.incarnation →
      w'.shared.guarded.incarnation = w.shared.guarded.incarnation)

namespace Guarded

/-- What the tasks of a node make of what its incarnation's lock guards, in any order. -/
inductive Moves : Guarded → Guarded → Prop where
  | refl (g : Guarded) : Moves g g
  | refute {g g' : Guarded} (rumored : Incarnation) (h : Moves g g') :
      Moves g (g'.refute rumored).2
  | leave {g g' : Guarded} (h : Moves g g') : Moves g g'.leave
  | setReady {g g' : Guarded} (ready : Bool) (h : Moves g g') : Moves g (g'.setReady ready).2

lemma Moves.incarnation_le {g g' : Guarded} (h : Moves g g') : g.incarnation ≤ g'.incarnation := by
  induction h with
  | refl => exact le_refl _
  | refute rumored _ ih => exact ih.trans (incarnation_le_refute _ rumored)
  | leave _ ih => exact ih
  | setReady ready _ ih => exact ih.trans (incarnation_le_setReady _ ready)

end Guarded

/-- Once the readiness changed from `g` on, every later alive rumor overrules whatever is said of
the node at the incarnation it had in `g₀`. -/
def ReadinessWins (node : LocalNode) (g₀ g : Guarded) (ready : Bool) : Prop :=
  ∀ g', Guarded.Moves (g.setReady ready).2 g' → ∀ record : WireMember, record.id = node.id →
    record.incarnation = g₀.incarnation → Overrules (node.aliveRumor g'.current) record

variable {node : LocalNode} {now : Instant} {w w' : World} {rumor news doubt : WireMember}

/-! ## When one rumor overrules another -/

lemma exists_ne (id : NodeId) : ∃ other : NodeId, other ≠ id := by
  by_cases h : id = ⟨Vector.replicate 16 0⟩
  · refine ⟨⟨Vector.replicate 16 1⟩, ?_⟩
    rw [h]
    decide
  · exact ⟨⟨Vector.replicate 16 0⟩, Ne.symm h⟩

/-- An alive rumor overrules exactly what was said at lower incarnations. -/
theorem overrules_iff (hid : news.id = doubt.id) (hstate : news.state = .alive) :
    Overrules news doubt ↔ doubt.incarnation < news.incarnation := by
  have hkey : doubt.key < news.key ↔ doubt.incarnation < news.incarnation := by
    rw [WireMember.key_lt_iff, hstate]
    simp [rank]
  rw [← hkey]
  constructor
  · intro h
    -- put to a table that holds nothing but the doubt
    obtain ⟨me, hme⟩ := exists_ne doubt.id
    have hget : (MemberTable.new.put (doubt.toMember 0)).get doubt.id =
        some (doubt.toMember 0) := by
      rw [MemberTable.get_put]
      exact if_pos rfl
    obtain ⟨hupdated, _⟩ := h _ 0 me _ hme hget (WireMember.key_toMember 0 doubt)
    have hspec := (MemberTable.new.put (doubt.toMember 0)).merge_spec 0 news me
    rw [hupdated] at hspec
    generalize ((MemberTable.new.put (doubt.toMember 0)).merge 0 news me).2 = table' at hspec
    cases hspec with
    | updated _ entry hget' hlt =>
      rw [hid, hget] at hget'
      obtain rfl := Option.some.inj hget'
      rwa [WireMember.key_toMember] at hlt
  · intro hlt table now me entry hme hget hentry
    have hne : news.id ≠ me := by
      rw [hid]
      exact Ne.symm hme
    have hspec := table.merge_spec now news me
    generalize (table.merge now news me).1 = outcome at hspec ⊢
    generalize (table.merge now news me).2 = table' at hspec ⊢
    cases hspec with
    | own hown _ => exact absurd hown hne
    | doubted hown _ => exact absurd hown hne
    | refused _ hnone _ => exact absurd (hnone.symm.trans (hid ▸ hget)) (by simp)
    | added _ hnone _ => exact absurd (hnone.symm.trans (hid ▸ hget)) (by simp)
    | stale _ entry' hget' hle =>
      rw [hid, hget] at hget'
      obtain rfl := Option.some.inj hget'
      rw [hentry] at hle
      exact absurd hlt (not_lt_of_ge hle)
    | updated _ entry' hget' _ =>
      have hnewsid : entry'.id = news.id := MemberTable.id_of_get hget'
      have hentryid : (entry'.update now news).id = news.id := hnewsid
      refine ⟨rfl, entry'.update now news, ?_, ?_⟩
      · rw [MemberTable.get_put, if_pos (by rw [hentryid, hid])]
      · show news.state.toMember now = .alive
        rw [hstate]
        rfl

/-! ## Refuting a doubt -/

/-- A node that stays answers a doubt about itself by moving on and queueing an alive rumor. -/
lemma exec_apply_doubt (hid : rumor.id = node.id) (hstate : rumor.state ≠ .alive)
    (hleaving : w.shared.guarded.leaving = false) {outcome : MergeOutcome} :
    Exec (Op.Run node now) (apply node rumor) w outcome w' ↔
      outcome = .refute rumor.incarnation ∧
        w' = { w with shared := { w.shared with
          guarded := (w.shared.guarded.refute rumor.incarnation).2
          queue := w.shared.queue.push
            (node.aliveRumor (w.shared.guarded.refute rumor.incarnation).2.current)
            (w.shared.table.len + 1) } } := by
  have hmerge : w.shared.table.merge now rumor node.id =
      (.refute rumor.incarnation, w.shared.table) := by
    unfold MemberTable.merge
    rw [if_pos hid]
    cases hs : rumor.state with
    | alive => exact absurd hs hstate
    | suspect => rfl
    | dead => rfl
  have hanswer : ∃ incarnation,
      (w.shared.guarded.refute rumor.incarnation).1 = some incarnation := by
    unfold Guarded.refute
    rw [if_neg (by simp [hleaving])]
    split_ifs
    · exact ⟨_, rfl⟩
    · exact ⟨_, rfl⟩
  obtain ⟨incarnation, hanswer⟩ := hanswer
  rw [exec_apply_iff, hmerge]
  constructor
  · rintro ⟨rfl, happlied⟩
    refine ⟨rfl, ?_⟩
    cases happlied with
    | queued hnews => exact absurd hnews (by simp)
    | unanswered hnone => exact absurd (hanswer.symm.trans hnone) (by simp)
    | answered => rfl
  · rintro ⟨rfl, rfl⟩
    exact ⟨rfl, .answered hanswer⟩

/-- At the top a refutation moves nowhere. -/
lemma Guarded.refute_max {g : Guarded} (hleaving : g.leaving = false) :
    (g.refute Incarnation.max).2.incarnation = Incarnation.max := by
  have hge : Incarnation.max ≥ g.incarnation := Nat.le_pred_of_lt g.incarnation.isLt
  unfold refute
  rw [if_neg (by simp [hleaving]), if_pos hge]
  rfl

/-- A refutation wins below the top, and only there. -/
theorem refutationWins_iff (hid : rumor.id = node.id) (hstate : rumor.state ≠ .alive)
    (hleaving : w.shared.guarded.leaving = false) :
    RefutationWins node now w rumor ↔ rumor.incarnation < Incarnation.max := by
  have halive : (node.aliveRumor (w.shared.guarded.refute rumor.incarnation).2.current).id =
      rumor.id := hid.symm
  constructor
  · intro h
    obtain ⟨⟨pending, hpending, hown, _, hoverrules⟩, _⟩ :=
      h _ _ ((exec_apply_doubt hid hstate hleaving).mpr ⟨rfl, rfl⟩)
    -- whatever was queued about the node before has been replaced
    rcases List.mem_append.mp hpending with hold | hnew
    · have hother := (List.mem_filter.mp hold).2
      rw [decide_eq_true_eq] at hother
      exact absurd hown hother
    obtain rfl := List.mem_singleton.mp hnew
    have hlt := (overrules_iff halive rfl).mp hoverrules
    by_contra hmax
    have htop : rumor.incarnation = Incarnation.max :=
      le_antisymm (Nat.le_pred_of_lt rumor.incarnation.isLt) (not_lt.mp hmax)
    have hmoved : (w.shared.guarded.refute rumor.incarnation).2.incarnation =
        rumor.incarnation := by
      rw [htop]
      exact Guarded.refute_max hleaving
    have hlt : rumor.incarnation < (w.shared.guarded.refute rumor.incarnation).2.incarnation := hlt
    rw [hmoved] at hlt
    exact absurd hlt (lt_irrefl _)
  · intro hmax outcome w' h
    obtain ⟨_, rfl⟩ := (exec_apply_doubt hid hstate hleaving).mp h
    constructor
    · refine ⟨_, List.mem_append_right _ (List.mem_singleton.mpr rfl), rfl, rfl, ?_⟩
      exact (overrules_iff halive rfl).mpr (Guarded.lt_refute hleaving hmax)
    · intro hbeaten
      show (w.shared.guarded.refute rumor.incarnation).2.incarnation = _
      unfold Guarded.refute
      rw [if_neg (by simp [hleaving]), if_neg (not_le_of_gt hbeaten)]

/-! ## Changing readiness -/

lemma Guarded.setReady_incarnation {g : Guarded} {ready : Bool}
    (hchanged : (g.setReady ready).1 = true) :
    (g.setReady ready).2.incarnation = Incarnation.superseding g.incarnation := by
  unfold setReady at hchanged ⊢
  split_ifs at hchanged ⊢
  rfl

/-- A readiness change wins over what was said below the top, and over that only. -/
theorem readinessWins_iff {g₀ g : Guarded} {ready : Bool} (hmoves : Guarded.Moves g₀ g)
    (hchanged : (g.setReady ready).1 = true) :
    ReadinessWins node g₀ g ready ↔ g₀.incarnation < Incarnation.max := by
  have hafter := Guarded.setReady_incarnation hchanged
  constructor
  · intro h
    have hoverrules := h _ (.refl _) { node.aliveRumor g₀.current with state := .dead } rfl rfl
    have hlt := (overrules_iff (by rfl) (by rfl)).mp hoverrules
    by_contra hmax
    have htop : Incarnation.max ≤ g₀.incarnation := not_lt.mp hmax
    have hle : (g.setReady ready).2.incarnation ≤ Incarnation.max :=
      Nat.le_pred_of_lt (g.setReady ready).2.incarnation.isLt
    exact absurd hlt (not_lt_of_ge (hle.trans htop))
  · intro hmax g' hlater record hid hrecord
    refine (overrules_iff hid.symm rfl).mpr ?_
    rw [hrecord]
    have hnext : g₀.incarnation < (g.setReady ready).2.incarnation := by
      rw [hafter]
      by_cases hg : g.incarnation < Incarnation.max
      · exact lt_of_le_of_lt hmoves.incarnation_le (Incarnation.lt_superseding hg)
      · exact lt_of_lt_of_le hmax ((not_lt.mp hg).trans (Incarnation.le_superseding _))
    exact lt_of_lt_of_le hnext hlater.incarnation_le

/-- A refutation wins exactly if the doubt is not at the top incarnation, and a readiness change
wins over exactly the incarnations the node went by that are not the top one. -/
theorem refutation_and_readiness_win_iff (node : LocalNode) :
    (∀ (now : Instant) (w : World) (rumor : WireMember),
      w.shared.guarded.leaving = false → rumor.id = node.id → rumor.state ≠ .alive →
        (RefutationWins node now w rumor ↔ rumor.incarnation < Incarnation.max)) ∧
    ∀ (g₀ g : Guarded) (ready : Bool), Guarded.Moves g₀ g → (g.setReady ready).1 = true →
      (ReadinessWins node g₀ g ready ↔ g₀.incarnation < Incarnation.max) :=
  ⟨fun _ _ _ hleaving hid hstate => refutationWins_iff hid hstate hleaving,
    fun _ _ _ hmoves hchanged => readinessWins_iff hmoves hchanged⟩

/-- A doubt at 0 about a node that is at 0 itself, and a readiness change from there. -/
theorem refutation_and_readiness_win_iff_sample :
    (RefutationWins ⟨(sampleRumor .suspect 0).id, (sampleRumor .suspect 0).addr, []⟩ 0
      ⟨.new, []⟩ (sampleRumor .suspect 0) ↔ (0 : Incarnation) < Incarnation.max) ∧
    (ReadinessWins ⟨(sampleRumor .suspect 0).id, (sampleRumor .suspect 0).addr, []⟩
      .new .new false ↔ (0 : Incarnation) < Incarnation.max) :=
  ⟨(refutation_and_readiness_win_iff _).1 0 ⟨.new, []⟩ (sampleRumor .suspect 0) rfl rfl (by decide),
    (refutation_and_readiness_win_iff _).2 .new .new false (.refl _) rfl⟩

/-- A doubt at the top incarnation is never refuted. -/
theorem doubt_at_max_stands :
    let node : LocalNode := ⟨(sampleRumor .suspect 0).id, (sampleRumor .suspect 0).addr, []⟩
    Shared.new.guarded.leaving = false ∧
      ¬ RefutationWins node 0 ⟨.new, []⟩ (sampleRumor .suspect Incarnation.max) := by
  intro node
  refine ⟨rfl, fun h => ?_⟩
  have hmax := (refutationWins_iff rfl (by decide) rfl).mp h
  exact absurd hmax (lt_irrefl _)

end Dalila
