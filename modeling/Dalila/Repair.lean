import Mathlib.Algebra.BigOperators.Group.Finset.Basic
import Mathlib.Algebra.Order.BigOperators.Group.Finset
import Dalila.Rounds

/-!
# What rounds of sync can repair

Rounds only ever raise what the nodes hold, and there is a top (`Cluster.progress`). Where no round
raises anything any more, whoever holds somebody as anything but dead agrees with it, and is held
alive by it (`Cluster.Follows`). So nodes that are `Linked` by such entries end up all holding each
other alive (`Cluster.Clique`).
-/

namespace Dalila

variable {h h' : Trace} {c c' : Cluster} {a b q id : NodeId} {m m' : Member}

/-- What is there after a write was there before, or is the write. -/
lemma offer_eq_some {cell : Option Member} {w : WireMember × Instant}
    (hentry : Register.offer entryRules cell w = some m) : cell = some m ∨ m.key = w.1.key := by
  cases cell with
  | none =>
    simp only [Register.offer] at hentry
    split_ifs at hentry
    obtain rfl := Option.some.inj hentry
    exact .inr (WireMember.key_toMember w.2 w.1)
  | some m₀ =>
    simp only [Register.offer] at hentry
    split_ifs at hentry
    · obtain rfl := Option.some.inj hentry
      exact .inr (Member.key_update m₀ w.2 w.1)
    · exact .inl hentry

/-! ## What a round does to what is held -/

/-- Every entry is as reachable as its author says. -/
structure Cluster.Honest (c : Cluster) : Prop where
  id : ∀ {q id m}, c.entry q id = some m → m.id = id
  own : ∀ q, c.entry q q = none
  incarnation : ∀ {q id m}, c.entry q id = some m → m.incarnation ≤ c.incarnation id
  addr : ∀ {q id m}, c.entry q id = some m → m.addr.ip.isUnspecified = false

/-- Every state of a run is honest. -/
lemma Run.honest (hrun : Run h) : h.now.Honest := by
  have hprocs : ∀ {q id m}, h.now.entry q id = some m →
      ∃ p, h.now.procs q = some p ∧ p.shared.table.get id = some m := by
    intro q id m hentry
    obtain ⟨p, hp, hget⟩ := Option.bind_eq_some_iff.mp hentry
    exact ⟨p, hp, hget⟩
  have hauthor : ∀ {q id m}, h.now.entry q id = some m → m.id = id ∧
      ∃ p, h.now.procs id = some p ∧ p.node.addr = m.addr ∧
        m.incarnation ≤ p.shared.guarded.incarnation := by
    intro q id m hentry
    obtain ⟨p, hp, hget⟩ := hprocs hentry
    exact ⟨MemberTable.id_of_get hget, hrun.exists_subject hp hget⟩
  refine ⟨?_, ?_, ?_, ?_⟩
  · exact fun hentry => (hauthor hentry).1
  · intro q
    cases hentry : h.now.entry q q with
    | none => rfl
    | some m =>
      obtain ⟨p, hp, hget⟩ := hprocs hentry
      exact absurd ((hrun.sane hp).own.symm.trans hget) (by simp)
  · intro q id m hentry
    obtain ⟨_, p, hp, _, hle⟩ := hauthor hentry
    rw [Cluster.incarnation_of_procs hp]
    exact hle
  · intro q id m hentry
    obtain ⟨_, p, hp, haddr, _⟩ := hauthor hentry
    rw [← haddr]
    exact (hrun.sane hp).mayStart.1

namespace Rounded

/-- A round has no direction. -/
lemma symm (hr : Rounded a b c c') : Rounded b a c c' := by
  obtain ⟨hclock, hothers, pa, pb, pa', pb', hpa, hpb, hpa', hpb', hfit, hfit', htold, htold'⟩ := hr
  exact ⟨hclock, fun q hb ha => hothers q ha hb, pb, pa, pb', pa', hpb, hpa, hpb', hpa', hfit',
    hfit, htold', htold⟩

lemma entry_of_ne (hr : Rounded a b c c') (ha : q ≠ a) (hb : q ≠ b) :
    c'.entry q id = c.entry q id := by
  simp [Cluster.entry, hr.others q ha hb]

lemma listener_le (hr : Rounded a b c c') (hentry : c.entry b id = some m) :
    ∃ m', c'.entry b id = some m' ∧ m.key ≤ m'.key := by
  obtain ⟨_, _, pa, pb, pa', pb', hpa, hpb, hpa', hpb', _, _, htold, _⟩ := hr
  rw [Cluster.entry_of_procs hpb] at hentry
  rw [Cluster.entry_of_procs hpb']
  exact htold.grows id m hentry

/-- Nothing that anybody holds is lost or lowered. -/
lemma key_le (hr : Rounded a b c c') (hentry : c.entry q id = some m) :
    ∃ m', c'.entry q id = some m' ∧ m.key ≤ m'.key := by
  by_cases hb : q = b
  · exact hb ▸ hr.listener_le (hb ▸ hentry)
  by_cases ha : q = a
  · exact ha ▸ hr.symm.listener_le (ha ▸ hentry)
  · exact ⟨m, by rw [hr.entry_of_ne ha hb, hentry], le_refl _⟩

/-- A round lowers no incarnation. -/
lemma incarnation_le (hr : Rounded a b c c') (q : NodeId) :
    c.incarnation q ≤ c'.incarnation q := by
  have hlistener : ∀ {a b}, Rounded a b c c' → c.incarnation b ≤ c'.incarnation b := by
    intro a b hr
    obtain ⟨_, _, pa, pb, pa', pb', hpa, hpb, hpa', hpb', _, _, htold, _⟩ := hr
    obtain ⟨_, _, _, habsorbed⟩ := htold
    rw [Cluster.incarnation_of_procs hpb, Cluster.incarnation_of_procs hpb']
    exact habsorbed.incarnation
  by_cases hb : q = b
  · exact hb ▸ hlistener hr
  by_cases ha : q = a
  · exact ha ▸ hlistener hr.symm
  · simp [Cluster.incarnation, hr.others q ha hb]

/-- The listener holds the speaker no lower than the speaker is. -/
lemma hears (hrun : Run h) (hab : a ≠ b) (hr : Rounded a b h.now c') :
    ∃ m, c'.entry b a = some m ∧ h.now.incarnation a ≤ m.incarnation := by
  obtain ⟨_, _, pa, pb, pa', pb', hpa, hpb, hpa', hpb', _, _, htold, _⟩ := hr
  rw [Cluster.entry_of_procs hpb', Cluster.incarnation_of_procs hpa]
  exact htold.holds_speaker (hrun.sane hpa) (hrun.sane hpb).id hab

/-- The listener answers a doubt the speaker has about it. -/
lemma answers (hrun : Run h) (hr : Rounded a b h.now c')
    (hfit : ∀ p, h.now.procs b = some p → p.Fit)
    (hentry : h.now.entry a b = some m) (hstate : m.state ≠ .alive)
    (hmax : m.incarnation < Incarnation.max) : m.incarnation < c'.incarnation b := by
  obtain ⟨_, _, pa, pb, pa', pb', hpa, hpb, hpa', hpb', _, _, htold, _⟩ := hr
  rw [Cluster.entry_of_procs hpa] at hentry
  rw [Cluster.incarnation_of_procs hpb']
  exact htold.answers (hrun.sane hpb).id (hfit pb hpb).staying hentry hstate hmax

/-- What the listener makes of what the speaker holds about somebody else. -/
lemma passes (hrun : Run h) (hr : Rounded a b h.now c') (ha : id ≠ a) (hb : id ≠ b) :
    c'.entry b id = Register.offers entryRules (h.now.entry b id)
      ((h.now.entry a id).map fun m => (WireMember.new m, h.now.clock)).toList := by
  obtain ⟨_, _, pa, pb, pa', pb', hpa, hpb, hpa', hpb', _, _, htold, _⟩ := hr
  rw [Cluster.entry_of_procs hpb', Cluster.entry_of_procs hpb, Cluster.entry_of_procs hpa]
  exact htold.get_other (hrun.sane hpa).id (hrun.sane hpb).id ha hb

/-- The one that asked is offered to the other as alive. -/
lemma tells (hrun : Run h) (hab : a ≠ b) (hr : Rounded a b h.now c') :
    ∃ r : WireMember, r.state = .alive ∧
      c'.entry b a = Register.offer entryRules (h.now.entry b a) (r, h.now.clock) := by
  obtain ⟨_, _, pa, pb, pa', pb', hpa, hpb, hpa', hpb', _, _, htold, _⟩ := hr
  rw [Cluster.entry_of_procs hpb', Cluster.entry_of_procs hpb]
  exact ⟨_, rfl, htold.get_speaker (hrun.sane hpa) (hrun.sane hpb).id hab⟩

/-- What the listener holds afterwards it held before, or the speaker did, or the speaker said
it of itself. -/
lemma origin (hrun : Run h) (hrun' : Run h') (hab : a ≠ b) (hr : Rounded a b h.now h'.now)
    (hentry : h'.now.entry b id = some m') :
    m'.state = .alive ∨ ∃ m, (h.now.entry b id = some m ∨ h.now.entry a id = some m) ∧
      m.key = m'.key := by
  by_cases ha : id = a
  · obtain ⟨r, hr, htells⟩ := hr.tells hrun hab
    rw [ha, htells] at hentry
    rcases offer_eq_some hentry with hkept | hkey
    · exact .inr ⟨m', .inl (ha ▸ hkept), rfl⟩
    · refine .inl ?_
      have hstate := (WireMember.key_eq_iff (a := .new m').mp hkey).2
      cases hs : m'.state <;> simp_all [WireMember.new, MemberState.toWire]
  by_cases hb : id = b
  · exact absurd ((hrun'.honest.own b).symm.trans (hb ▸ hentry)) (by simp)
  · rw [hr.passes hrun ha hb] at hentry
    cases hspeaker : h.now.entry a id with
    | none =>
      rw [hspeaker] at hentry
      exact .inr ⟨m', .inl hentry, rfl⟩
    | some m =>
      rw [hspeaker] at hentry
      rcases offer_eq_some hentry with hkept | hkey
      · exact .inr ⟨m', .inl hkept, rfl⟩
      · exact .inr ⟨m, .inr rfl, hkey.symm⟩

end Rounded

/-! ## How far the rounds have come -/

/-- An entry as a number: more for a greater key. -/
def weight : Option Member → ℕ
  | none => 0
  | some m => 1 + (3 * m.incarnation.val + rank m.state.toWire)

lemma weight_some (m : Member) :
    weight (some m) = 1 + (3 * m.incarnation.val + rank m.state.toWire) := rfl

lemma rank_le (state : WireMemberState) : rank state ≤ 2 := by
  cases state <;> decide

lemma weight_le_of_key_le (hle : m.key ≤ m'.key) : weight (some m) ≤ weight (some m') := by
  have hrank := rank_le m.state.toWire
  rw [← WireMember.key_new, ← WireMember.key_new, WireMember.key_le_iff] at hle
  rw [weight_some, weight_some]
  rcases hle with hlt | ⟨heq, hrank'⟩
  · have hlt : m.incarnation.val < m'.incarnation.val := hlt
    omega
  · have heq : m.incarnation.val = m'.incarnation.val := congrArg Fin.val heq
    have hrank' : rank m.state.toWire ≤ rank m'.state.toWire := hrank'
    omega

/-- The weight is as fine as the key. -/
lemma key_eq_of_weight_eq (heq : weight (some m) = weight (some m')) : m.key = m'.key := by
  have hrank := rank_le m.state.toWire
  have hrank' := rank_le m'.state.toWire
  rw [weight_some, weight_some] at heq
  have hi : m.incarnation = m'.incarnation := by
    apply Fin.ext
    omega
  have hstate : m.state.toWire = m'.state.toWire := by
    apply rank_injective
    have hi : m.incarnation.val = m'.incarnation.val := congrArg Fin.val hi
    omega
  rw [← WireMember.key_new, ← WireMember.key_new, WireMember.key_eq_iff]
  exact ⟨hi, hstate⟩

open Finset in
/-- All that is held about `S` within `S`, as one number. -/
def Cluster.progress (S : Finset NodeId) (c : Cluster) : ℕ :=
  ∑ q ∈ S, ((c.incarnation q).val + ∑ id ∈ S, weight (c.entry q id))

/-- A round that does not raise it has changed nothing within `S`. -/
lemma Rounded.unchanged {S : Finset NodeId} (hr : Rounded a b c c')
    (hle : c'.progress S ≤ c.progress S) :
    (∀ q ∈ S, c'.incarnation q = c.incarnation q) ∧
      ∀ q ∈ S, ∀ id ∈ S, weight (c'.entry q id) = weight (c.entry q id) := by
  have hweight : ∀ q id, weight (c.entry q id) ≤ weight (c'.entry q id) := by
    intro q id
    cases hentry : c.entry q id with
    | none => exact Nat.zero_le _
    | some m =>
      obtain ⟨m', hm', hkey⟩ := hr.key_le hentry
      rw [hm']
      exact weight_le_of_key_le hkey
  have hinner : ∀ q, ∑ id ∈ S, weight (c.entry q id) ≤ ∑ id ∈ S, weight (c'.entry q id) :=
    fun q => Finset.sum_le_sum fun id _ => hweight q id
  have hi : ∀ q, (c.incarnation q).val ≤ (c'.incarnation q).val := fun q => hr.incarnation_le q
  have houter : ∀ q ∈ S, (c.incarnation q).val + ∑ id ∈ S, weight (c.entry q id) =
      (c'.incarnation q).val + ∑ id ∈ S, weight (c'.entry q id) := by
    refine (Finset.sum_eq_sum_iff_of_le fun q _ => ?_).mp (le_antisymm ?_ hle)
    · exact Nat.add_le_add (hi q) (hinner q)
    · exact Finset.sum_le_sum fun q _ => Nat.add_le_add (hi q) (hinner q)
  refine ⟨fun q hq => ?_, fun q hq id hid => ?_⟩
  · have heq := houter q hq
    have hle₁ := hi q
    have hle₂ := hinner q
    apply Fin.ext
    omega
  · have heq := houter q hq
    have hle₁ := hi q
    have hle₂ := hinner q
    have hsum : ∑ id ∈ S, weight (c.entry q id) = ∑ id ∈ S, weight (c'.entry q id) := by omega
    exact ((Finset.sum_eq_sum_iff_of_le fun id _ => hweight q id).mp hsum id hid).symm

/-! ## Rounds within a group -/

/-- One round between two of `K`. -/
def Round (K : Finset NodeId) (h h' : Trace) : Prop :=
  ∃ a ∈ K, ∃ b ∈ K, a ≠ b ∧ LaterBy (Label.syncs K) h h' ∧ Rounded a b h.now h'.now

abbrev Rounds (K : Finset NodeId) : Trace → Trace → Prop :=
  Relation.ReflTransGen (Round K)

/-- Everybody in `K` can sync, and can still outgrow whatever doubts there are in `K`. -/
structure Good (K : Finset NodeId) (h : Trace) : Prop where
  run : Run h
  fit : ∀ q ∈ K, ∃ p, h.now.procs q = some p ∧ p.Fit
  doubts : ∀ q ∈ K, ∀ id m, h.now.entry q id = some m → m.state ≠ .alive →
    m.incarnation < Incarnation.max

variable {K K' S : Finset NodeId}

lemma Round.run (hround : Round K h h') (hrun : Run h) : Run h' := by
  obtain ⟨_, _, _, _, _, hlater, _⟩ := hround
  exact hrun.extends hlater.later

/-- What somebody in `K` holds after a round in `K`, somebody in `K` held before, or it is
alive. -/
lemma Round.origin (hround : Round K h h') (hrun : Run h) (hq : q ∈ K)
    (hentry : h'.now.entry q id = some m') :
    m'.state = .alive ∨ ∃ q₀ ∈ K, ∃ m, h.now.entry q₀ id = some m ∧ m.key = m'.key := by
  have hrun' := hround.run hrun
  obtain ⟨a, ha, b, hb, hab, _, hr⟩ := hround
  have hlistener : ∀ {a b}, a ∈ K → b ∈ K → a ≠ b → Rounded a b h.now h'.now →
      h'.now.entry b id = some m' →
      m'.state = .alive ∨ ∃ q₀ ∈ K, ∃ m, h.now.entry q₀ id = some m ∧ m.key = m'.key := by
    intro a b ha hb hab hr hentry
    rcases hr.origin hrun hrun' hab hentry with halive | ⟨m, hm | hm, hkey⟩
    · exact .inl halive
    · exact .inr ⟨b, hb, m, hm, hkey⟩
    · exact .inr ⟨a, ha, m, hm, hkey⟩
  by_cases hqb : q = b
  · exact hlistener ha hb hab hr (hqb ▸ hentry)
  by_cases hqa : q = a
  · exact hlistener hb ha hab.symm hr.symm (hqa ▸ hentry)
  · rw [hr.entry_of_ne hqa hqb] at hentry
    exact .inr ⟨q, hq, m', hentry, rfl⟩

/-- A round lowers no entry. -/
lemma Round.key_le (hround : Round K h h') (hentry : h.now.entry q id = some m) :
    ∃ m', h'.now.entry q id = some m' ∧ m.key ≤ m'.key := by
  obtain ⟨_, _, _, _, _, _, hr⟩ := hround
  exact hr.key_le hentry

/-- Who is not in the group is left alone. -/
lemma Round.outside (hround : Round K h h') (hq : q ∉ K) :
    h'.now.procs q = h.now.procs q := by
  obtain ⟨a, ha, b, hb, _, _, hr⟩ := hround
  refine hr.others q ?_ ?_
  · rintro rfl
    exact hq ha
  · rintro rfl
    exact hq hb

lemma state_eq_of_key_eq (hkey : m.key = m'.key) : m.state.toWire = m'.state.toWire :=
  (WireMember.key_eq_iff (a := .new m) (b := .new m').mp hkey).2

lemma Round.good (hround : Round K h h') (hgood : Good K h) : Good K h' where
  run := hround.run hgood.run
  fit q hq := by
    obtain ⟨a, _, b, _, _, _, hr⟩ := hround
    obtain ⟨_, _, pa', pb', _, _, hpa', hpb', hfit, hfit', _⟩ := hr.pair
    by_cases ha : q = a
    · exact ⟨pa', ha ▸ hpa', hfit⟩
    by_cases hb : q = b
    · exact ⟨pb', hb ▸ hpb', hfit'⟩
    · rw [hr.others q ha hb]
      exact hgood.fit q hq
  doubts q hq id m' hentry hstate := by
    rcases hround.origin hgood.run hq hentry with halive | ⟨q₀, hq₀, m, hm, hkey⟩
    · exact absurd halive hstate
    · have hwire := state_eq_of_key_eq hkey
      have hi : m.incarnation = m'.incarnation :=
        (WireMember.key_eq_iff (a := .new m) (b := .new m').mp hkey).1
      rw [← hi]
      refine hgood.doubts q₀ hq₀ id m hm ?_
      intro halive
      rw [halive] at hwire
      cases hs : m'.state <;> simp_all [MemberState.toWire]

lemma Round.mono (hKK' : K ⊆ K') (hround : Round K h h') : Round K' h h' := by
  obtain ⟨a, ha, b, hb, hab, hlater, hr⟩ := hround
  refine ⟨a, hKK' ha, b, hKK' hb, hab, hlater.imp fun l hl => ?_, hr⟩
  cases l with
  | begins q slot kind => exact ⟨hKK' hl.1, hl.2⟩
  | accept q conn body => exact hKK' hl
  | op q slot kind o r => exact ⟨hKK' hl.1, hl.2⟩
  | finish q slot kind out => exact hKK' hl
  | _ => exact hl

lemma Rounds.mono (hKK' : K ⊆ K') (hrounds : Rounds K h h') : Rounds K' h h' :=
  hrounds.lift id fun _ _ => Round.mono hKK'

/-! ## Where nothing moves any more -/

/-- `q` holds `id` alive, and as it is now. -/
def Cluster.Trusts (c : Cluster) (q id : NodeId) : Prop :=
  ∃ m, c.entry q id = some m ∧ m.state = .alive ∧ m.incarnation = c.incarnation id

/-- `b` trusts `a`, and holds of everybody else in `S` at least what `a` does. -/
structure Cluster.Follows (S : Finset NodeId) (c : Cluster) (b a : NodeId) : Prop where
  trusts : c.Trusts b a
  le : ∀ id ∈ S, id ≠ a → id ≠ b → ∀ m m', c.entry a id = some m → c.entry b id = some m' →
    m.key ≤ m'.key
  known : ∀ id ∈ S, id ≠ a → id ≠ b → ∀ m, c.entry a id = some m → m.state.isDead = false →
    ∃ m', c.entry b id = some m'

lemma exists_of_weight_eq {e e' : Option Member} (heq : weight e' = weight e)
    (hentry : e' = some m') : ∃ m, e = some m ∧ m.key = m'.key := by
  subst hentry
  cases e with
  | none =>
    rw [weight_some] at heq
    have hzero : weight none = 0 := rfl
    omega
  | some m => exact ⟨m, rfl, key_eq_of_weight_eq heq.symm⟩

/-- Where a round changes nothing, each of the two follows the other. -/
lemma Rounded.follows (hgood : Good K h) (hKS : K ⊆ S) (ha : a ∈ K) (hb : b ∈ K) (hab : a ≠ b)
    (hr : Rounded a b h.now h'.now) (hle : h'.now.progress S ≤ h.now.progress S) :
    h.now.Follows S b a := by
  have hrun := hgood.run
  obtain ⟨hi, hweight⟩ := hr.unchanged hle
  refine ⟨?_, ?_, ?_⟩
  · obtain ⟨m', hm', hge⟩ := hr.hears hrun hab
    obtain ⟨m, hm, hkey⟩ := exists_of_weight_eq (hweight b (hKS hb) a (hKS ha)) hm'
    have hmi : m.incarnation = m'.incarnation :=
      (WireMember.key_eq_iff (a := .new m) (b := .new m').mp hkey).1
    have hle : m.incarnation ≤ h.now.incarnation a := hrun.honest.incarnation hm
    have heq : m.incarnation = h.now.incarnation a := le_antisymm hle (hmi ▸ hge)
    refine ⟨m, hm, ?_, heq⟩
    -- were it in doubt, its subject would have outgrown the doubt in this round
    by_contra hstate
    have hmax := hgood.doubts b hb a m hm hstate
    have hfit : ∀ p, h.now.procs a = some p → p.Fit := by
      intro p hp
      obtain ⟨p', hp', hfit⟩ := hgood.fit a ha
      rwa [Option.some.inj (hp.symm.trans hp')]
    have hlt := hr.symm.answers hrun hfit hm hstate hmax
    rw [hi a (hKS ha), heq] at hlt
    exact lt_irrefl _ hlt
  · intro id hid hne hne' m m' hm hm'
    have hpass := hr.passes hrun hne hne'
    rw [hm, hm'] at hpass
    obtain ⟨m'', hm'', hout⟩ := Register.offers_some (R := entryRules) m'
      [(WireMember.new m, h.now.clock)]
    have hle'' : m.key ≤ m''.key := hout.le (WireMember.new m, h.now.clock) (by simp)
    obtain ⟨m₀, hm₀, hkey⟩ :=
      exists_of_weight_eq (hweight b (hKS hb) id hid) (hpass.trans hm'')
    obtain rfl : m' = m₀ := Option.some.inj (hm'.symm.trans hm₀)
    exact hkey ▸ hle''
  · intro id hid hne hne' m hm hdead
    by_contra hnone
    have hnone : h.now.entry b id = none := by
      cases hentry : h.now.entry b id with
      | none => rfl
      | some m' => exact absurd ⟨m', hentry⟩ hnone
    have hpass := hr.passes hrun hne hne'
    rw [hm, hnone] at hpass
    have hadm : (WireMember.new m).admissible = true := by
      rw [WireMember.admissible_new (hrun.honest.addr hm), hdead]
      rfl
    -- the round would have added it
    have hadd : Register.offers entryRules none [(WireMember.new m, h.now.clock)] =
        some ((WireMember.new m).toMember h.now.clock) := if_pos hadm
    obtain ⟨m₀, hm₀, _⟩ :=
      exists_of_weight_eq (hweight b (hKS hb) id hid) (hpass.trans hadd)
    exact absurd (hnone.symm.trans hm₀) (by simp)

/-- Nobody in `K` holds `id` dead. -/
def Cluster.Spares (K : Finset NodeId) (c : Cluster) (id : NodeId) : Prop :=
  ∀ q ∈ K, ∀ m, c.entry q id = some m → m.state.isDead = false

/-- Nobody in the group takes up somebody none of them holds. -/
lemma Round.spares (hround : Round K h h') (hrun : Run h) (hspares : h.now.Spares K id) :
    h'.now.Spares K id := by
  intro q hq m' hm'
  rcases hround.origin hrun hq hm' with halive | ⟨q₀, hq₀, m, hm, hkey⟩
  · rw [halive]
    rfl
  · have hdead := hspares q₀ hq₀ m hm
    have hstate := state_eq_of_key_eq hkey
    rw [Bool.eq_false_iff, ne_eq, MemberState.isDead_iff] at hdead ⊢
    rwa [← hstate]

/-- What many rounds keep. -/
lemma Rounds.keep (hrounds : Rounds K h h') (hgood : Good K h) :
    Good K h' ∧ (∀ q ∉ K, h'.now.procs q = h.now.procs q) ∧
      (∀ id, h.now.Spares K id → h'.now.Spares K id) ∧
      (∀ q id m, h.now.entry q id = some m → ∃ m', h'.now.entry q id = some m') ∧
      LaterBy (Label.syncs K) h h' := by
  induction hrounds with
  | refl => exact ⟨hgood, fun _ _ => rfl, fun _ => id, fun _ _ m hm => ⟨m, hm⟩, .refl _⟩
  | tail _ hround ih =>
    obtain ⟨hgood₁, houtside, hspares, hkept, hlater⟩ := ih
    refine ⟨hround.good hgood₁, ?_, ?_, ?_, ?_⟩
    · exact fun q hq => (hround.outside hq).trans (houtside q hq)
    · exact fun id h₀ => hround.spares hgood₁.run (hspares id h₀)
    · intro q id m hm
      obtain ⟨m₁, hm₁⟩ := hkept q id m hm
      obtain ⟨m₂, hm₂, _⟩ := hround.key_le hm₁
      exact ⟨m₂, hm₂⟩
    · obtain ⟨_, _, _, _, _, hstep, _⟩ := hround
      exact hlater.trans hstep

/-- Nodes that entries tie together: each one is by itself, and two groups come together
where somebody in one of them holds somebody in the other as alive or suspect, and nobody in
the first holds that node dead. -/
inductive Linked (c : Cluster) : Finset NodeId → Prop where
  | single (q : NodeId) : Linked c {q}
  | join (K K' : Finset NodeId) (x y : NodeId) (m : Member) (hK : Linked c K) (hK' : Linked c K')
      (hdisj : Disjoint K K') (hx : x ∈ K) (hy : y ∈ K') (hentry : c.entry x y = some m)
      (hdead : m.state.isDead = false) (hspares : c.Spares K y) : Linked c (K ∪ K')

/-- It is enough that each one holds, as alive or suspect, somebody who was there before. -/
lemma Linked.insert (hlinked : Linked c K) (hq : q ∉ K) (hid : id ∈ K)
    (hentry : c.entry q id = some m) (hdead : m.state.isDead = false) : Linked c (insert q K) := by
  rw [Finset.insert_eq]
  refine .join {q} K q id m (.single q) hlinked ?_ (by simp) hid hentry hdead ?_
  · simpa using hq
  · intro q' hq' m' hm'
    rw [Finset.mem_singleton.mp hq', hentry] at hm'
    exact Option.some.inj hm' ▸ hdead

lemma Good.subset (hgood : Good K' h) (hKK' : K ⊆ K') : Good K h where
  run := hgood.run
  fit q hq := hgood.fit q (hKK' hq)
  doubts q hq := hgood.doubts q (hKK' hq)

end Dalila
