import Dalila.Waiting
import Dalila.Repertoire

/-!
# What the detector does to one entry

While a member answers no probe and nobody hears anything newer about it, its entry only ages: from
alive to suspect to dead to gone, with clocks that are set once (`Ages`). The contract `aging`
states what each part of the detector's turn does to the entry, whatever else the process does
meanwhile, and `follows_part` that it does so.
-/

namespace Dalila

open Program

/-! ## How an entry ages -/

/-- One entry of a table, and the time. -/
structure Sight where
  clock : Instant
  entry : Option Member

/-- The clock of a doubt or a death. -/
def MemberState.since : MemberState → Option Instant
  | .alive => none
  | .suspect since => some since
  | .dead since => some since

/-- From `k` to `k'` the entry has at most aged: it is gone, or at the same incarnation, and
in the same state or in a higher one with a clock that was set meanwhile. -/
def Sight.Later (k k' : Sight) : Prop :=
  k.clock ≤ k'.clock ∧ ∀ m', k'.entry = some m' → ∃ m, k.entry = some m ∧
    m'.incarnation = m.incarnation ∧ (m'.state = m.state ∨
      rank m.state.toWire < rank m'.state.toWire ∧ ∀ since ∈ m'.state.since, k.clock ≤ since)

namespace Sight

variable {k k' k'' : Sight} {m m' : Member}

lemma Later.refl (k : Sight) : k.Later k :=
  ⟨le_refl _, fun m hm => ⟨m, hm, rfl, .inl rfl⟩⟩

lemma Later.trans (h : k.Later k') (h' : k'.Later k'') : k.Later k'' := by
  refine ⟨h.1.trans h'.1, fun m'' hm'' => ?_⟩
  obtain ⟨m', hm', hi', hstate'⟩ := h'.2 m'' hm''
  obtain ⟨m, hm, hi, hstate⟩ := h.2 m' hm'
  refine ⟨m, hm, hi'.trans hi, ?_⟩
  rcases hstate' with hsame' | ⟨hrank', hsince'⟩
  · rcases hstate with hsame | ⟨hrank, hsince⟩
    · exact .inl (hsame'.trans hsame)
    · rw [hsame']
      exact .inr ⟨hrank, hsince⟩
  · refine .inr ⟨?_, fun since hs => h.1.trans (hsince' since hs)⟩
    rcases hstate with hsame | ⟨hrank, _⟩
    · rwa [← hsame]
    · exact hrank.trans hrank'

/-- The entry was there before, no higher. -/
lemma Later.exists_before (h : k.Later k') (hm' : k'.entry = some m') :
    ∃ m, k.entry = some m ∧ m'.incarnation = m.incarnation ∧
      rank m.state.toWire ≤ rank m'.state.toWire := by
  obtain ⟨m, hm, hi, hstate⟩ := h.2 m' hm'
  refine ⟨m, hm, hi, ?_⟩
  rcases hstate with hsame | ⟨hrank, _⟩
  · rw [hsame]
  · exact le_of_lt hrank

lemma Later.key_le (h : k.Later k') {key : Incarnation ×ₗ ℕ}
    (hkey : ∀ m, k.entry = some m → key ≤ m.key) : ∀ m, k'.entry = some m → key ≤ m.key := by
  intro m' hm'
  obtain ⟨m, hm, hi, hrank⟩ := h.exists_before hm'
  refine (hkey m hm).trans ?_
  rw [← WireMember.key_new, ← WireMember.key_new, WireMember.key_le_iff]
  exact .inr ⟨hi.symm, hrank⟩

/-- Only where the turn `drops` members can the entry go away. -/
def Ages (drops : Bool) (k k' : Sight) : Prop :=
  k.Later k' ∧ (drops = false → k.entry.isSome = true → k'.entry.isSome = true)

variable {drops : Bool}

lemma Ages.refl (drops : Bool) (k : Sight) : Ages drops k k :=
  ⟨.refl k, fun _ hsome => hsome⟩

lemma Ages.trans (h : Ages drops k k') (h' : Ages drops k' k'') : Ages drops k k'' :=
  ⟨h.1.trans h'.1, fun hdrops hsome => h'.2 hdrops (h.2 hdrops hsome)⟩

end Sight

/-! ## The contract -/

/-- A copy of the entry, which is still there at that incarnation. -/
def CopyOf (id : NodeId) (target : Member) (k : Sight) : Prop :=
  target.id = id → ∃ m, k.entry = some m ∧ target.incarnation = m.incarnation

/-- Rumors go in under the node's own id, about the entry only while it is there, and at no
higher incarnation. Only a dead entry is dropped. -/
def aging (node : LocalNode) (id : NodeId) (drops : Bool) : Contract Op Op.Res Sight where
  later := Sight.Ages drops
  later_refl := .refl drops
  later_trans := .trans
  pre o k :=
    match o with
    | .merge rumor me => me = node.id ∧
        (rumor.id = id → ∃ m, k.entry = some m ∧ rumor.incarnation ≤ m.incarnation)
    | .remove ids => id ∈ ids → drops = true ∧ ∀ m, k.entry = some m → m.state.isDead = true
    | _ => True
  post o r k :=
    match o, r with
    | .merge rumor _, _ => rumor.id = id → ∀ m, k.entry = some m → rumor.key ≤ m.key
    | .get i, r => (∀ m ∈ r, m.id = i) ∧ (i = id → r = k.entry)
    | .membersWhere f, r =>
      (∀ m, k.entry = some m → m.id = id ∧ (f k.clock m = true → m ∈ r)) ∧
        ∀ m ∈ r, m.id = id → k.entry = some m ∧ f k.clock m = true
    | .remove ids, _ => id ∈ ids → k.entry = none
    | _, _ => True

section

variable {node : LocalNode} {id : NodeId} {k k' : Sight} {T : Instant}

/-- A copy of the entry that the detector has in hand stays one as the entry ages. -/
lemma CopyOf.ages {target : Member} (h : CopyOf id target k) (hk : Sight.Ages false k k') :
    CopyOf id target k' := by
  intro hid
  obtain ⟨m, hm, hi⟩ := h hid
  have hsome : k'.entry.isSome = true := hk.2 rfl (by rw [hm]; rfl)
  obtain ⟨m', hm'⟩ := Option.isSome_iff_exists.mp hsome
  obtain ⟨m₀, hm₀, hi', _⟩ := hk.1.exists_before hm'
  rw [hm] at hm₀
  obtain rfl := Option.some.inj hm₀
  exact ⟨m', hm', hi.trans hi'.symm⟩

/-! ## The parts of a turn -/

/-- A mark of a copy is at least in the table afterwards. -/
lemma follows_mark {member : Member} {state : WireMemberState} (hcopy : CopyOf id member k) :
    Follows (aging node id false)
      (fun _ k => member.id = id → ∀ m, k.entry = some m → (markRumor member state).key ≤ m.key)
      (mark node member state) k := by
  unfold mark apply
  refine Follows.bind (Q := fun _ k => member.id = id → ∀ m, k.entry = some m →
    (markRumor member state).key ≤ m.key) ?_ fun outcome k₁ _ hmerged =>
      Follows.pure fun k₂ hk₂ hid => hk₂.1.key_le (hmerged hid)
  refine Follows.call_bind (fun k' hk' => ⟨rfl, fun hid => ?_⟩) fun outcome k₁ _ hmerged => ?_
  · obtain ⟨m, hm, hi⟩ := hcopy.ages hk' hid
    exact ⟨m, hm, le_of_eq hi⟩
  -- nothing after the merge touches the table
  have hdone : ∀ {α : Type} {k₂ : Sight} (a : α), Sight.Ages false k₁ k₂ →
      Follows (aging node id false) (fun _ k => member.id = id → ∀ m, k.entry = some m →
        (markRumor member state).key ≤ m.key) (pure a : Prog α) k₂ := fun a hk₂ =>
    Follows.pure fun k₃ hk₃ hid => (hk₂.trans hk₃).1.key_le (hmerged hid)
  refine Follows.call_bind (fun _ _ => trivial) fun len k₂ hk₂ _ => ?_
  cases outcome with
  | ignored => exact hdone _ hk₂
  | refute rumored =>
    refine Follows.call_bind (fun _ _ => trivial) fun _ k₃ hk₃ _ => ?_
    refine Follows.call_bind (fun _ _ => trivial) fun answer k₄ hk₄ _ => ?_
    have hk₄ := (Sight.Ages.trans hk₂ hk₃).trans hk₄
    cases answer with
    | none => exact hdone _ hk₄
    | some _ =>
      refine Follows.call_bind (fun _ _ => trivial) fun _ k₅ hk₅ _ => ?_
      refine Follows.call_bind (fun _ _ => trivial) fun _ k₆ hk₆ _ => ?_
      exact hdone _ ((hk₄.trans hk₅).trans hk₆)
  | _ =>
    refine Follows.call_bind (fun _ _ => trivial) fun _ k₃ hk₃ _ => ?_
    exact hdone _ (Sight.Ages.trans hk₂ hk₃)

/-- A failed probe leaves no entry alive at the incarnation that was probed. -/
lemma follows_handleResult {target : Member} {acked : Bool} (hcopy : CopyOf id target k) :
    Follows (aging node id false)
      (fun _ k => target.id = id → acked = false → ∀ m, k.entry = some m →
        (markRumor target .suspect).key ≤ m.key)
      (handleResult node target acked) k := by
  unfold handleResult
  split_ifs with hacked
  · exact Follows.pure fun _ _ _ hnot => absurd (hacked.symm.trans hnot) (by simp)
  · refine Follows.bind (follows_mark hcopy) fun _ k₁ _ hmarked => ?_
    exact Follows.pure fun k₂ hk₂ hid _ => hk₂.1.key_le (hmarked hid)

/-- What was not expired at `T` is not expired at `T` later, with whatever clock it got. -/
lemma Sight.Later.suspicionExpired (h : k.Later k') (hT : T ≤ k.clock) {m' : Member}
    (hm' : k'.entry = some m') (hexpired : suspicionExpired T m' = true) :
    ∃ m, k.entry = some m ∧ m'.incarnation = m.incarnation ∧ m'.state = m.state := by
  obtain ⟨m, hm, hi, hstate⟩ := h.2 m' hm'
  rcases hstate with hsame | ⟨_, hsince⟩
  · exact ⟨m, hm, hi, hsame⟩
  · cases hs : m'.state with
    | suspect since =>
      have hle : k.clock ≤ since := hsince since (by rw [hs]; rfl)
      rw [not_suspicionExpired hs (hT.trans hle)] at hexpired
      exact absurd hexpired (by simp)
    | _ => simp [Dalila.suspicionExpired, hs] at hexpired

/-- A death that had expired by `T` was there by then. -/
lemma Sight.Later.deathExpired (h : k.Later k') (hT : T ≤ k.clock) {m' : Member}
    (hm' : k'.entry = some m') (hexpired : deathExpired T m' = true) :
    ∃ m, k.entry = some m ∧ m'.incarnation = m.incarnation ∧ m'.state = m.state := by
  obtain ⟨m, hm, hi, hstate⟩ := h.2 m' hm'
  rcases hstate with hsame | ⟨_, hsince⟩
  · exact ⟨m, hm, hi, hsame⟩
  · cases hs : m'.state with
    | dead since =>
      have hle : k.clock ≤ since := hsince since (by rw [hs]; rfl)
      rw [not_deathExpired hs (hT.trans hle)] at hexpired
      exact absurd hexpired (by simp)
    | _ => simp [Dalila.deathExpired, hs] at hexpired

lemma suspicionExpired_congr {m m' : Member} (h : m'.state = m.state) (T : Instant) :
    suspicionExpired T m' = suspicionExpired T m := by
  unfold suspicionExpired
  rw [h]

lemma deathExpired_congr {m m' : Member} (h : m'.state = m.state) (T : Instant) :
    deathExpired T m' = deathExpired T m := by
  unfold deathExpired
  rw [h]

/-- The loop over the expired suspects leaves none of them suspect. -/
lemma follows_declareDead {members : List Member} (hT : T ≤ k.clock)
    (hlisted : ∀ m, k.entry = some m → suspicionExpired T m = true → ∃ m₀ ∈ members, m₀.id = id)
    (hcopies : ∀ m₀ ∈ members, CopyOf id m₀ k) :
    Follows (aging node id false) (fun _ k => ∀ m, k.entry = some m → suspicionExpired T m = false)
      (declareDead node members) k := by
  induction members generalizing k with
  | nil =>
    refine Follows.pure fun k' hk' m' hm' => ?_
    by_contra hexpired
    have hexpired : suspicionExpired T m' = true := by simpa using hexpired
    obtain ⟨m, hm, _, hstate⟩ := Sight.Later.suspicionExpired hk'.1 hT hm' hexpired
    obtain ⟨m₀, hm₀, _⟩ := hlisted m hm (by rw [← suspicionExpired_congr hstate]; exact hexpired)
    exact absurd hm₀ (by simp)
  | cons member members ih =>
    refine Follows.bind (follows_mark (hcopies member (by simp))) fun _ k' hk' hmarked => ?_
    refine ih (le_trans hT hk'.1.1) ?_ fun m₀ hm₀ =>
      (hcopies m₀ (List.mem_cons_of_mem _ hm₀)).ages hk'
    intro m' hm' hexpired
    obtain ⟨m, hm, hi, hstate⟩ := Sight.Later.suspicionExpired hk'.1 hT hm' hexpired
    obtain ⟨m₀, hm₀, hid⟩ := hlisted m hm (by rw [← suspicionExpired_congr hstate]; exact hexpired)
    rcases List.mem_cons.mp hm₀ with rfl | hm₀
    · -- this one has just been declared dead
      have hkey := hmarked hid m' hm'
      obtain ⟨m₁, hm₁, hi₁⟩ := (hcopies m₀ (by simp)).ages hk' hid
      obtain rfl := Option.some.inj (hm₁.symm.trans hm')
      rw [← WireMember.key_new, WireMember.key_le_iff] at hkey
      rcases hkey with hlt | ⟨_, hrank⟩
      · exact absurd hi₁ (ne_of_lt hlt)
      · have hrank : 2 ≤ rank m₁.state.toWire := hrank
        cases hs : m₁.state with
        | suspect since =>
          rw [hs] at hrank
          have hrank : 2 ≤ 1 := hrank
          omega
        | _ => simp [suspicionExpired, hs] at hexpired
    · exact ⟨m₀, hm₀, hid⟩

/-- The sweep leaves nothing suspect whose time was up when it began. -/
lemma follows_sweepSuspects (hT : T ≤ k.clock) :
    Follows (aging node id false) (fun _ k => ∀ m, k.entry = some m → suspicionExpired T m = false)
      (sweepSuspects node) k := by
  refine Follows.call_bind (fun _ _ => trivial) fun expired k' hk' hpost => ?_
  have hT' : T ≤ k'.clock := le_trans hT hk'.1.1
  refine follows_declareDead hT' ?_ ?_
  · intro m hm hexpired
    obtain ⟨hid, hmem⟩ := hpost.1 m hm
    exact ⟨m, hmem (suspicionExpired_mono hT' hexpired), hid⟩
  · intro m₀ hm₀ hid
    exact ⟨m₀, (hpost.2 m₀ hm₀ hid).1, rfl⟩

/-- Reaping drops what was dead for long enough when it began, and nothing that is not dead. -/
lemma follows_reapDead (hT : T ≤ k.clock) :
    Follows (aging node id true) (fun _ k => ∀ m, k.entry = some m → deathExpired T m = false)
      reapDead k := by
  refine Follows.call_bind (fun _ _ => trivial) fun expired k₁ hk₁ hpost => ?_
  have hT₁ : T ≤ k₁.clock := le_trans hT hk₁.1.1
  have hdropped : ∀ k₂, k₁.Later k₂ → id ∉ expired.map Member.id →
      ∀ m, k₂.entry = some m → deathExpired T m = false := by
    intro k₂ hk₂ hnot m' hm'
    by_contra hexpired
    have hexpired : deathExpired T m' = true := by simpa using hexpired
    obtain ⟨m, hm, _, hstate⟩ := hk₂.deathExpired hT₁ hm' hexpired
    obtain ⟨hid, hmem⟩ := hpost.1 m hm
    rw [deathExpired_congr hstate] at hexpired
    exact hnot (List.mem_map.mpr ⟨m, hmem (deathExpired_mono hT₁ hexpired), hid⟩)
  simp only
  split_ifs with hempty
  · refine Follows.pure fun k₂ hk₂ => hdropped k₂ hk₂.1 ?_
    rw [List.isEmpty_iff.mp hempty]
    simp
  · refine Follows.call (fun k₂ hk₂ => ?_) fun _ k₂ hk₂ hremoved k₃ hk₃ => ?_
    · refine fun hid => ⟨rfl, fun m' hm' => ?_⟩
      obtain ⟨m₀, hm₀, hid₀⟩ := List.mem_map.mp hid
      obtain ⟨hentry, hdead⟩ := hpost.2 m₀ hm₀ hid₀
      obtain ⟨m, hm, _, hrank⟩ := hk₂.1.exists_before hm'
      obtain rfl := Option.some.inj (hentry.symm.trans hm)
      cases hs : m₀.state with
      | dead since =>
        rw [hs] at hrank
        have hrank : 2 ≤ rank m'.state.toWire := hrank
        rw [MemberState.isDead_iff]
        cases hs' : m'.state.toWire <;> rw [hs'] at hrank <;> simp_all [rank]
      | _ => simp [deathExpired, hs] at hdead
    · by_cases hid : id ∈ expired.map Member.id
      · intro m hm
        obtain ⟨m₂, hm₂, _⟩ := hk₃.1.exists_before hm
        exact absurd ((hremoved hid).symm.trans hm₂) (by simp)
      · exact hdropped k₃ (hk₂.1.trans hk₃.1) hid

/-- What `next_target` picks is a copy. -/
lemma copies_nextInPass (order : List NodeId) (k : Sight) :
    Follows (aging node id false) (fun found k => ∀ target ∈ found.1, CopyOf id target k)
      (nextInPass order) k := by
  induction order generalizing k with
  | nil => exact Follows.pure fun _ _ target htarget => absurd htarget (by simp)
  | cons i order ih =>
    refine Follows.call_bind (fun _ _ => trivial) fun found k₁ _ hget => ?_
    cases found with
    | none => exact ih k₁
    | some member =>
      simp only
      split_ifs with hdead
      · exact ih k₁
      · refine Follows.pure fun k₂ hk₂ target htarget => ?_
        obtain rfl := Option.some.inj htarget
        refine CopyOf.ages (fun hid => ?_) hk₂
        exact ⟨member, (hget.2 ((hget.1 member rfl).symm.trans hid)).symm, rfl⟩

lemma copies_nextInPasses (passes : ℕ) (order : List NodeId) (k : Sight) :
    Follows (aging node id false) (fun found k => ∀ target ∈ found.1, CopyOf id target k)
      (nextInPasses passes order) k := by
  induction passes generalizing order k with
  | zero => exact Follows.pure fun _ _ target htarget => absurd htarget (by simp)
  | succ passes ih =>
    refine Follows.bind (copies_nextInPass order k) fun found k₁ _ hcopy => ?_
    obtain ⟨found, rest⟩ := found
    cases found with
    | none => exact Follows.call_bind (fun _ _ => trivial) fun order k₂ _ _ => ih order k₂
    | some member =>
      refine Follows.pure fun k₂ hk₂ target htarget => ?_
      exact (hcopy target htarget).ages hk₂

/-! ### Probing does not touch the table -/

/-- The program may read the table and changes nothing in it. -/
abbrev Reading {α : Type} : Prog α → Prop :=
  Program.AtWaits (fun o => o.edits = true) fun _ => False

lemma reading_probe (target : Member) : Reading (probe node target) :=
  Custom.probe (P := fun _ prog => Reading prog)
    { pure := fun _ => trivial
      call_bind := fun _ _ _ ho hf => AtWaits.call_bind (by simp [ho]) hf
      bind := fun hp hf => AtWaits.bind hp (fun _ => False.elim) hf } target

/-! ### Every part -/

/-- The part of the turn that drops members. -/
def Kind.drops : Kind → Bool
  | .reaping => true
  | _ => false

/-- What a part of the turn is told. -/
def Kind.Told (id : NodeId) : Kind → Sight → Prop
  | .probing target, k => CopyOf id target k
  | .judging target _, k => CopyOf id target k
  | _, _ => True

/-- What a part of the turn that began at `T` or later leaves. -/
def Kind.Leaves (id : NodeId) (T : Instant) : (kind : Kind) → kind.Out → Sight → Prop
  | .choosing _, found, k => ∀ target ∈ found.1, CopyOf id target k
  | .judging target acked, _, k => target.id = id → acked = false → ∀ m, k.entry = some m →
      (markRumor target .suspect).key ≤ m.key
  | .sweeping, _, k => ∀ m, k.entry = some m → suspicionExpired T m = false
  | .reaping, _, k => ∀ m, k.entry = some m → deathExpired T m = false
  | _, _, _ => True

lemma Kind.Told.ages {kind : Kind} (h : kind.Told id k) (hk : Sight.Ages kind.drops k k') :
    kind.Told id k' := by
  cases kind with
  | probing target => exact CopyOf.ages h hk
  | judging target acked => exact CopyOf.ages h hk
  | _ => trivial

/-- Every part of a turn leaves the entry as `aging` says, whatever comes in between. -/
theorem follows_part {kind : Kind} (hkind : kind.detects = true) (hT : T ≤ k.clock)
    (htold : kind.Told id k) :
    Follows (aging node id kind.drops) (kind.Leaves id T) (kind.start node) k := by
  cases kind with
  | choosing order => exact copies_nextInPasses 2 order k
  | probing target =>
    refine AtWaits.follows (reading_probe target) (fun o ho k => ?_) k
    cases o with
    | merge | remove => exact absurd rfl ho
    | _ => trivial
  | judging target acked => exact follows_handleResult htold
  | sweeping => exact follows_sweepSuspects hT
  | reaping => exact follows_reapDead hT
  | _ => exact absurd hkind (by simp [Kind.detects])

end

end Dalila
