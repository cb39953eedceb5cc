import Dalila.Works

/-!
# Absorbing a table

What merging one record after another leaves of a process, while nobody else moves.
-/

namespace Dalila

open Program

/-- What merging `rumors` one after another leaves of a process. -/
structure Absorbed (node : LocalNode) (now : Instant) (rumors : List WireMember) (w w' : World) :
    Prop where
  table : w'.shared.table = w.shared.table.mergeAll node.id (rumors.map fun r => (r, now))
  net : w'.net = w.net
  incarnation : w.shared.guarded.incarnation ≤ w'.shared.guarded.incarnation
  leaving : w'.shared.guarded.leaving = w.shared.guarded.leaving
  /-- A doubt about the node itself is answered, unless it is leaving. -/
  refuted : w.shared.guarded.leaving = false → ∀ r ∈ rumors, r.id = node.id → r.state ≠ .alive →
    r.incarnation < Incarnation.max → r.incarnation < w'.shared.guarded.incarnation
  undoubted : (∀ r ∈ rumors, r.id = node.id → r.state = .alive) →
    w'.shared.guarded = w.shared.guarded

namespace Absorbed

variable {node : LocalNode} {now : Instant} {w w' w'' : World}

lemma nil (node : LocalNode) (now : Instant) (w : World) : Absorbed node now [] w w :=
  ⟨rfl, rfl, le_refl _, rfl, by simp, fun _ => rfl⟩

/-- Rumors are absorbed one after another. -/
lemma append {rs rs' : List WireMember} (h : Absorbed node now rs w w')
    (h' : Absorbed node now rs' w' w'') : Absorbed node now (rs ++ rs') w w'' where
  table := by
    rw [h'.table, h.table, List.map_append]
    simp [MemberTable.mergeAll]
  net := h'.net.trans h.net
  incarnation := h.incarnation.trans h'.incarnation
  leaving := h'.leaving.trans h.leaving
  refuted hleaving r hr hid hstate hmax := by
    rcases List.mem_append.mp hr with hr | hr
    · exact lt_of_lt_of_le (h.refuted hleaving r hr hid hstate hmax) h'.incarnation
    · exact h'.refuted (h.leaving.trans hleaving) r hr hid hstate hmax
  undoubted hown := by
    rw [h'.undoubted fun r hr => hown r (List.mem_append_right _ hr)]
    exact h.undoubted fun r hr => hown r (List.mem_append_left _ hr)

/-- Only the table and what the incarnation's lock guards matter. -/
lemma congr {shared shared' shared₀ : Shared} {net : List Packet} {rumors : List WireMember}
    (h : Absorbed node now rumors ⟨shared, net⟩ ⟨shared', net⟩)
    (htable : shared.table = shared₀.table) (hguarded : shared.guarded = shared₀.guarded) :
    Absorbed node now rumors ⟨shared₀, net⟩ ⟨shared', net⟩ where
  table := htable ▸ h.table
  net := rfl
  incarnation := hguarded ▸ h.incarnation
  leaving := hguarded ▸ h.leaving
  refuted := hguarded ▸ h.refuted
  undoubted := hguarded ▸ h.undoubted

end Absorbed

/-- What applying a rumor does beside merging it, which left `table`. -/
inductive Applied (node : LocalNode) (rumor : WireMember) (w : World) (table : MemberTable) :
    MergeOutcome → World → Prop where
  | ignored : Applied node rumor w table .ignored { w with shared.table := table }
  | queued {outcome : MergeOutcome} (hnews : outcome = .added ∨ outcome = .updated) :
      Applied node rumor w table outcome
        { w with shared := { w.shared with
          table, queue := w.shared.queue.push rumor (table.len + 1) } }
  /-- We're shutting down. -/
  | unanswered {rumored : Incarnation} (hanswer : (w.shared.guarded.refute rumored).1 = none) :
      Applied node rumor w table (.refute rumored)
        { w with shared := { w.shared with
          table, guarded := (w.shared.guarded.refute rumored).2 } }
  | answered {rumored incarnation : Incarnation}
      (hanswer : (w.shared.guarded.refute rumored).1 = some incarnation) :
      Applied node rumor w table (.refute rumored)
        { w with shared := { w.shared with
          table
          guarded := (w.shared.guarded.refute rumored).2
          queue := w.shared.queue.push
            (node.aliveRumor (w.shared.guarded.refute rumored).2.current) (table.len + 1) } }

variable {node : LocalNode} {now : Instant} {w w' : World} {rumor : WireMember}
  {outcome : MergeOutcome}

/-- One `apply`, outcome by outcome. -/
lemma exec_apply_iff : Exec (Op.Run node now) (apply node rumor) w outcome w' ↔
    (w.shared.table.merge now rumor node.id).1 = outcome ∧
      Applied node rumor w (w.shared.table.merge now rumor node.id).2 outcome w' := by
  unfold apply
  rw [exec_call_bind_of fun _ _ => Iff.rfl, exec_call_bind_of fun _ _ => Iff.rfl]
  -- the outcome decides how `apply` goes on
  generalize (w.shared.table.merge now rumor node.id).1 = found
  generalize (w.shared.table.merge now rumor node.id).2 = table
  constructor
  · intro h
    cases found with
    | ignored =>
      obtain ⟨rfl, rfl⟩ := exec_pure.mp h
      exact ⟨rfl, .ignored⟩
    | added =>
      obtain ⟨_, _, rfl, h⟩ := exec_call_bind.mp h
      obtain ⟨rfl, rfl⟩ := exec_pure.mp h
      exact ⟨rfl, .queued (.inl rfl)⟩
    | updated =>
      obtain ⟨_, _, rfl, h⟩ := exec_call_bind.mp h
      obtain ⟨rfl, rfl⟩ := exec_pure.mp h
      exact ⟨rfl, .queued (.inr rfl)⟩
    | refute rumored =>
      obtain ⟨_, _, ⟨_, rfl⟩, h⟩ := exec_call_bind.mp h
      obtain ⟨answer, _, ⟨hanswer, rfl⟩, h⟩ := exec_call_bind.mp h
      cases answer with
      | none =>
        obtain ⟨rfl, rfl⟩ := exec_pure.mp h
        exact ⟨rfl, .unanswered hanswer.symm⟩
      | some incarnation =>
        obtain ⟨_, _, ⟨rfl, rfl⟩, h⟩ := exec_call_bind.mp h
        obtain ⟨_, _, rfl, h⟩ := exec_call_bind.mp h
        obtain ⟨rfl, rfl⟩ := exec_pure.mp h
        exact ⟨rfl, .answered hanswer.symm⟩
  · rintro ⟨rfl, happlied⟩
    cases happlied with
    | ignored => exact exec_pure.mpr ⟨rfl, rfl⟩
    | queued hnews =>
      rcases hnews with rfl | rfl
      · exact exec_call_bind.mpr ⟨(), _, rfl, exec_pure.mpr ⟨rfl, rfl⟩⟩
      · exact exec_call_bind.mpr ⟨(), _, rfl, exec_pure.mpr ⟨rfl, rfl⟩⟩
    | unanswered hanswer =>
      refine exec_call_bind.mpr ⟨_, _, ⟨rfl, rfl⟩, ?_⟩
      refine exec_call_bind.mpr ⟨none, _, ⟨hanswer.symm, rfl⟩, ?_⟩
      exact exec_pure.mpr ⟨rfl, rfl⟩
    | answered hanswer =>
      refine exec_call_bind.mpr ⟨_, _, ⟨rfl, rfl⟩, ?_⟩
      refine exec_call_bind.mpr ⟨some _, _, ⟨hanswer.symm, rfl⟩, ?_⟩
      refine exec_call_bind.mpr ⟨_, _, ⟨rfl, rfl⟩, ?_⟩
      exact exec_call_bind.mpr ⟨(), _, rfl, exec_pure.mpr ⟨rfl, rfl⟩⟩

lemma exec_apply (h : Exec (Op.Run node now) (apply node rumor) w outcome w') :
    Absorbed node now [rumor] w w' := by
  obtain ⟨hout, happlied⟩ := exec_apply_iff.mp h
  have hspec := w.shared.table.merge_spec now rumor node.id
  rw [hout] at hspec
  -- a rumor that is no doubt about the node itself needs no answer
  have hkept : ∀ {w' : World}, w'.shared.table = (w.shared.table.merge now rumor node.id).2 →
      w'.net = w.net → w'.shared.guarded = w.shared.guarded → (∀ r, outcome ≠ .refute r) →
      Absorbed node now [rumor] w w' := by
    intro w' htable hnet hguarded hne
    refine ⟨htable, hnet, le_of_eq (by rw [hguarded]), by rw [hguarded], ?_, fun _ => hguarded⟩
    intro _ r hr hid hstate
    obtain rfl := List.mem_singleton.mp hr
    generalize (w.shared.table.merge now r node.id).2 = table at hspec
    cases hspec with
    | own _ halive => exact absurd halive hstate
    | doubted => exact absurd rfl (hne _)
    | refused hid' | added hid' | stale hid' | updated hid' => exact absurd hid hid'
  -- a doubt is met by a refutation
  have hmet : ∀ {w' : World} {rumored : Incarnation}, outcome = .refute rumored →
      w'.shared.table = (w.shared.table.merge now rumor node.id).2 → w'.net = w.net →
      w'.shared.guarded = (w.shared.guarded.refute rumored).2 →
      Absorbed node now [rumor] w w' := by
    intro w' rumored hrefute htable hnet hguarded
    have hdoubt : rumored = rumor.incarnation ∧ rumor.id = node.id ∧ rumor.state ≠ .alive := by
      rw [hrefute] at hspec
      generalize (w.shared.table.merge now rumor node.id).2 = table at hspec
      cases hspec with
      | doubted hid hstate => exact ⟨rfl, hid, hstate⟩
    refine ⟨htable, hnet, ?_, ?_, ?_, ?_⟩
    · rw [hguarded]
      exact w.shared.guarded.incarnation_le_refute rumored
    · rw [hguarded]
      exact (w.shared.guarded.refute_flags rumored).1
    · intro hleaving r hr hid hstate hmax
      obtain rfl := List.mem_singleton.mp hr
      rw [hguarded, hdoubt.1]
      exact Guarded.lt_refute hleaving hmax
    · intro hown
      exact absurd (hown rumor (by simp) hdoubt.2.1) hdoubt.2.2
  cases happlied with
  | ignored => exact hkept rfl rfl rfl (by simp)
  | queued hnews => exact hkept rfl rfl rfl (by rintro r rfl; simp at hnews)
  | unanswered | answered => exact hmet rfl rfl rfl rfl

lemma exec_applyAll {rumors : List WireMember} {out : Unit}
    (h : Exec (Op.Run node now) (applyAll node rumors) w out w') :
    Absorbed node now rumors w w' := by
  induction rumors generalizing w with
  | nil =>
    obtain ⟨_, rfl⟩ := exec_pure.mp h
    exact .nil node now w'
  | cons rumor rumors ih =>
    obtain ⟨outcome, w₁, hfirst, hrest⟩ := exec_bind.mp h
    exact (exec_apply hfirst).append (ih hrest)

/-- `absorb` takes in the sender's own record first, and then the others. -/
lemma exec_absorb {sender : WireIdentity} {members : List WireMember} {out : Unit}
    (h : Exec (Op.Run node now) (absorb node sender members) w out w') :
    Absorbed node now (sender.intoMember :: members) w w' := by
  obtain ⟨outcome, w₁, hfirst, hrest⟩ := exec_bind.mp h
  exact (exec_apply hfirst).append (exec_applyAll hrest)

/-- A task can absorb whatever it is told. -/
lemma Process.exists_absorbs (p : Process) (now : Instant) (sender : WireIdentity)
    (members : List WireMember) (shared : Shared) (net : List Packet) :
    ∃ shared', Program.Path (p.runs now) (fun o => ¬ o.awaits = true)
        (absorb p.node sender members) ⟨shared, net⟩ (.ret ()) ⟨shared', net⟩ ∧
      Absorbed p.node now (sender.intoMember :: members) ⟨shared, net⟩ ⟨shared', net⟩ := by
  obtain ⟨out, ⟨shared', net'⟩, habsorb⟩ := p.exists_runs now
    (inward_absorb sender members : Inward (absorb p.node sender members)) ⟨shared, net⟩
  have habsorbed := exec_absorb (habsorb.mono (fun _ _ _ _ hrun => hrun.1) fun _ ho => ho).exec
  obtain rfl : net' = net := habsorbed.net
  exact ⟨shared', habsorb, habsorbed⟩

end Dalila
