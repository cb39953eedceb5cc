import Dalila.Manner
import Dalila.Pair
import Dalila.Vouching

/-!
# What an incarnation stands for

A node takes a new incarnation when its readiness has changed, or to answer a doubt. `Spent` is the
reason for leaving one number behind: a change of readiness at it, or a detector that suspected the
node at it. The file proves that there was one for every number below a node's own
(`incarnation_is_earned`), so the incarnation is a tally of these.
-/

namespace Dalila

open Program

/-! ## Doubts -/

/-- A record doubts that `id` is alive at incarnation `i`. -/
def Doubted (h : Trace) (id : NodeId) (i : Incarnation) : Prop :=
  ∃ r, Vouched h r ∧ r.id = id ∧ r.incarnation = i ∧ r.state ≠ .alive

variable {h h' : Trace} {q id : NodeId} {p p' : Process} {slot : Slot} {kind : Kind}
  {i : Incarnation}

lemma Doubted.later (hlater : Later h h') (hd : Doubted h id i) : Doubted h' id i := by
  obtain ⟨r, hr, hrest⟩ := hd
  exact ⟨r, hr.later hlater, hrest⟩

/-- Nobody is doubted at an incarnation it has not had. -/
lemma Doubted.incarnation_le (hrun : Run h) (hp : h.now.procs q = some p)
    (hd : Doubted h q i) : i ≤ p.shared.guarded.incarnation := by
  obtain ⟨r, hr, rfl, rfl, _⟩ := hd
  obtain ⟨subject, hsubject, _, _, hle⟩ := hr.authored.exists_process hrun
  rw [← Option.some.inj (hsubject.symm.trans hp)]
  exact hle

/-- A node that is doubted and has not left was suspected by some detector. -/
lemma Doubted.exists_suspicion (hp : h.now.procs q = some p)
    (hstays : p.shared.guarded.leaving = false) (hd : Doubted h q i) : ∃ t, Suspicion h q i t := by
  obtain ⟨r, hr, rfl, rfl, hstate⟩ := hd
  cases hdoubt : r.state with
  | alive => exact absurd hdoubt hstate
  | suspect =>
    obtain ⟨t, _, hs⟩ := hr.suspect hdoubt
    exact ⟨t, hs⟩
  | dead =>
    rcases hr.dead hdoubt with ⟨subject, hsubject, hleaving, _⟩ | ⟨t, _, hs⟩
    · rw [Option.some.inj (hsubject.symm.trans hp), hstays] at hleaving
      exact absurd hleaving (by simp)
    · exact ⟨t, hs⟩

/-- Only what a merge came to is answered. -/
def doubting (node : LocalNode) : Contract Op Op.Res Trace where
  later := Later
  later_refl := .refl
  later_trans := .trans
  pre o h :=
    match o with
    | .refute rumored => Doubted h node.id rumored
    | _ => True
  post o r h :=
    match o, r with
    | .merge _ me, .refute rumored => Doubted h me rumored
    | _, _ => True

/-- The program answers doubts, and nothing else. -/
abbrev Answering {α : Type} (node : LocalNode) (prog : Prog α) (h : Trace) : Prop :=
  Follows (doubting node) (fun _ _ => True) prog h

lemma answering_apply (node : LocalNode) (rumor : WireMember) (h : Trace) :
    Answering node (apply node rumor) h := by
  refine Follows.call_bind (fun _ _ => trivial) fun outcome h₁ _ houtcome => ?_
  refine Follows.call_bind (fun _ _ => trivial) fun len h₂ hlater₂ _ => ?_
  cases outcome with
  | ignored => exact Follows.pure fun _ _ => trivial
  | refute rumored =>
    have hdoubted : Doubted h₁ node.id rumored := houtcome
    refine Follows.call_bind (fun _ _ => trivial) fun _ h₃ hlater₃ _ => ?_
    refine Follows.call_bind ?_ fun answer h₄ _ _ => ?_
    · exact fun h₄ hlater₄ => hdoubted.later ((hlater₂.trans hlater₃).trans hlater₄)
    · cases answer with
      | none => exact Follows.pure fun _ _ => trivial
      | some _ =>
        exact Follows.call_bind (fun _ _ => trivial) fun _ _ _ _ =>
          Follows.call_bind (fun _ _ => trivial) fun _ _ _ _ => Follows.pure fun _ _ => trivial
  | _ => exact Follows.call_bind (fun _ _ => trivial) fun _ _ _ _ => Follows.pure fun _ _ => trivial

lemma manner_answering (node : LocalNode) :
    Manner node true fun _ prog => ∀ h, Answering node prog h where
  pure _ _ := Follows.pure fun _ _ => trivial
  call_bind o f _ ho _ hf h := by
    refine Follows.call_bind (fun _ _ => ?_) fun r h' _ _ => hf r h'
    cases o with
    | refute => exact absurd ho (by simp [Op.refutes])
    | _ => trivial
  bind hp hf h := Follows.bind (hp h) fun a h' _ _ => hf a h'
  apply rumor h := answering_apply node rumor h

lemma answering_start (node : LocalNode) (kind : Kind) (h : Trace) :
    Answering node (kind.start node) h := by
  refine (manner_answering node).start (fun addr body hbody h => ?_) kind (fun _ => rfl)
    (fun _ _ _ _ h => ?_) h
  · refine Follows.call_bind (fun _ _ => trivial) fun conn h₁ _ _ => ?_
    cases conn with
    | none => exact Follows.pure fun _ _ => trivial
    | some conn =>
      refine Follows.bind (hbody h₁) fun body h₂ _ _ => ?_
      refine Follows.call_bind (fun _ _ => trivial) fun ok _ _ _ => ?_
      cases ok with
      | true => exact Follows.call (fun _ _ => trivial) fun _ _ _ _ _ _ => trivial
      | false => exact Follows.pure fun _ _ => trivial
  · exact Follows.call (fun _ _ => trivial) fun _ _ _ _ _ _ => trivial

/-- What a merge calls a doubt is one. -/
lemma Run.doubted_of_merge (hrun : Run h) (hp : h.now.procs q = some p) (halive : p.stopped = false)
    {rumor : WireMember} {me : NodeId} {next : MergeOutcome → Prog kind.Out}
    (htask : p.tasks slot = some ⟨kind, .step (.merge rumor me) next⟩)
    (houtcome : (p.shared.table.merge h.now.clock rumor me).1 = .refute i) : Doubted h me i := by
  have hme := hrun.merge_me hp halive htask
  have hpre := ((sound_vouching.covers hrun).tasks hp halive htask).2.step.1
  have hdoubt : rumor.id = me ∧ rumor.state ≠ .alive ∧ rumor.incarnation = i := by
    have hspec := MemberTable.merge_spec p.shared.table h.now.clock rumor me
    rw [houtcome] at hspec
    generalize (p.shared.table.merge h.now.clock rumor me).2 = table at hspec
    cases hspec with
    | doubted hid hstate => exact ⟨hid, hstate, rfl⟩
  obtain ⟨hid, hstate, hi⟩ := hdoubt
  rcases hpre.2 with hr | hmarks
  · exact ⟨rumor, hr, hid, hi, hstate⟩
  · -- the detector has no entry of its own node to mark
    cases kind with
    | judging target acked =>
      cases acked with
      | true => exact hmarks.elim
      | false =>
        have hrumor : rumor = markRumor target .suspect := hmarks
        obtain ⟨⟨entry, hget, _⟩, _⟩ : (Task.Grounded p.shared.table
            ⟨.judging target false, .step (.merge rumor me) next⟩) := by
          have hslot := hrun.slots hp halive htask
          cases slot with
          | detector => exact hrun.grounded hp halive htask
          | _ => exact absurd hslot (by simp [Slot.Runs])
        have htarget : target.id = q := by
          rw [← (hrun.sane hp).id, ← hme, ← hid, hrumor]
          rfl
        rw [htarget, (hrun.sane hp).own] at hget
        exact absurd hget (by simp)
    | _ => exact hmarks.elim

/-- Every task answers doubts, and nothing else. -/
lemma Run.answering (hrun : Run h) (hp : h.now.procs q = some p) (halive : p.stopped = false)
    {task : Task} (htask : p.tasks slot = some task) : Answering p.node task.prog h := by
  have hall : ∀ q p slot task, h.now.procs q = some p → p.stopped = false →
      p.tasks slot = some task → Answering p.node task.prog h := by
    refine History.IsRun.induction (P := fun h => ∀ q p slot task, h.now.procs q = some p →
      p.stopped = false → p.tasks slot = some task → Answering p.node task.prog h) hrun ?_ ?_
    · rintro c rfl q p slot task hp
      exact absurd hp (by simp [History.init, Cluster.empty])
    · intro h l c hrun ih hstep q p' slot task hp' halive htask
      have hrun : Run h := hrun
      have hlater : Later h (h.push l c) := .single hstep
      cases Task.arises hstep hp' halive htask with
      | kept p _ hp halive htask₀ =>
        have hnode : p'.node = p.node := (hstep.grows hp hp').node
        rw [hnode]
        exact (ih q p slot task hp halive htask₀).mono hlater
      | moved p kind o next r net hp halive htask₀ _ hop =>
        have hnode : p'.node = p.node := (hstep.grows hp hp').node
        rw [hnode]
        refine (ih q p slot _ hp halive htask₀).step.2 r _ hlater ?_
        cases o with
        | merge rumor me =>
          cases r with
          | refute rumored =>
            exact (hrun.doubted_of_merge hp halive htask₀ hop.1.symm).later hlater
          | _ => trivial
        | _ => trivial
      | _ => exact answering_start p'.node _ _
  exact hall q p slot task hp halive htask

/-! ## The tally -/

/-- The node's readiness has changed. -/
def Label.readies (id : NodeId) : Label → Bool
  | .op q _ _ (.setReady _) true => q = id
  | _ => false

/-- A detector whose probe failed suspects the node. -/
def Label.suspects (id : NodeId) : Label → Bool
  | .op _ _ (.judging target false) (.merge _ _) .updated => target.id = id
  | _ => false

/-- Why a node has left incarnation `i` behind. -/
inductive Spent (h : Trace) (q : NodeId) (i : Incarnation) : Prop where
  | readied (c : Cluster) (p : Process) (slot : Slot) (kind : Kind) (ready : Bool)
      (htook : ⟨c, .op q slot kind (.setReady ready) true⟩ ∈ h.past) (hp : c.procs q = some p)
      (hi : p.shared.guarded.incarnation = i)
  | suspected (t : Instant) (hs : Suspicion h q i t)

lemma Spent.later (hlater : Later h h') (hspent : Spent h q i) : Spent h' q i := by
  cases hspent with
  | readied c p slot kind ready htook hp hi =>
    exact .readied c p slot kind ready (hlater.mem_past htook) hp hi
  | suspected t hs => exact .suspected t (hs.later hlater)

/-- Whatever is below the next incarnation is below this one, or is this one. -/
lemma Incarnation.lt_or_eq_of_lt_superseding {i j : Incarnation} (h : i < superseding j) :
    i < j ∨ i = j := by
  have h : i.val < (superseding j).val := h
  rw [val_superseding] at h
  have hle : i.val ≤ j.val := by omega
  exact lt_or_eq_of_le hle

/-- An operation of the node leaves behind what it was at, and it had a reason. -/
lemma Run.spent_of_op (hrun : Run h) (hp : h.now.procs q = some p) (halive : p.stopped = false)
    {o : Op} {next : o.Res → Prog kind.Out} {r : o.Res} {w : World} {c : Cluster}
    (htask : p.tasks slot = some ⟨kind, .step o next⟩) (hstep : Step h.now (.op q slot kind o r) c)
    (hop : o.Run p.node h.now.clock ⟨p.shared, h.now.net⟩ r w)
    (hi : i < w.shared.guarded.incarnation) :
    i < p.shared.guarded.incarnation ∨ Spent (h.push (.op q slot kind o r) c) q i := by
  have hafter : w.shared.guarded = o.guardedAfter p.shared.guarded := hop.guarded
  rw [hafter] at hi
  cases o with
  | setReady ready =>
    have hi : i < (p.shared.guarded.setReady ready).2.incarnation := hi
    have hr : r = (p.shared.guarded.setReady ready).1 := hop.1
    unfold Guarded.setReady at hi hr
    split_ifs at hi hr
    · exact .inl hi
    · rcases Incarnation.lt_or_eq_of_lt_superseding hi with hlt | heq
      · exact .inl hlt
      · subst hr
        exact .inr (.readied h.now p slot kind ready List.mem_cons_self hp heq.symm)
  | refute rumored =>
    have hi : i < (p.shared.guarded.refute rumored).2.incarnation := hi
    unfold Guarded.refute at hi
    split_ifs at hi with hleaving hge
    · exact .inl hi
    · have hdoubted : Doubted h p.node.id rumored := (hrun.answering hp halive htask).step.1
      rw [(hrun.sane hp).id] at hdoubted
      have hsame : rumored = p.shared.guarded.incarnation :=
        le_antisymm (hdoubted.incarnation_le hrun hp) hge
      rcases Incarnation.lt_or_eq_of_lt_superseding hi with hlt | heq
      · exact .inl (hsame ▸ hlt)
      · obtain ⟨t, hs⟩ := hdoubted.exists_suspicion hp (by simpa using hleaving)
        exact .inr (.suspected t ((heq ▸ hs).later (.single hstep)))
    · exact .inl hi
  | _ => exact .inl hi

/-- There was a reason for every incarnation a node has left behind. -/
lemma Run.spent (hrun : Run h) (hp : h.now.procs q = some p)
    (hi : i < p.shared.guarded.incarnation) : Spent h q i := by
  have hall : ∀ q p i, h.now.procs q = some p → i < p.shared.guarded.incarnation →
      Spent h q i := by
    refine History.IsRun.induction (P := fun h => ∀ q p i, h.now.procs q = some p →
      i < p.shared.guarded.incarnation → Spent h q i) hrun ?_ ?_
    · rintro c rfl q p i hp
      exact absurd hp (by simp [History.init, Cluster.empty])
    · intro h l c hrun ih hstep q p' i hp' hi
      have hrun : Run h := hrun
      have hlater : Later h (h.push l c) := .single hstep
      rcases hstep.proc_cases hp' with ⟨p, hp, hev⟩ | ⟨_, node, seeds, _, _, _, rfl⟩
      · cases hev with
        | quiet _ _ hshared =>
          rw [hshared] at hi
          exact (ih q p i hp hi).later hlater
        | op slot kind o next r shared net halive htask hl hop =>
          subst hl
          rcases hrun.spent_of_op hp halive htask hstep hop hi with hlt | hspent
          · exact (ih q p i hp hlt).later hlater
          · exact hspent
      · exact absurd hi (Nat.not_lt_zero _)
  exact hall q p i hp hi

/-- The incarnation such a step leaves behind, in state `c`. -/
def Label.spends (q : NodeId) (c : Cluster) : Label → ℕ
  | .op _ _ _ (.setReady _) _ => (c.procs q).elim 0 fun p => p.shared.guarded.incarnation
  | .op _ _ (.judging target _) _ _ => target.incarnation
  | _ => 0

lemma Spent.exists_moment (hspent : Spent h q i) :
    ∃ m ∈ h.past, (m.label.readies q || m.label.suspects q) = true ∧
      m.label.spends q m.state = i.val := by
  cases hspent with
  | readied c p slot kind ready htook hp hi =>
    refine ⟨_, htook, by simp [Label.readies], ?_⟩
    show (c.procs q).elim 0 _ = i.val
    rw [hp, ← hi]
    rfl
  | suspected t hs =>
    obtain ⟨q', target, later, marked, earlier, _, _, _, hid, hi, hpast, _⟩ := hs
    refine ⟨⟨marked, _⟩, hpast ▸ List.mem_append_right _ List.mem_cons_self, ?_, ?_⟩
    · simp [Label.suspects, hid]
    · exact congrArg Fin.val hi

/-- A node's incarnation is a tally. For every incarnation it has left behind there was a reason:
its readiness changed at that incarnation, or a detector suspected it at exactly that incarnation,
after a probe of it had failed. So the number is at most how often that has happened. -/
theorem incarnation_is_earned (hrun : Run h) (hp : h.now.procs q = some p) :
    (∀ i < p.shared.guarded.incarnation, Spent h q i) ∧
      p.shared.guarded.incarnation.val ≤ h.count fun l => l.readies q || l.suspects q := by
  have hspent : ∀ i < p.shared.guarded.incarnation, Spent h q i := fun i hi => hrun.spent hp hi
  refine ⟨hspent, History.le_count (fun m => m.label.spends q m.state) fun i hi => ?_⟩
  have hlt : i < 2 ^ 32 := hi.trans p.shared.guarded.incarnation.isLt
  exact (hspent ⟨i, hlt⟩ hi).exists_moment

/-- A node whose app stops answering. -/
theorem incarnation_is_earned_alpha : ∃ (h : Trace) (p : Process), Run h ∧
    h.now.procs alpha.id = some p ∧ p.shared.guarded.incarnation = 1 ∧
    1 ≤ h.count fun l => l.readies alpha.id || l.suspects alpha.id := by
  set p : Process := .new alpha [] with hp
  set turning := p.set .health (some (Task.start alpha (.health false))) with hturning
  set started := (History.init Cluster.empty).push (Label.start alpha [])
    (Cluster.empty.setProc alpha.id p) with hstarted
  set checked := started.push (Label.begins alpha.id .health (.health false))
    (started.now.setProc alpha.id turning) with hchecked
  have hp₁ : started.now.procs alpha.id = some p := by
    rw [hstarted, History.now_push, Cluster.procs_setProc, if_pos rfl]
  have hp₂ : checked.now.procs alpha.id = some turning := by
    rw [hchecked, History.now_push, Cluster.procs_setProc, if_pos rfl]
  obtain ⟨next, htask⟩ : ∃ next, turning.tasks .health =
      some ⟨.health false, .step (.setReady false) next⟩ :=
    ⟨_, (Process.tasks_set ..).trans (if_pos rfl)⟩
  set shared : Shared := { Shared.new with guarded := ⟨1, false, false⟩ }
  set turned := { turning with shared := shared }.set .health (some ⟨.health false, next true⟩)
  have hstart : Run started := ⟨.empty, rfl, .single (.start .empty alpha [] rfl alpha_mayStart)⟩
  have hcheck : Run checked :=
    hstart.push (.begins started.now alpha.id p .health _ hp₁ rfl rfl rfl (.health false))
  have hrun := hcheck.push (.op checked.now alpha.id turning .health _ (.setReady false) next true
    shared checked.now.net hp₂ rfl htask ⟨rfl, rfl⟩)
  have hp₃ : (checked.now.setProc alpha.id turned).procs alpha.id = some turned := by
    rw [Cluster.procs_setProc, if_pos rfl]
  exact ⟨_, turned, hrun, hp₃, rfl, (incarnation_is_earned hrun hp₃).2⟩

end Dalila
