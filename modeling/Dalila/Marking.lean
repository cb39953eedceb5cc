import Dalila.Overtaking
import Dalila.Repertoire

/-!
# Late results

Between the moment the detector reads a member and the moment it marks it, other tasks merge what
they hear. `Respects` says what such a mark may do: it changes an entry only at the incarnation that
was read and only to a worse state, creates none and undoes no refutation. The file proves that
every mark does no more in any run of the detector among other tasks (`late_marks_respect_news`).
-/

namespace Dalila

open Program
open MemberTable (sampleRumor)

/-! ## The detector among the other tasks -/

/-- The other tasks of a process. -/
def OtherTask (node : LocalNode) (p : Prog Unit) : Prop :=
  ∃ kind : Kind, kind.detects = false ∧ p = (kind.start node >>= fun _ => pure ())

/-- An operation, at some time. -/
abbrev Op.Occurs (node : LocalNode) (o : Op) (w : World) (r : o.Res) (w' : World) : Prop :=
  ∃ now, Op.Run node now o w r w'

/-- One operation of one task, or another task more. -/
abbrev DetectorStep (node : LocalNode) : NewsPool → Pool.Label Op Op.Res Unit → NewsPool → Prop :=
  Pool.Step (Op.Occurs node) (OtherTask node)

/-- A run of the tasks of one process, over any table without an entry for itself and whatever is
on its way to it. The detector is task 0. -/
abbrev DetectorRun (node : LocalNode) (h : NewsTrace) : Prop :=
  History.IsRun (DetectorStep node)
    (fun pool => pool.state.shared.table.get node.id = none ∧ ∃ turns order, pool.tasks = fun i =>
      if i = 0 then some (startUdpDetector node turns order) else none) h

/-- The detector reads `m`: in `next_target` to suspect it if the probe fails, or in the scan of
`sweep_suspects` to declare it dead. -/
inductive Op.Reads (m : Member) : WireMemberState → (o : Op) → o.Res → Prop where
  | target (halive : m.state.isDead = false) : Reads m .suspect (.get m.id) (some m)
  | scan (expired : List Member) (hm : m ∈ expired) :
      Reads m .dead (.membersWhere suspicionExpired) expired

/-- What a mark of `m`, as it was read, makes of the table it finds. -/
structure Respects (m : Member) (state : WireMemberState) (outcome : MergeOutcome)
    (table table' : MemberTable) : Prop where
  /-- Only the entry changes, and only if it is still at the incarnation that was read, with a
  state of lower rank. -/
  changes : ∀ id, table'.get id ≠ table.get id → id = m.id ∧
    ∃ entry, table.get id = some entry ∧ entry.incarnation = m.incarnation ∧
      rank entry.state.toWire < rank state
  creates : ∀ id, table.get id = none → table'.get id = none
  dead : ∀ id entry, table.get id = some entry → entry.state.isDead = true →
    table'.get id = some entry
  refuted : ∀ entry, table.get m.id = some entry → m.incarnation < entry.incarnation →
    table'.get m.id = some entry
  outcome : outcome = .updated ∧ table'.get m.id ≠ table.get m.id ∨
    outcome = .ignored ∧ table' = table

/-- Any two entries a run went through that have the same id and incarnation agree on readiness
and tags. -/
def Agreed (h : NewsTrace) : Prop :=
  ∀ s ∈ h.states, ∀ t ∈ h.states, ∀ m ∈ s.state.shared.table.members,
    ∀ m' ∈ t.state.shared.table.members, m.id = m'.id → m.incarnation = m'.incarnation →
      m.ready = m'.ready ∧ m.tags = m'.tags

variable {node : LocalNode} {h h' a : NewsTrace} {m : Member} {state : WireMemberState}
  {rumor record : WireMember} {outcome : MergeOutcome} {o : Op} {r : o.Res} {α : Type}

/-! ## What the detector keeps to -/

/-- The detector has dropped nobody on the way. -/
abbrev Unreaped (node : LocalNode) : NewsTrace → NewsTrace → Prop :=
  History.Extends fun s l t => DetectorStep node s l t ∧ ∀ ids, l ≠ .op 0 (.remove ids) ()

/-- The detector has written no news on the way. -/
abbrev Untold (node : LocalNode) : NewsTrace → NewsTrace → Prop :=
  History.Extends fun s l t => DetectorStep node s l t ∧
    ∀ (o : Op) (r : o.Res), l = .op 0 o r → o.tells = false

/-- The detector read `m` after `a`, and has dropped nobody since. -/
def HasRead (node : LocalNode) (m : Member) (state : WireMemberState) (a h : NewsTrace) : Prop :=
  ∃ (o : Op) (r : o.Res) (s : NewsPool), o.Reads m state r ∧
    DetectorStep node a.now (.op 0 o r) s ∧ Unreaped node (a.push (.op 0 o r) s) h

/-- The last news the detector wrote is what it merged after `a`. -/
def LastMerged (node : LocalNode) (rumor : WireMember) (outcome : MergeOutcome)
    (a h : NewsTrace) : Prop :=
  ∃ s, DetectorStep node a.now (.op 0 (.merge rumor node.id) outcome) s ∧
    Untold node (a.push (.op 0 (.merge rumor node.id) outcome) s) h

/-- When the detector may call an operation: it merges what it makes of a member it has read, and
queues what has just changed the table. -/
def mayMark (node : LocalNode) : Op → NewsTrace → Prop
  | .merge rumor me, h => me = node.id ∧
      ∃ a m state, HasRead node m state a h ∧ rumor = markRumor m state
  | .push record _, h => ∃ a rumor outcome, LastMerged node rumor outcome a h ∧
      outcome ≠ .ignored ∧ ((∃ rumored, outcome = .refute rumored) ∨ record = rumor)
  | _, _ => True

/-- What the detector keeps to. -/
abbrev marking (node : LocalNode) : Regime Op Op.Res NewsTrace :=
  Pool.deeds (Op.Occurs node) (OtherTask node) 0 (mayMark node)

lemma Unreaped.of_others (hothers : (marking node).others h h') : Unreaped node h h' := by
  refine hothers.mono fun s l t hstep => ⟨hstep.1, fun ids hl => ?_⟩
  rw [hl] at hstep
  exact hstep.2 rfl

lemma Unreaped.of_does (hdoes : (marking node).does o r h h') (ho : ∀ ids, o ≠ .remove ids) :
    Unreaped node h h' := by
  obtain ⟨s, hstep, rfl⟩ := hdoes
  refine .single ⟨hstep, fun ids hl => ?_⟩
  injection hl with _ hop
  exact ho ids hop

lemma Unreaped.of_both {t : NewsTrace} (hothers : (marking node).others h t)
    (hdoes : (marking node).does o r t h') (ho : ∀ ids, o ≠ .remove ids) : Unreaped node h h' :=
  (Unreaped.of_others hothers).trans (Unreaped.of_does hdoes ho)

lemma HasRead.later (hhas : HasRead node m state a h) (hext : Unreaped node h h') :
    HasRead node m state a h' := by
  obtain ⟨o, r, s, hreads, hstep, hafter⟩ := hhas
  exact ⟨o, r, s, hreads, hstep, hafter.trans hext⟩

lemma HasRead.of_does (hdoes : (marking node).does o r h h') (hreads : o.Reads m state r) :
    HasRead node m state h h' := by
  obtain ⟨s, hstep, rfl⟩ := hdoes
  exact ⟨o, r, s, hreads, hstep, .refl _⟩

lemma LastMerged.of_others (hlast : LastMerged node rumor outcome a h)
    (hothers : (marking node).others h h') : LastMerged node rumor outcome a h' := by
  obtain ⟨s, hstep, hafter⟩ := hlast
  refine ⟨s, hstep, hafter.trans (hothers.mono fun s l t hl => ⟨hl.1, fun o r heq => ?_⟩)⟩
  rw [heq] at hl
  exact absurd rfl hl.2

lemma LastMerged.of_does (hlast : LastMerged node rumor outcome a h)
    (hdoes : (marking node).does o r h h') (ho : o.tells = false) :
    LastMerged node rumor outcome a h' := by
  obtain ⟨s, hstep, hafter⟩ := hlast
  obtain ⟨t, hstep', rfl⟩ := hdoes
  refine ⟨s, hstep, hafter.push ⟨hstep', fun o' r' heq => ?_⟩⟩
  injection heq with _ hop
  rw [← hop]
  exact ho

lemma LastMerged.of_both {t : NewsTrace} (hlast : LastMerged node rumor outcome a h)
    (hothers : (marking node).others h t) (hdoes : (marking node).does o r t h')
    (ho : o.tells = false) : LastMerged node rumor outcome a h' :=
  (hlast.of_others hothers).of_does hdoes ho

/-- Queue what has just been merged, and be done. -/
lemma keeps_queue_merged {h₀ : NewsTrace} {size : ℕ} {answer : MergeOutcome}
    (hlast : LastMerged node rumor outcome a h) (hout : outcome ≠ .ignored)
    (hrecord : (∃ rumored, outcome = .refute rumored) ∨ record = rumor)
    (hext : Unreaped node h₀ h) :
    Keeps (marking node) (fun _ t => Unreaped node h₀ t)
      (do
        Op.call (.push record size)
        pure answer : Prog MergeOutcome) h := by
  refine .call_bind (fun t ht => ⟨a, rumor, outcome, hlast.of_others ht, hout, hrecord⟩) ?_
  intro _ t u ht hu
  exact .pure fun v hv =>
    (hext.trans (Unreaped.of_both ht hu (by simp))).trans (Unreaped.of_others hv)

lemma keeps_apply_mark (rumor : WireMember)
    (hmay : ∀ t, (marking node).others h t → mayMark node (.merge rumor node.id) t) :
    Keeps (marking node) (fun _ t => Unreaped node h t) (apply node rumor) h := by
  refine .call_bind hmay fun outcome t₁ h₁ ht₁ hmerge => ?_
  refine .call_bind (fun _ _ => trivial) fun len t₂ h₂ ht₂ hlen => ?_
  have hext : Unreaped node h h₂ := (Unreaped.of_both ht₁ hmerge (by simp)).trans
    (Unreaped.of_both ht₂ hlen (by simp))
  have hlast : LastMerged node rumor outcome t₁ h₂ := by
    obtain ⟨s, hstep, rfl⟩ := hmerge
    exact LastMerged.of_both ⟨s, hstep, .refl _⟩ ht₂ hlen rfl
  cases outcome with
  | ignored => exact .pure fun t ht => hext.trans (Unreaped.of_others ht)
  | added => exact keeps_queue_merged hlast (by simp) (.inr rfl) hext
  | updated => exact keeps_queue_merged hlast (by simp) (.inr rfl) hext
  | refute rumored =>
    refine .call_bind (fun _ _ => trivial) fun _ t₃ h₃ ht₃ hread => ?_
    refine .call_bind (fun _ _ => trivial) fun answer t₄ h₄ ht₄ hrefute => ?_
    have hlast₄ := (hlast.of_both ht₃ hread rfl).of_both ht₄ hrefute rfl
    have hext₄ : Unreaped node h h₄ := (hext.trans (Unreaped.of_both ht₃ hread (by simp))).trans
      (Unreaped.of_both ht₄ hrefute (by simp))
    cases answer with
    | none => exact .pure fun t ht => hext₄.trans (Unreaped.of_others ht)
    | some incarnation =>
      refine .call_bind (fun _ _ => trivial) fun current t₅ h₅ ht₅ hcurrent => ?_
      exact keeps_queue_merged (hlast₄.of_both ht₅ hcurrent rfl) (by simp) (.inl ⟨rumored, rfl⟩)
        (hext₄.trans (Unreaped.of_both ht₅ hcurrent (by simp)))

/-- Marking what was read. -/
lemma keeps_mark_seen (hhas : HasRead node m state a h) :
    Keeps (marking node) (fun _ t => Unreaped node h t) (mark node m state) h := by
  refine Keeps.bind (keeps_apply_mark (markRumor m state) fun t ht => ⟨rfl, a, m, state,
    hhas.later (Unreaped.of_others ht), rfl⟩) fun outcome t hext => ?_
  exact .pure fun u hu => hext.trans (Unreaped.of_others hu)

lemma keeps_handleResult (acked : Bool) (hhas : HasRead node m .suspect a h) :
    Keeps (marking node) (fun _ _ => True) (handleResult node m acked) h := by
  cases acked with
  | true => exact .pure fun _ _ => trivial
  | false => exact (keeps_mark_seen hhas).bind fun _ _ _ => .pure fun _ _ => trivial

lemma keeps_declareDead (members : List Member)
    (hhas : ∀ m ∈ members, HasRead node m .dead a h) :
    Keeps (marking node) (fun _ _ => True) (declareDead node members) h := by
  induction members generalizing h with
  | nil => exact .pure fun _ _ => trivial
  | cons member members ih =>
    refine (keeps_mark_seen (hhas member List.mem_cons_self)).bind fun _ t hext => ih ?_
    exact fun m hm => (hhas m (List.mem_cons_of_mem _ hm)).later hext

lemma keeps_sweepSuspects : Keeps (marking node) (fun _ _ => True) (sweepSuspects node) h := by
  refine .call_bind (fun _ _ => trivial) fun expired t u _ hscan => ?_
  exact keeps_declareDead expired fun m hm => .of_does hscan (.scan expired hm)

lemma keeps_reapDead : Keeps (marking node) (fun _ _ => True) reapDead h := by
  refine .call_bind (fun _ _ => trivial) fun expired t u _ _ => ?_
  show Keeps (marking node) _ (if (expired.map Member.id).isEmpty then _ else _) u
  split_ifs
  · exact .pure fun _ _ => trivial
  · exact fun _ _ => ⟨trivial, fun _ _ _ _ _ => trivial⟩

/-! ### Choosing and probing -/

/-- Neither news nor the table is written. -/
abbrev Passive (p : Prog α) : Prop :=
  AtWaits (fun o : Op => o.tells = true ∨ o.edits = true) (fun _ => False) p

lemma passive_probe (target : Member) : Passive (probe node target) :=
  Custom.probe (P := fun _ prog => Passive prog)
    { pure := fun _ => trivial
      call_bind := fun _ _ ho ho' hf => AtWaits.call_bind (by simp [ho, ho']) hf
      bind := fun hp hf => AtWaits.bind hp (fun _ => False.elim) hf } target

lemma Passive.keeps {p : Prog α} (hp : Passive p) (hext : Unreaped node h h') :
    Keeps (marking node) (fun _ t => Unreaped node h t) p h' := by
  induction p generalizing h' with
  | ret b => exact fun t ht => hext.trans (Unreaped.of_others ht)
  | step o next ih =>
    intro t ht
    refine ⟨?_, fun r u hu => ih r (hp.2 r) (hext.trans (Unreaped.of_both ht hu ?_))⟩
    · cases o with
      | merge | push => exact absurd (.inl rfl) hp.1
      | _ => trivial
    · intro ids ho
      subst ho
      exact hp.1 (.inr rfl)

lemma keeps_nextInPass (order : List NodeId) :
    Keeps (marking node) (fun found t => ∀ m, found.1 = some m → ∃ a, HasRead node m .suspect a t)
      (nextInPass order) h := by
  induction order generalizing h with
  | nil => exact .pure fun _ _ m hm => absurd hm (by simp)
  | cons id order ih =>
    refine .call_bind (fun _ _ => trivial) fun found t u _ hget => ?_
    cases found with
    | none => exact ih
    | some member =>
      show Keeps (marking node) _ (if member.state.isDead then nextInPass order
        else pure (some member, order)) u
      split_ifs with hdead
      · exact ih
      · refine .pure fun v hv m hm => ?_
        obtain rfl := Option.some.inj hm
        -- it was read under its own id
        have hid : member.id = id := by
          obtain ⟨s, hstep, _⟩ := hget
          cases hstep with
          | op _ _ _ _ _ _ hop =>
            obtain ⟨now, hread, _⟩ := hop
            exact MemberTable.id_of_get hread.symm
        subst hid
        have hreads : Op.Reads member .suspect (.get member.id) (some member) :=
          .target (by simpa using hdead)
        exact ⟨t, (HasRead.of_does hget hreads).later (Unreaped.of_others hv)⟩

lemma keeps_nextInPasses (passes : ℕ) (order : List NodeId) :
    Keeps (marking node) (fun found t => ∀ m, found.1 = some m → ∃ a, HasRead node m .suspect a t)
      (nextInPasses passes order) h := by
  induction passes generalizing order h with
  | zero => exact .pure fun _ _ m hm => absurd hm (by simp)
  | succ passes ih =>
    refine (keeps_nextInPass order).bind fun found t hfound => ?_
    obtain ⟨member, rest⟩ := found
    cases member with
    | some member =>
      refine .pure fun u hu m hm => ?_
      obtain ⟨a, hhas⟩ := hfound m hm
      exact ⟨a, hhas.later (Unreaped.of_others hu)⟩
    | none => exact .call_bind (fun _ _ => trivial) fun order u v _ _ => ih order

/-! ### The loop -/

lemma keeps_detectorTurn (order : List NodeId) :
    Keeps (marking node) (fun _ _ => True) (detectorTurn node order) h := by
  refine (keeps_nextInPasses 2 order).bind fun found t hfound => ?_
  obtain ⟨target, rest⟩ := found
  have hrest : ∀ t, Keeps (marking node) (fun _ _ => True)
      (do
        sweepSuspects node
        reapDead
        pure rest) t :=
    fun t => keeps_sweepSuspects.bind fun _ u _ => keeps_reapDead.bind fun _ v _ =>
      .pure fun _ _ => trivial
  cases target with
  | none => exact hrest t
  | some target =>
    obtain ⟨a, hhas⟩ := hfound target rfl
    refine ((passive_probe target).keeps (.refl t)).bind fun acked u hext => ?_
    exact (keeps_handleResult acked (hhas.later hext)).bind fun _ v _ => hrest v

lemma keeps_startUdpDetector (turns : ℕ) (order : List NodeId) (h : NewsTrace) :
    Keeps (marking node) (fun _ _ => True) (startUdpDetector node turns order) h := by
  induction turns generalizing order h with
  | zero => exact .pure fun _ _ => trivial
  | succ turns ih => exact (keeps_detectorTurn order).bind fun order t _ => ih order t

/-! ## What the other tasks keep to -/

/-- Drops an entry, or merges on behalf of somebody else. -/
def Op.Strays (node : LocalNode) : Op → Prop
  | .remove _ => True
  | .merge _ me => me ≠ node.id
  | _ => False

lemma custom_strays (node : LocalNode) :
    Custom node fun _ prog => AtWaits (Op.Strays node) (fun _ => False) prog where
  pure _ := trivial
  call_bind o _ ho ho' hf := by
    refine AtWaits.call_bind (fun hstrays => ?_) hf
    cases o with
    | merge | remove => exact absurd ho' (by simp [Op.edits])
    | _ => exact hstrays
  bind hp hf := AtWaits.bind hp (fun _ => False.elim) hf

lemma apply_strays (rumor : WireMember) :
    AtWaits (Op.Strays node) (fun _ => False) (apply node rumor) := by
  refine AtWaits.call_bind (fun hme => hme rfl) fun outcome => AtWaits.call_bind id fun len => ?_
  cases outcome with
  | ignored => trivial
  | refute rumored =>
    refine AtWaits.call_bind id fun _ => AtWaits.call_bind id fun answer => ?_
    cases answer with
    | none => trivial
    | some _ => exact AtWaits.call_bind id fun _ => AtWaits.call_bind id fun _ => trivial
  | _ => exact AtWaits.call_bind id fun _ => trivial

lemma healthTurn_strays (ready : Bool) :
    AtWaits (Op.Strays node) (fun _ => False) (healthTurn node ready) := by
  refine AtWaits.call_bind id fun changed => ?_
  cases changed with
  | false => trivial
  | true => exact AtWaits.call_bind id fun _ => AtWaits.call_bind id fun _ => ⟨id, fun _ => trivial⟩

/-- Only the detector drops entries, and every task merges for its own node. -/
lemma OtherTask.strays {p : Prog Unit} (hp : OtherTask node p) :
    AtWaits (Op.Strays node) (fun _ => False) p := by
  obtain ⟨kind, hkind, rfl⟩ := hp
  have hstart := (custom_strays node).start apply_strays healthTurn_strays kind fun hreaping => by
    rw [hreaping] at hkind
    exact absurd hkind (by simp [Kind.detects])
  exact AtWaits.bind hstart (fun _ => False.elim) fun _ => trivial

/-! ## What a run keeps -/

/-- What an operation of a run found and left, and what is known of who called it. -/
lemma DetectorRun.op (hrun : DetectorRun node h) {i : ℕ} {s : NewsPool}
    (hstep : DetectorStep node h.now (.op i o r) s) :
    o.Occurs node h.now.state r s.state ∧ (i = 0 → mayMark node o h) ∧
      (i ≠ 0 → ¬ o.Strays node) := by
  cases hstep with
  | op _ _ next _ t htask hop =>
    refine ⟨hop, ?_, ?_⟩
    · rintro rfl
      obtain ⟨pool, ⟨_, turns, order, htasks⟩, hext⟩ := hrun
      have hfirst : (History.init pool : NewsTrace).now.tasks 0 =
          some (startUdpDetector node turns order) := by
        show pool.tasks 0 = _
        rw [htasks]
        rfl
      obtain ⟨p, htask', hkeeps⟩ := Pool.keeps_of_extends hext hfirst
        (keeps_startUdpDetector turns order _)
      obtain rfl : p = .step o next := Option.some.inj (htask'.symm.trans htask)
      exact hkeeps.step.1
    · intro hi
      have hstrays := Pool.forall_tasks_of_run
        (S := fun i p => i ≠ 0 → AtWaits (Op.Strays node) (fun _ => False) p) ?_
        (fun _ p hp _ => hp.strays) (fun _ _ _ hp r hi => (hp hi).2 r) hrun htask
      · exact (hstrays hi).1
      · rintro pool ⟨_, turns, order, htasks⟩ i p htask hi
        rw [htasks] at htask
        exact absurd htask (by simp [hi])

/-- Every merge of a run is on behalf of the node. -/
lemma DetectorRun.merge_me (hrun : DetectorRun node h) {i : ℕ} {me : NodeId} {s : NewsPool}
    (hstep : DetectorStep node h.now (.op i (.merge rumor me) outcome) s) : me = node.id := by
  obtain ⟨_, hmay, hother⟩ := hrun.op hstep
  by_cases hi : i = 0
  · exact (hmay hi).1
  · by_contra hme
    exact hother hi hme

/-- A node never has an entry for itself. -/
lemma DetectorRun.own (hrun : DetectorRun node h) :
    h.now.state.shared.table.get node.id = none := by
  refine History.IsRun.induction (P := fun h => h.now.state.shared.table.get node.id = none) hrun
    (fun pool hpool => hpool.1) ?_
  intro h l s (hrun : DetectorRun node h) ih hstep
  cases hstep with
  | start => exact ih
  | op i o next r t htask hop =>
    have hstep : DetectorStep node h.now (.op i o r) _ := .op _ i o next r t htask hop
    obtain ⟨now, hop⟩ := hop
    show t.shared.table.get node.id = none
    rw [hop.table]
    cases o with
    | merge rumor me =>
      rw [hrun.merge_me hstep]
      show (h.now.state.shared.table.merge now rumor node.id).2.get node.id = none
      rw [MemberTable.get_merge, if_neg (by simp), ih]
    | remove ids =>
      show (h.now.state.shared.table.remove ids).get node.id = none
      rw [MemberTable.get_remove, ih]
      exact ite_self none
    | _ => exact ih

/-- As long as the detector drops nobody, an entry stays and only grows. -/
lemma Unreaped.exists_entry (hext : Unreaped node h h') (hrun : DetectorRun node h) {id : NodeId}
    {entry : Member} (hget : h.now.state.shared.table.get id = some entry) :
    ∃ entry', h'.now.state.shared.table.get id = some entry' ∧ entry.key ≤ entry'.key := by
  induction hext with
  | refl => exact ⟨entry, hget, le_refl _⟩
  | @push h' l s hext hstep ih =>
    obtain ⟨entry', hget', hle⟩ := ih
    have hrun' : DetectorRun node h' := hrun.extends (hext.mono fun _ _ _ hl => hl.1)
    obtain ⟨hstep, hreaps⟩ := hstep
    cases hstep with
    | start => exact ⟨entry', hget', hle⟩
    | op i o next r t htask hop =>
      obtain ⟨_, _, hother⟩ := hrun'.op (.op _ i o next r t htask hop)
      have hdrops : ¬ o.Drops id := by
        intro hdrops
        cases o with
        | remove ids =>
          by_cases hi : i = 0
          · exact hreaps ids (by rw [hi])
          · exact hother hi trivial
        | _ => exact hdrops
      obtain ⟨now, hop⟩ := hop
      obtain ⟨entry'', hget'', hle'⟩ := hop.keeps_entry hget' hdrops
      exact ⟨entry'', hget'', hle.trans hle'⟩

/-- What was read was the entry then, and there still is one that is no older. -/
lemma HasRead.spec (hhas : HasRead node m state a h) (hrun : DetectorRun node h) :
    (∃ (o : Op) (r : o.Res), o.Reads m state r ∧
      History.Took (DetectorStep node) (.op 0 o r) a h) ∧
      a.now.state.shared.table.get m.id = some m ∧
      ∃ entry, h.now.state.shared.table.get m.id = some entry ∧ m.key ≤ entry.key := by
  obtain ⟨o, r, s, hreads, hstep, hafter⟩ := hhas
  have hlater : History.Extends (DetectorStep node) (a.push (.op 0 o r) s) h :=
    hafter.mono fun _ _ _ hl => hl.1
  have htook : History.Took (DetectorStep node) (.op 0 o r) a h := ⟨s, hstep, hlater⟩
  have hrun_a : DetectorRun node a := hrun.of_extends htook.before
  obtain ⟨⟨now, hop⟩, _⟩ := hrun_a.op hstep
  have hread : a.now.state.shared.table.get m.id = some m ∧ s.state = a.now.state := by
    cases hreads with
    | target => exact ⟨hop.1.symm, hop.2⟩
    | scan _ hm =>
      have hmem := (List.mem_filter.mp (hop.1.mem_iff.mp hm)).1
      exact ⟨MemberTable.get_of_mem hmem, hop.2⟩
  refine ⟨⟨o, r, hreads, htook⟩, hread.1, ?_⟩
  refine hafter.exists_entry (hrun.of_extends hlater) ?_
  show s.state.shared.table.get m.id = some m
  rw [hread.2]
  exact hread.1

/-! ## Late marks -/

/-- An entry below a mark of what it was once read as is still at that incarnation. -/
lemma incarnation_of_key_lt {entry : Member} (hle : m.key ≤ entry.key)
    (hlt : entry.key < (markRumor m state).key) :
    entry.incarnation = m.incarnation ∧ rank entry.state.toWire < rank state := by
  rcases WireMember.key_lt_iff (a := .new entry).mp hlt with hless | hsame
  · have hnot : ¬ m.key ≤ entry.key := not_le.mpr
      (WireMember.key_lt_iff (a := .new entry) (b := .new m).mpr (.inl hless))
    exact absurd hle hnot
  · exact hsame

/-- A mark of what an entry was once read as. -/
lemma respects_mark {table : MemberTable} {entry : Member} {me : NodeId}
    (state : WireMemberState) (now : Instant) (hme : m.id ≠ me)
    (hget : table.get m.id = some entry) (hle : m.key ≤ entry.key) :
    Respects m state (table.merge now (markRumor m state) me).1 table
      (table.merge now (markRumor m state) me).2 := by
  have hspec := table.merge_spec now (markRumor m state) me
  generalize (table.merge now (markRumor m state) me).1 = outcome at hspec ⊢
  generalize (table.merge now (markRumor m state) me).2 = table' at hspec ⊢
  cases hspec with
  | own hid | doubted hid => exact absurd hid hme
  | refused _ hnone | added _ hnone => exact absurd (hget.symm.trans hnone) (by simp)
  | stale =>
    exact ⟨fun _ hne => absurd rfl hne, fun _ hnone => hnone, fun _ _ hentry _ => hentry,
      fun _ hentry _ => hentry, .inr ⟨rfl, rfl⟩⟩
  | updated _ member hmember hkey =>
    obtain rfl : entry = member := Option.some.inj (hget.symm.trans hmember)
    have hid : entry.id = m.id := MemberTable.id_of_get hget
    -- the entry is between what was read and the mark, so it is at the incarnation read
    obtain ⟨hinc, hrank⟩ := incarnation_of_key_lt hle hkey
    have hother : ∀ id, id ≠ m.id →
        (table.put (entry.update now (markRumor m state))).get id = table.get id := by
      intro id hne
      rw [MemberTable.get_put, if_neg]
      exact fun heq => hne (heq.trans hid)
    refine ⟨fun id hne => ?_, fun id hnone => ?_, fun id e he hdead => ?_, fun e he hlt => ?_,
      .inl ⟨rfl, fun hsame => ?_⟩⟩
    · by_cases hm : id = m.id
      · exact ⟨hm, entry, hm ▸ hget, hinc, hrank⟩
      · exact absurd (hother id hm) hne
    · have hm : id ≠ m.id := fun hm => absurd (hget.symm.trans (hm ▸ hnone)) (by simp)
      rw [hother id hm]
      exact hnone
    · have hm : id ≠ m.id := by
        rintro rfl
        obtain rfl : entry = e := Option.some.inj (hget.symm.trans he)
        rw [MemberState.isDead_iff.mp hdead] at hrank
        cases state <;> exact absurd hrank (by decide)
      rw [hother id hm]
      exact he
    · obtain rfl : entry = e := Option.some.inj (hget.symm.trans he)
      exact absurd hlt (by rw [hinc]; exact lt_irrefl _)
    · rw [hget, MemberTable.get_put] at hsame
      have hsame := (if_pos hid.symm).symm.trans hsame
      have hkeys := congrArg Member.key (Option.some.inj hsame)
      rw [Member.key_update] at hkeys
      exact absurd hkey (by rw [hkeys]; exact lt_irrefl _)

/-- What a mark changes, it leaves as ready and with the tags it was read with, under the address
it has. -/
lemma get_merge_mark {table : MemberTable} {id : NodeId} {entry : Member}
    (state : WireMemberState) (me : NodeId) (now : Instant)
    (hle : ∀ entry, table.get m.id = some entry → m.key ≤ entry.key)
    (hget : table.get id = some entry) :
    ∃ entry', (table.merge now (markRumor m state) me).2.get id = some entry' ∧
      entry'.addr = entry.addr ∧ (entry' = entry ∨ id = m.id ∧
        entry.incarnation = m.incarnation ∧ entry'.ready = m.ready ∧ entry'.tags = m.tags) := by
  rcases MemberTable.get_merge_of_get now (markRumor m state) me hget with
    ⟨hid, _, hlt, hmerge⟩ | ⟨_, hmerge⟩
  · have hid : id = m.id := hid
    have hinc := (incarnation_of_key_lt (hle entry (hid ▸ hget)) hlt).1
    exact ⟨_, hmerge, rfl, .inr ⟨hid, hinc, rfl, rfl⟩⟩
  · exact ⟨entry, hmerge, rfl, .inl rfl⟩

/-- What the detector merges is what it makes of a member it has read, and the merge respects
whatever was learned since. -/
lemma DetectorRun.marks (hrun : DetectorRun node h) {me : NodeId} {s : NewsPool}
    (hstep : DetectorStep node h.now (.op 0 (.merge rumor me) outcome) s) :
    ∃ a m state, HasRead node m state a h ∧ rumor = markRumor m state ∧ me = node.id ∧
      Respects m state outcome h.now.state.shared.table s.state.shared.table := by
  obtain ⟨⟨now, hop⟩, hmay, _⟩ := hrun.op hstep
  obtain ⟨rfl, a, m, state, hhas, rfl⟩ := hmay rfl
  obtain ⟨_, _, entry, hget, hle⟩ := hhas.spec hrun
  have hown : m.id ≠ node.id := by
    intro hm
    rw [hm, hrun.own] at hget
    exact absurd hget (by simp)
  have hrespects := respects_mark state now hown hget hle
  rw [← hop.1] at hrespects
  refine ⟨a, m, state, hhas, rfl, rfl, ?_⟩
  rw [hop.table]
  exact hrespects

/-- A mark of a member the detector read earlier changes its entry only if it is still at the
incarnation that was read, in a state of lower rank. It creates no entry, leaves the dead dead and
a refutation as it is, and what it leaves alone it does not queue. -/
theorem late_marks_respect_news (node : LocalNode) (h : NewsTrace) (hrun : DetectorRun node h) :
    (∀ rumor me outcome s, DetectorStep node h.now (.op 0 (.merge rumor me) outcome) s →
      ∃ a m state, (∃ (o : Op) (r : o.Res), o.Reads m state r ∧
          History.Took (DetectorStep node) (.op 0 o r) a h) ∧
        a.now.state.shared.table.get m.id = some m ∧ rumor = markRumor m state ∧
        Respects m state outcome h.now.state.shared.table s.state.shared.table ∧
        (Agreed h → ∀ id entry, h.now.state.shared.table.get id = some entry →
          ∃ entry', s.state.shared.table.get id = some entry' ∧ entry'.ready = entry.ready ∧
            entry'.tags = entry.tags ∧ entry'.addr = entry.addr)) ∧
    ∀ record size s, DetectorStep node h.now (.op 0 (.push record size) ()) s →
      ∃ (a : NewsTrace) (t : NewsPool),
        DetectorStep node a.now (.op 0 (.merge record node.id) .updated) t ∧
        t.state.shared.table.get record.id ≠ a.now.state.shared.table.get record.id ∧
        Untold node (a.push (.op 0 (.merge record node.id) .updated) t) h := by
  constructor
  · intro rumor me outcome s hstep
    obtain ⟨a, m, state, hhas, rfl, rfl, hrespects⟩ := hrun.marks hstep
    obtain ⟨⟨o, r, hreads, htook⟩, hread, entry, hget, hle⟩ := hhas.spec hrun
    refine ⟨a, m, state, ⟨o, r, hreads, htook⟩, hread, rfl, hrespects, ?_⟩
    intro hagreed id e he
    obtain ⟨⟨now, hop⟩, _⟩ := hrun.op hstep
    have hle' : ∀ e, h.now.state.shared.table.get m.id = some e → m.key ≤ e.key := fun e he =>
      Option.some.inj (hget.symm.trans he) ▸ hle
    obtain ⟨e', he', haddr, hsame⟩ := get_merge_mark state node.id now hle' he
    refine ⟨e', ?_, ?_⟩
    · rw [hop.table]
      exact he'
    rcases hsame with rfl | ⟨rfl, hinc, hready, htags⟩
    · exact ⟨rfl, rfl, haddr⟩
    · -- both the entry read and the one found were in the table
      have hagree := hagreed a.now (htook.before.mem_states a.now_mem_states) h.now
        h.now_mem_states m (MemberTable.mem_of_get hread) e (MemberTable.mem_of_get he)
        (MemberTable.id_of_get he).symm hinc.symm
      exact ⟨hready.trans hagree.1, htags.trans hagree.2, haddr⟩
  · intro record size s hstep
    -- the detector pushes only after a merge that was not ignored
    obtain ⟨_, hmay, _⟩ := hrun.op hstep
    obtain ⟨a, rumor, outcome, ⟨t, hmerged, hafter⟩, hout, hrecord⟩ := hmay rfl
    have hrun_a : DetectorRun node a :=
      hrun.of_extends ((History.Extends.single hmerged).trans (hafter.mono fun _ _ _ hl => hl.1))
    obtain ⟨_, m, state, _, hrumor, _, hrespects⟩ := hrun_a.marks hmerged
    rcases hrespects.outcome with ⟨rfl, hchanged⟩ | ⟨hignored, _⟩
    · obtain rfl : record = rumor := hrecord.resolve_left (by simp)
      refine ⟨a, t, hmerged, ?_, hafter⟩
      rw [hrumor]
      exact hchanged
    · exact absurd hignored hout

/-! ### A refutation during a probe -/

/-- A peer, as the detector reads it. -/
def samplePeer : Member := (sampleRumor .alive 0).toMember 0

/-- The peer is all there is in the table. -/
def sampleKnown : World := ⟨{ Shared.new with table := MemberTable.new.put samplePeer }, []⟩

/-- The peer's record while it refutes. -/
def sampleRefuted : Member := samplePeer.update 0 (sampleRumor .alive 1)

/-- The detector's ping gets nowhere and there is nobody else to ask: it is about to suspect the
peer. -/
lemma exists_probe_failed : ∃ next w,
    Path (Op.Occurs listener) (fun _ => True)
      (startUdpDetector listener 1 [samplePeer.id]) sampleKnown
      (.step (.merge (markRumor samplePeer .suspect) listener.id) next) w ∧
    w.shared.table = sampleKnown.shared.table := by
  have hget : Op.Run listener 0 (.get samplePeer.id) sampleKnown (some samplePeer) sampleKnown :=
    ⟨by decide, rfl⟩
  have hrelays : ∀ w : World, w.shared.table = sampleKnown.shared.table →
      Op.Run listener 0 (.relayCandidates samplePeer.id INDIRECT_PROBES) w [] w := by
    intro w hw
    refine ⟨⟨[], ?_, rfl⟩, rfl⟩
    rw [hw]
    decide
  apply Exists.intro
  apply Exists.intro
  apply And.intro
  · exact .step trivial ⟨0, hget⟩ (.step trivial ⟨0, rfl, rfl⟩ (.step trivial ⟨0, rfl, rfl⟩
      (.step trivial ⟨0, rfl, rfl⟩ (.step trivial ⟨0, rfl, rfl⟩ (.step (r := false) trivial ⟨0, rfl⟩
        (.step (r := ()) trivial ⟨0, rfl⟩ (.step trivial ⟨0, hrelays _ rfl⟩ (.refl _ _))))))))
  · rfl

/-- By then another task has heard the peer's refutation. -/
lemma exists_refuted : ∃ (h : NewsTrace) (next : MergeOutcome → Prog Unit),
    DetectorRun listener h ∧
    h.now.tasks 0 = some (.step (.merge (markRumor samplePeer .suspect) listener.id) next) ∧
    h.now.state.shared.table =
      (sampleKnown.shared.table.merge 0 (sampleRumor .alive 1) listener.id).2 := by
  obtain ⟨next, w, hpath, htable⟩ := exists_probe_failed
  let pool : NewsPool := ⟨sampleKnown, fun i =>
    if i = 0 then some (startUdpDetector listener 1 [samplePeer.id]) else none⟩
  have hinit : DetectorRun listener (.init pool) := ⟨pool, ⟨by decide, 1, _, rfl⟩, .refl _⟩
  have hzero : pool.tasks 0 = some (startUdpDetector listener 1 [samplePeer.id]) := rfl
  obtain ⟨h, hext, hnow⟩ := Pool.exists_extends_of_path (h := .init pool) hpath rfl hzero
  -- the peer's ping comes with its news
  let sender : WireIdentity := ⟨samplePeer.id, samplePeer.addr, 1, true, []⟩
  let ping : Kind := .datagram samplePeer.addr (.ping 0 sender [sampleRumor .alive 1])
  let started : NewsPool := { h.now with
    tasks := Function.update h.now.tasks 1 (some (ping.start listener >>= fun _ => pure ())) }
  have hstart : DetectorStep listener h.now (.start 1 (ping.start listener >>= fun _ => pure ()))
      started := .start h.now 1 _ (by rw [hnow]; rfl) ⟨ping, rfl, rfl⟩
  let heard : World := { w with shared := { w.shared with
    table := (w.shared.table.merge 0 (sampleRumor .alive 1) listener.id).2 } }
  have hmerge : Op.Run listener 0 (.merge (sampleRumor .alive 1) listener.id) w .updated heard :=
    ⟨by rw [htable]; decide, rfl⟩
  have hheard : ∃ rest, Path (Op.Occurs listener) (fun _ => True)
      (ping.start listener >>= fun _ => pure ()) w rest heard :=
    ⟨_, .step trivial ⟨0, hmerge⟩ (.refl _ _)⟩
  obtain ⟨rest, hheard⟩ := hheard
  have hone : started.tasks 1 = some (ping.start listener >>= fun _ => pure ()) :=
    Function.update_self 1 _ h.now.tasks
  obtain ⟨h', hext', hnow'⟩ := Pool.exists_extends_of_path (h := h.push _ started) hheard
    (show h.now.state = w by rw [hnow]) hone
  refine ⟨h', next, hinit.extends (hext.trans ((History.Extends.single hstart).trans hext')),
    by simp [hnow', started, hnow], ?_⟩
  rw [hnow', ← htable]

/-- A peer that refutes while it is probed stays as it is when the probe has failed. -/
theorem late_marks_respect_news_refuted : ∃ (h : NewsTrace) (s : NewsPool),
    DetectorRun listener h ∧
      DetectorStep listener h.now
        (.op 0 (.merge (markRumor samplePeer .suspect) listener.id) .ignored) s ∧
      h.now.state.shared.table.get samplePeer.id = some sampleRefuted ∧
      s.state.shared.table.get samplePeer.id = some sampleRefuted := by
  obtain ⟨h, next, hrun, htask, htable⟩ := exists_refuted
  have hget : h.now.state.shared.table.get samplePeer.id = some sampleRefuted := by
    rw [htable]
    decide
  let marked : World := { h.now.state with shared := { h.now.state.shared with
    table := (h.now.state.shared.table.merge 0 (markRumor samplePeer .suspect) listener.id).2 } }
  have hmark : Op.Run listener 0 (.merge (markRumor samplePeer .suspect) listener.id) h.now.state
      .ignored marked := ⟨by rw [htable]; decide, rfl⟩
  have hstep : DetectorStep listener h.now
      (.op 0 (.merge (markRumor samplePeer .suspect) listener.id) .ignored) _ :=
    .op h.now 0 (.merge (markRumor samplePeer .suspect) listener.id) next .ignored marked htask
      ⟨0, hmark⟩
  obtain ⟨a, m, state, _, _, hrumor, hrespects, _⟩ :=
    (late_marks_respect_news listener h hrun).1 _ _ _ _ hstep
  have hid : samplePeer.id = m.id := congrArg WireMember.id hrumor
  have hinc : samplePeer.incarnation = m.incarnation := congrArg WireMember.incarnation hrumor
  refine ⟨h, _, hrun, hstep, hget, ?_⟩
  rw [hid] at hget ⊢
  refine hrespects.refuted _ hget ?_
  rw [← hinc]
  decide

end Dalila
