import Dalila.OpTheorems
import Dalila.Forwarding
import Dalila.Lib.Pool

/-!
# News that overtakes news

A task learns its news under one lock, the table's or the incarnation's, and queues it under another
(`Learned`, `Queued`). The file proves that where news is queued in the order in which it was
learned (`QueuedInOrder`), the queue holds the newest of each node or nothing
(`newest_stays_queued`), and shows two tasks that queue theirs the other way round
(`older_news_overtakes`).
-/

namespace Dalila

open Program
open MemberTable (sampleRumor)

/-! ## News -/

/-- The record an operation settles on: a rumor that changed the table, or the alive rumor of
the incarnation just read. -/
def Op.Fixes (node : LocalNode) : (o : Op) → o.Res → WireMember → Prop
  | .merge rumor me, outcome, record =>
    me = node.id ∧ record = rumor ∧ (outcome = .added ∨ outcome = .updated)
  | .current, read, record => record = node.aliveRumor read
  | _, _, _ => False

/-- The record is no newer than what the node knows. -/
def Stands (node : LocalNode) (record : WireMember) (w : World) : Prop :=
  if record.id = node.id then
    record.state = .alive ∧ record.incarnation ≤ w.shared.guarded.incarnation
  else
    ∃ entry, w.shared.table.get record.id = some entry ∧ record.key ≤ entry.key

/-- The operation drops the entry of `id`. -/
def Op.Drops (id : NodeId) : Op → Prop
  | .remove ids => id ∈ ids
  | _ => False

variable {node : LocalNode} {now : Instant} {o : Op} {r : o.Res} {w w' : World}
  {record record' : WireMember}

/-- What a merge that changed the table found, and what it left. -/
lemma MemberTable.merge_changed {table : MemberTable} {rumor : WireMember} {me : NodeId}
    {outcome : MergeOutcome} (hout : outcome = (table.merge now rumor me).1)
    (hchanged : outcome = .added ∨ outcome = .updated) :
    rumor.id ≠ me ∧ (∀ entry, table.get rumor.id = some entry → entry.key < rumor.key) ∧
      ∃ entry, (table.merge now rumor me).2.get rumor.id = some entry ∧
        entry.key = rumor.key := by
  have hspec := table.merge_spec now rumor me
  rw [← hout] at hspec
  generalize (table.merge now rumor me).2 = table' at hspec ⊢
  cases hspec with
  | own | doubted | refused | stale => simp at hchanged
  | added hid hget hadm =>
    refine ⟨hid, fun entry hentry => absurd (hentry.symm.trans hget) (by simp), ?_⟩
    refine ⟨rumor.toMember now, ?_, WireMember.key_toMember now rumor⟩
    rw [get_put]
    exact if_pos rfl
  | updated hid member hget hkey =>
    have hmid : member.id = rumor.id := id_of_get hget
    refine ⟨hid, fun entry hentry => ?_, member.update now rumor, ?_, Member.key_update ..⟩
    · rw [← Option.some.inj (hget.symm.trans hentry)]
      exact hkey
    · rw [get_put]
      exact if_pos hmid.symm

/-- An operation that does not drop an entry leaves it no older. -/
lemma Op.Run.keeps_entry (h : o.Run node now w r w') {id : NodeId} {entry : Member}
    (hget : w.shared.table.get id = some entry) (hdrops : ¬ o.Drops id) :
    ∃ entry', w'.shared.table.get id = some entry' ∧ entry.key ≤ entry'.key := by
  rw [h.table]
  rcases o.get_tableAfter now hget with ⟨ids, rfl, hid, _⟩ | hsame | ⟨rumor, me, _, _, _, hlt, hget'⟩
  · exact absurd hid hdrops
  · exact ⟨entry, hsame, le_refl _⟩
  · exact ⟨_, hget', by rw [Member.key_update]; exact hlt.le⟩

/-- What stands goes on to stand. -/
lemma Op.Run.stands (h : o.Run node now w r w') (hstands : Stands node record w)
    (hdrops : ¬ o.Drops record.id) : Stands node record w' := by
  unfold Stands at hstands ⊢
  split_ifs at hstands ⊢ with hown
  · rw [h.guarded]
    exact ⟨hstands.1, hstands.2.trans (o.incarnation_le_guardedAfter _)⟩
  · obtain ⟨entry, hget, hle⟩ := hstands
    obtain ⟨entry', hget', hle'⟩ := h.keeps_entry hget hdrops
    exact ⟨entry', hget', hle.trans hle'⟩

/-- What an operation settles on stands from then on. -/
lemma Op.Run.fixes_stands (h : o.Run node now w r w') (hfixes : o.Fixes node r record) :
    Stands node record w' := by
  unfold Stands
  cases o with
  | merge rumor me =>
    obtain ⟨rfl, rfl, hchanged⟩ := hfixes
    obtain ⟨hout, rfl⟩ := h
    obtain ⟨hid, _, entry, hget, hkey⟩ := MemberTable.merge_changed hout hchanged
    rw [if_neg hid]
    exact ⟨entry, hget, hkey.symm.le⟩
  | current =>
    obtain rfl : record = node.aliveRumor r := hfixes
    obtain ⟨rfl, rfl⟩ := h
    rw [if_pos (by rfl)]
    exact ⟨rfl, le_refl _⟩
  | _ => exact hfixes.elim

/-- What an operation settles on is no older than anything that stood before, and newer if it is
news of another node. -/
lemma Op.Run.fixes_newest (h : o.Run node now w r w') (hfixes : o.Fixes node r record)
    (hstands : Stands node record' w) (hid : record'.id = record.id) :
    record'.key ≤ record.key ∧ (record.id ≠ node.id → record'.key < record.key) := by
  unfold Stands at hstands
  cases o with
  | merge rumor me =>
    obtain ⟨rfl, rfl, hchanged⟩ := hfixes
    obtain ⟨hout, _⟩ := h
    obtain ⟨hne, hnewer, _⟩ := MemberTable.merge_changed hout hchanged
    rw [if_neg (hid ▸ hne), hid] at hstands
    obtain ⟨entry, hget, hle⟩ := hstands
    have hlt := lt_of_le_of_lt hle (hnewer entry hget)
    exact ⟨hlt.le, fun _ => hlt⟩
  | current =>
    obtain rfl : record = node.aliveRumor r := hfixes
    obtain ⟨rfl, _⟩ := h
    have hown : record'.id = node.id := hid
    rw [if_pos hown] at hstands
    refine ⟨?_, fun hother => absurd rfl hother⟩
    rw [WireMember.key_le_iff]
    rcases lt_or_eq_of_le hstands.2 with hlt | heq
    · exact .inl hlt
    · refine .inr ⟨heq, ?_⟩
      rw [hstands.1]
      exact Nat.zero_le _
  | _ => exact hfixes.elim

/-! ## The tasks of one node -/

/-- What runs on a node as far as its news goes: any number of `apply` calls, the turns of the
health check, and whoever takes from the queue. -/
inductive NewsTask (node : LocalNode) : Prog Unit → Prop where
  | apply (rumor : WireMember) : NewsTask node do
      let _ ← Dalila.apply node rumor
      pure ()
  | health (ready : Bool) : NewsTask node (healthTurn node ready)
  | take : NewsTask node do
      let _ ← Op.call .take
      pure ()

abbrev NewsPool := Pool Op Op.Res Unit World

abbrev NewsTrace := Pool.Trace Op Op.Res Unit World

/-- One operation of one task, at any time. -/
abbrev NewsStep (node : LocalNode) : NewsPool → Pool.Label Op Op.Res Unit → NewsPool → Prop :=
  Pool.Step (fun o w r w' => ∃ now, Op.Run node now o w r w') (NewsTask node)

/-- A run of the tasks over any table, from an empty queue. -/
abbrev NewsRun (node : LocalNode) (h : NewsTrace) : Prop :=
  History.IsRun (NewsStep node)
    (fun pool => pool.state.shared.queue = .new ∧ ∀ i, pool.tasks i = none) h

/-- The task `i` settled on `record` after `a`, on the way to `h`. -/
def Learned (node : LocalNode) (i : ℕ) (record : WireMember) (a h : NewsTrace) : Prop :=
  ∃ (o : Op) (r : o.Res), History.Took (NewsStep node) (.op i o r) a h ∧ o.Fixes node r record

/-- The task `i` settled on `record` after `a` and queued it after `b`. -/
structure Queued (node : LocalNode) (i : ℕ) (record : WireMember) (a b h : NewsTrace) : Prop where
  learned : Learned node i record a b
  pushed : ∃ size, History.Took (NewsStep node) (.op i (.push record size) ()) b h

/-- News of one member is queued in the order it was learned in. -/
def QueuedInOrder (node : LocalNode) (h : NewsTrace) : Prop :=
  ∀ i i' record record' a a' b b', Queued node i record a b h → Queued node i' record' a' b' h →
    record'.id = record.id → b'.past.length < b.past.length → a'.past.length ≤ a.past.length

variable {i : ℕ} {a b h h' : NewsTrace}

lemma Learned.later (hlearned : Learned node i record a h)
    (hext : History.Extends (NewsStep node) h h') : Learned node i record a h' := by
  obtain ⟨o, r, htook, hfixes⟩ := hlearned
  exact ⟨o, r, htook.later hext, hfixes⟩

/-- What was learned until a step was learned by that step, or before. -/
lemma Learned.of_push {l : Pool.Label Op Op.Res Unit} {s : NewsPool}
    (hlearned : Learned node i record a (h.push l s)) :
    (a = h ∧ ∃ (o : Op) (r : o.Res), l = .op i o r ∧ o.Fixes node r record) ∨
      Learned node i record a h := by
  obtain ⟨o, r, htook, hfixes⟩ := hlearned
  rcases htook.of_push with ⟨hsame, hlabel⟩ | hbefore
  · exact .inl ⟨hsame, o, r, hlabel.symm, hfixes⟩
  · exact .inr ⟨o, r, hbefore, hfixes⟩

lemma Learned.length_lt (hlearned : Learned node i record a h) :
    a.past.length < h.past.length := by
  obtain ⟨_, _, htook, _⟩ := hlearned
  exact htook.length_lt

lemma Queued.later (hqueued : Queued node i record a b h)
    (hext : History.Extends (NewsStep node) h h') : Queued node i record a b h' := by
  obtain ⟨size, htook⟩ := hqueued.pushed
  exact ⟨hqueued.learned, size, htook.later hext⟩

/-- When a task of the pool may call an operation: it queues what it settled on, and drops
nobody. -/
def mayNews (node : LocalNode) (i : ℕ) : Op → NewsTrace → Prop
  | .push record _, h => ∃ a, Learned node i record a h
  | .remove _, _ => False
  | _, _ => True

/-- What the task `i` of the pool keeps to. -/
abbrev newsDeeds (node : LocalNode) (i : ℕ) : Regime Op Op.Res NewsTrace :=
  Pool.deeds (fun o w r w' => ∃ now, Op.Run node now o w r w') (NewsTask node) i (mayNews node i)

lemma Learned.of_others (hlearned : Learned node i record a h)
    (hothers : (newsDeeds node i).others h h') : Learned node i record a h' :=
  hlearned.later (hothers.mono fun _ _ _ hstep => hstep.1)

lemma Learned.of_does (hdoes : (newsDeeds node i).does o r h h') (hfixes : o.Fixes node r record) :
    Learned node i record h h' := by
  obtain ⟨s, hstep, rfl⟩ := hdoes
  exact ⟨o, r, .of_step hstep, hfixes⟩

/-- One operation more that changes nothing about what the task settled on. -/
lemma Learned.of_both {t u : NewsTrace} (hlearned : Learned node i record a h)
    (hothers : (newsDeeds node i).others h t) (hdoes : (newsDeeds node i).does o r t u) :
    Learned node i record a u := by
  obtain ⟨s, hstep, rfl⟩ := hdoes
  exact (hlearned.of_others hothers).later (.single hstep)

/-- Queue what was settled on, and be done. -/
lemma keeps_push {outcome : MergeOutcome} {size : ℕ} (hlearned : Learned node i record a h) :
    Keeps (newsDeeds node i) (fun _ _ => True)
      (do
        Op.call (.push record size)
        pure outcome : Prog MergeOutcome) h :=
  .call_bind (fun _ ht => ⟨a, hlearned.of_others ht⟩) fun _ _ _ _ _ => .pure fun _ _ => trivial

lemma keeps_apply (node : LocalNode) (i : ℕ) (rumor : WireMember) (h : NewsTrace) :
    Keeps (newsDeeds node i) (fun _ _ => True) (apply node rumor) h := by
  refine .call_bind (fun _ _ => trivial) fun outcome _ t₁ _ hmerge => ?_
  refine .call_bind (fun _ _ => trivial) fun len _ t₂ ht₂ hlen => ?_
  have hchanged : outcome = .added ∨ outcome = .updated → Learned node i rumor _ t₂ :=
    fun hout => (Learned.of_does hmerge ⟨rfl, rfl, hout⟩).of_both ht₂ hlen
  cases outcome with
  | ignored => exact .pure fun _ _ => trivial
  | added => exact keeps_push (hchanged (.inl rfl))
  | updated => exact keeps_push (hchanged (.inr rfl))
  | refute rumored =>
    refine .call_bind (fun _ _ => trivial) fun _ _ t₃ _ _ => ?_
    refine .call_bind (fun _ _ => trivial) fun answer _ t₄ _ _ => ?_
    cases answer with
    | none => exact .pure fun _ _ => trivial
    | some incarnation =>
      refine .call_bind (fun _ _ => trivial) fun current _ t₅ _ hcurrent => ?_
      exact keeps_push (Learned.of_does hcurrent rfl)

lemma keeps_newsTask {p : Prog Unit} (hp : NewsTask node p) (i : ℕ) (h : NewsTrace) :
    Keeps (newsDeeds node i) (fun _ _ => True) p h := by
  cases hp with
  | apply rumor =>
    exact (keeps_apply node i rumor h).bind fun _ _ _ => .pure fun _ _ => trivial
  | health ready =>
    refine .call_bind (fun _ _ => trivial) fun changed _ t₁ _ _ => ?_
    cases changed with
    | false => exact .pure fun _ _ => trivial
    | true =>
      refine .call_bind (fun _ _ => trivial) fun current _ t₂ _ hcurrent => ?_
      refine .call_bind (fun _ _ => trivial) fun len _ t₃ ht₃ hlen => ?_
      have hlearned : Learned node i (node.aliveRumor current) _ t₃ :=
        (Learned.of_does hcurrent rfl).of_both ht₃ hlen
      intro t ht
      exact ⟨⟨_, hlearned.of_others ht⟩, fun _ _ _ _ _ => trivial⟩
  | take => exact .call_bind (fun _ _ => trivial) fun _ _ _ _ _ => .pure fun _ _ => trivial

/-- What an operation of a run found and left, and that it was allowed. -/
lemma NewsRun.op (hrun : NewsRun node h) {s : NewsPool}
    (hstep : NewsStep node h.now (.op i o r) s) :
    mayNews node i o h ∧ ∃ now, Op.Run node now o h.now.state r s.state := by
  cases hstep with
  | op _ _ next _ t htask hop =>
    have hkeeps := Pool.deeds_of_run (Q := fun _ _ _ => True) (fun pool hpool => hpool.2)
      (fun p hp i h => keeps_newsTask hp i h) hrun htask
    exact ⟨hkeeps.step.1, hop⟩

/-! ## What a run knows -/

/-- What was learned stands. -/
lemma Learned.stands (hrun : NewsRun node h) (hlearned : Learned node i record a h) :
    Stands node record h.now.state := by
  have hall : ∀ i record a, Learned node i record a h → Stands node record h.now.state := by
    refine History.IsRun.induction (P := fun h => ∀ i record a, Learned node i record a h →
      Stands node record h.now.state) hrun ?_ ?_
    · rintro pool _ i record a ⟨o, r, htook, _⟩
      exact absurd htook.length_lt (by simp [History.init])
    · rintro h l s (hrun : NewsRun node h) ih hstep i record a ⟨o, r, htook, hfixes⟩
      rcases htook.of_push with ⟨rfl, rfl⟩ | hbefore
      · obtain ⟨_, now, hop⟩ := hrun.op hstep
        exact hop.fixes_stands hfixes
      · have hstands := ih i record a ⟨o, r, hbefore, hfixes⟩
        cases hstep with
        | start => exact hstands
        | op i' o' next r' t htask hop =>
          obtain ⟨hmay, _⟩ := hrun.op (.op _ i' o' next r' t htask hop)
          obtain ⟨now, hop⟩ := hop
          refine hop.stands hstands fun hdrops => ?_
          cases o' with
          | remove ids => exact hmay
          | _ => exact hdrops
  exact hall i record a hlearned

/-- What was learned later is no older. -/
lemma Learned.key_le {i' : ℕ} (hrun : NewsRun node h) (hlearned : Learned node i record a h)
    (hlearned' : Learned node i' record' b h) (hid : record'.id = record.id)
    (hle : b.past.length ≤ a.past.length) : record'.key ≤ record.key := by
  obtain ⟨o, r, htook, hfixes⟩ := hlearned
  obtain ⟨o', r', htook', hfixes'⟩ := hlearned'
  rcases htook.total htook' with ⟨rfl, hlabel⟩ | hlater | hfirst
  · injection hlabel with _ ho hr
    subst ho
    obtain rfl := eq_of_heq hr
    cases o with
    | merge rumor me =>
      rw [hfixes.2.1, hfixes'.2.1]
    | current =>
      have hrecord : record = node.aliveRumor r := hfixes
      have hrecord' : record' = node.aliveRumor r := hfixes'
      rw [hrecord, hrecord']
    | _ => exact hfixes.elim
  · have hlt := hlater.length_lt
    omega
  · have hrun_a : NewsRun node a := hrun.of_extends htook.before
    have hstands := Learned.stands hrun_a ⟨o', r', hfirst, hfixes'⟩
    obtain ⟨s, hstep, _⟩ := htook
    obtain ⟨_, now, hop⟩ := hrun_a.op hstep
    exact (hop.fixes_newest hfixes hstands hid).1

/-- Every rumor in the queue was learned and queued by some task, and has sends left. -/
lemma NewsRun.queued (hrun : NewsRun node h) {pending : Pending}
    (hpending : pending ∈ h.now.state.shared.queue) :
    0 < pending.sendsLeft ∧ ∃ i a b, Queued node i pending.rumor a b h := by
  have hall : ∀ pending ∈ h.now.state.shared.queue,
      0 < pending.sendsLeft ∧ ∃ i a b, Queued node i pending.rumor a b h := by
    refine History.IsRun.induction (P := fun h => ∀ pending ∈ h.now.state.shared.queue,
      0 < pending.sendsLeft ∧ ∃ i a b, Queued node i pending.rumor a b h) hrun ?_ ?_
    · rintro pool ⟨hqueue, _⟩ pending hpending
      have hpending : pending ∈ pool.state.shared.queue := hpending
      rw [hqueue] at hpending
      exact absurd hpending List.not_mem_nil
    · intro h l s (hrun : NewsRun node h) ih hstep pending hpending
      have hold : ∀ pending ∈ h.now.state.shared.queue, 0 < pending.sendsLeft ∧
          ∃ i a b, Queued node i pending.rumor a b (h.push l s) := by
        intro pending hpending
        obtain ⟨hpos, i, a, b, hqueued⟩ := ih pending hpending
        exact ⟨hpos, i, a, b, hqueued.later (.single hstep)⟩
      cases hstep with
      | start => exact hold pending hpending
      | op i o next r t htask hop =>
        have hstep : NewsStep node h.now (.op i o r) _ := .op h.now i o next r t htask hop
        obtain ⟨hmay, _⟩ := hrun.op hstep
        obtain ⟨now, hop⟩ := hop
        have hpending : pending ∈ t.shared.queue := hpending
        rw [hop.queue] at hpending
        cases o with
        | push record size =>
          rcases List.mem_append.mp hpending with hkept | hnew
          · exact hold pending (List.mem_filter.mp hkept).1
          · obtain rfl := List.mem_singleton.mp hnew
            obtain ⟨a, hlearned⟩ := hmay
            exact ⟨GossipQueue.retransmitLimit_pos size, i, a, h, hlearned, size, .of_step hstep⟩
        | take =>
          obtain ⟨pending', hpending', hsame⟩ := GossipQueue.exists_mem_of_mem_take_snd hpending
          rw [← hsame]
          exact ⟨GossipQueue.sendsLeft_pos_of_mem_take hpending, (hold pending' hpending').2⟩
        | _ => exact hold pending hpending
  exact hall pending hpending

/-- In a run that queues its news in order, nothing newer is ever dropped for something older: a
rumor stays queued until it was handed out its full number of times or gave way to one that is
no older. -/
theorem newest_stays_queued (node : LocalNode) (h : NewsTrace) (hrun : NewsRun node h)
    (horder : QueuedInOrder node h) :
    ∀ (h₁ : NewsTrace) l s, NewsStep node h₁.now l s →
      History.Extends (NewsStep node) (h₁.push l s) h → ∀ pending ∈ h₁.now.state.shared.queue,
        (∀ i record size, l = .op i (.push record size) () → pending.rumor.id = record.id →
          pending.rumor.key ≤ record.key) ∧
        ((∃ pending' ∈ s.state.shared.queue, pending'.rumor = pending.rumor) ∨
          (∃ i sent, l = .op i .take sent ∧ pending.rumor ∈ sent ∧ pending.sendsLeft = 1) ∨
          ∃ i record size, l = .op i (.push record size) () ∧ pending.rumor.id = record.id ∧
            pending.rumor.key ≤ record.key) := by
  intro h₁ l s hstep hext pending hpending
  have hrun₁ : NewsRun node h₁ := hrun.of_extends ((History.Extends.single hstep).trans hext)
  obtain ⟨hpos, i', a', b', hqueued'⟩ := hrun₁.queued hpending
  have hext₁ : History.Extends (NewsStep node) h₁ h := (History.Extends.single hstep).trans hext
  -- whoever queued the rumor that is dropped learned it first
  have hnewer : ∀ i record size, l = .op i (.push record size) () →
      pending.rumor.id = record.id → pending.rumor.key ≤ record.key := by
    intro i record size hl hid
    rw [hl] at hstep hext
    obtain ⟨⟨a, hlearned⟩, _⟩ := hrun₁.op hstep
    have hqueued : Queued node i record a h₁ h := ⟨hlearned, size, s, hstep, hext⟩
    obtain ⟨size', hpushed'⟩ := hqueued'.pushed
    have hle := horder i i' record pending.rumor a a' h₁ b' hqueued (hqueued'.later hext₁) hid
      hpushed'.length_lt
    exact Learned.key_le hrun₁ hlearned (hqueued'.learned.later hpushed'.before) hid hle
  refine ⟨hnewer, ?_⟩
  cases hstep with
  | start => exact .inl ⟨pending, hpending, rfl⟩
  | op i o next r t htask hop =>
    obtain ⟨now, hop⟩ := hop
    have hqueue : t.shared.queue = o.queueAfter h₁.now.state.shared.queue := hop.queue
    show (∃ pending' ∈ t.shared.queue, pending'.rumor = pending.rumor) ∨ _
    rw [hqueue]
    cases o with
    | push record size =>
      by_cases hid : pending.rumor.id = record.id
      · exact .inr (.inr ⟨i, record, size, rfl, hid, hnewer i record size rfl hid⟩)
      · refine .inl ⟨pending, List.mem_append_left _ (List.mem_filter.mpr ⟨hpending, ?_⟩), rfl⟩
        simpa using hid
    | take =>
      have hsent : r = h₁.now.state.shared.queue.take.1 := hop.1
      rcases GossipQueue.mem_take_or hpending hpos with hkept | ⟨hout, hlast⟩
      · exact .inl hkept
      · exact .inr (.inl ⟨i, r, rfl, hsent ▸ hout, hlast⟩)
    | _ => exact .inl ⟨pending, hpending, rfl⟩

/-! ### Two tasks -/

/-- What was queued until a step was queued by that step, or before. -/
lemma Queued.of_push {l : Pool.Label Op Op.Res Unit} {s : NewsPool}
    (hqueued : Queued node i record a b (h.push l s)) :
    (b = h ∧ ∃ size, l = .op i (.push record size) ()) ∨ Queued node i record a b h := by
  obtain ⟨size, hpushed⟩ := hqueued.pushed
  rcases hpushed.of_push with ⟨hsame, hlabel⟩ | hpushed
  · exact .inl ⟨hsame, size, hlabel.symm⟩
  · exact .inr ⟨hqueued.learned, size, hpushed⟩

/-- The order stays if what is queued now was learned after all that was queued before. -/
lemma QueuedInOrder.push {l : Pool.Label Op Op.Res Unit} {s : NewsPool}
    (horder : QueuedInOrder node h)
    (hlast : ∀ i record size, l = .op i (.push record size) () → ∀ i' record' a a' b',
      Learned node i record a h → Queued node i' record' a' b' h →
        a'.past.length ≤ a.past.length) :
    QueuedInOrder node (h.push l s) := by
  intro i i' record record' a a' b b' hqueued hqueued' hid hlt
  have hbefore : b.past.length ≤ h.past.length → Queued node i' record' a' b' h := by
    intro hle
    rcases hqueued'.of_push with ⟨rfl, _⟩ | hqueued'
    · exact absurd (hlt.trans_le hle) (lt_irrefl _)
    · exact hqueued'
  rcases hqueued.of_push with ⟨rfl, size, hl⟩ | hearlier
  · exact hlast i record size hl i' record' a a' b' hqueued.learned (hbefore (le_refl _))
  · obtain ⟨_, hpushed⟩ := hearlier.pushed
    exact horder i i' record record' a a' b b' hearlier (hbefore hpushed.length_lt.le) hid hlt

/-- Two tasks, numbered 0 and 1. -/
def pairTasks (p p' : Option (Prog Unit)) (i : ℕ) : Option (Prog Unit) :=
  if i = 0 then p else if i = 1 then p' else none

lemma update_pairTasks_left (p p' p₁ : Option (Prog Unit)) :
    Function.update (pairTasks p p') 0 p₁ = pairTasks p₁ p' := by
  funext i
  by_cases hi : i = 0 <;> simp [pairTasks, hi]

lemma update_pairTasks_right (p p' p₁ : Option (Prog Unit)) :
    Function.update (pairTasks p p') 1 p₁ = pairTasks p p₁ := by
  funext i
  by_cases hi : i = 1 <;> simp [pairTasks, hi]

lemma newsStep_left {next : o.Res → Prog Unit} {p' : Option (Prog Unit)}
    (hop : Op.Run node now o w r w') :
    NewsStep node ⟨w, pairTasks (some (.step o next)) p'⟩ (.op 0 o r)
      ⟨w', pairTasks (some (next r)) p'⟩ := by
  have hstep : NewsStep node ⟨w, pairTasks (some (.step o next)) p'⟩ (.op 0 o r) _ :=
    .op _ 0 o next r w' rfl ⟨now, hop⟩
  rw [update_pairTasks_left] at hstep
  exact hstep

lemma newsStep_right {next : o.Res → Prog Unit} {p : Option (Prog Unit)}
    (hop : Op.Run node now o w r w') :
    NewsStep node ⟨w, pairTasks p (some (.step o next))⟩ (.op 1 o r)
      ⟨w', pairTasks p (some (next r))⟩ := by
  have hstep : NewsStep node ⟨w, pairTasks p (some (.step o next))⟩ (.op 1 o r) _ :=
    .op _ 1 o next r w' rfl ⟨now, hop⟩
  rw [update_pairTasks_right] at hstep
  exact hstep

lemma NewsRun.push {l : Pool.Label Op Op.Res Unit} {s : NewsPool} (hrun : NewsRun node h)
    (hstep : NewsStep node h.now l s) : NewsRun node (h.push l s) :=
  hrun.extends (.single hstep)

/-- The task that applies a rumor. -/
def applying (node : LocalNode) (rumor : WireMember) : Prog Unit := do
  let _ ← apply node rumor
  pure ()

/-- What the first task settled on, it settled on before the second settled on anything. -/
def LearnsFirst (node : LocalNode) (h : NewsTrace) : Prop :=
  ∀ record record' a a', Learned node 0 record a h → Learned node 1 record' a' h →
    a.past.length ≤ a'.past.length

/-- It stays so while the first task settles on nothing more. -/
lemma LearnsFirst.push {l : Pool.Label Op Op.Res Unit} {s : NewsPool} (hfirst : LearnsFirst node h)
    (hl : ∀ (o : Op) (r : o.Res) record, l = .op 0 o r → ¬ o.Fixes node r record) :
    LearnsFirst node (h.push l s) := by
  intro record record' a a' hlearned hlearned'
  rcases hlearned.of_push with ⟨_, o, r, heq, hfixes⟩ | hlearned
  · exact absurd hfixes (hl o r record heq)
  · rcases hlearned'.of_push with ⟨rfl, _⟩ | hlearned'
    · exact hlearned.length_lt.le
    · exact hfirst record record' a a' hlearned hlearned'

/-- A run in which nothing was queued and the first of two tasks learned first comes to this state,
with this left of the two. -/
def Comes (node : LocalNode) (w : World) (p p' : Option (Prog Unit)) : Prop :=
  ∃ h, NewsRun node h ∧ h.now = ⟨w, pairTasks p p'⟩ ∧
    (∀ m ∈ h.past, ∀ i record size, m.label ≠ .op i (.push record size) ()) ∧ LearnsFirst node h

lemma Comes.push {w : World} {p p' p₁ p₁' : Option (Prog Unit)}
    {l : Pool.Label Op Op.Res Unit} (hcomes : Comes node w p p')
    (hstep : NewsStep node ⟨w, pairTasks p p'⟩ l ⟨w', pairTasks p₁ p₁'⟩)
    (hl : ∀ i record size, l ≠ .op i (.push record size) ())
    (hother : ∀ (o : Op) (r : o.Res) record, l = .op 0 o r → ¬ o.Fixes node r record) :
    Comes node w' p₁ p₁' := by
  obtain ⟨h, hrun, hnow, hnone, hfirst⟩ := hcomes
  refine ⟨_, hrun.push (hnow ▸ hstep), rfl, fun m hm => ?_, hfirst.push hother⟩
  rcases List.mem_cons.mp hm with rfl | hm
  · exact hl
  · exact hnone m hm

/-- Two tasks apply two rumors, and the first has merged its own. -/
lemma comes_merged {rumor : WireMember} (rumor' : WireMember) {outcome : MergeOutcome}
    {next : MergeOutcome → Prog Unit}
    (happly : applying node rumor = .step (.merge rumor node.id) next)
    (hop : Op.Run node now (.merge rumor node.id) ⟨.new, []⟩ outcome w) :
    Comes node w (some (next outcome)) (some (applying node rumor')) := by
  have hleft : NewsStep node ⟨⟨.new, []⟩, pairTasks none none⟩ (.start 0 (applying node rumor)) _ :=
    .start _ 0 _ rfl (NewsTask.apply rumor)
  have hright : NewsStep node ⟨⟨.new, []⟩, pairTasks (some (applying node rumor)) none⟩
      (.start 1 (applying node rumor')) _ :=
    .start _ 1 _ rfl (NewsTask.apply rumor')
  rw [update_pairTasks_left] at hleft
  rw [update_pairTasks_right, happly] at hright
  have hmerges : NewsStep node
      ⟨⟨.new, []⟩, pairTasks (some (.step (.merge rumor node.id) next)) (some (applying node rumor'))⟩
      (.op 0 (.merge rumor node.id) outcome)
      ⟨w, pairTasks (some (next outcome)) (some (applying node rumor'))⟩ := newsStep_left hop
  have hrun : NewsRun node (.init ⟨⟨.new, []⟩, pairTasks none none⟩) :=
    ⟨_, ⟨rfl, fun i => by simp [pairTasks]⟩, .refl _⟩
  rw [happly] at hleft
  refine ⟨_, ((hrun.push hleft).push hright).push hmerges, rfl, ?_, ?_⟩
  · simp [History.init, History.push]
  · intro record record' a a' _ hlearned'
    obtain ⟨o, r, htook, _⟩ := hlearned'
    exact absurd htook.mem_past (by simp [History.init, History.push])

/-- The state once a peer was heard of at 0 and at 1. -/
def heardTwice : World :=
  ⟨{ Shared.new with
    table := MemberTable.new.mergeAll listener.id
      [(sampleRumor .alive 0, 0), (sampleRumor .alive 1, 0)] }, []⟩

/-- The state once the news at 1 is queued too. -/
def queuedNewest : World :=
  ⟨{ heardTwice.shared with
    queue := heardTwice.shared.queue.push (sampleRumor .alive 1) 2 }, []⟩

/-- Two tasks merged a peer's news in order, and both are still to queue it: the first counts the
table yet, the second has. -/
lemma exists_heardTwice : ∃ next next',
    Comes listener heardTwice (some (.step .len next))
      (some (.step (.push (sampleRumor .alive 1) 2) next')) ∧
    ∀ len, ∃ next₁, next len = .step (.push (sampleRumor .alive 0) (len + 1)) next₁ := by
  let heard : World := ⟨{ Shared.new with
    table := (MemberTable.new.merge 0 (sampleRumor .alive 0) listener.id).2 }, []⟩
  have hmerge : Op.Run listener 0 (.merge (sampleRumor .alive 0) listener.id) ⟨.new, []⟩ .added
      heard := ⟨by decide, rfl⟩
  have hmerge' : Op.Run listener 0 (.merge (sampleRumor .alive 1) listener.id) heard .updated
      heardTwice := ⟨by decide, rfl⟩
  have hlen : Op.Run listener 0 .len heardTwice 1 heardTwice := ⟨by decide, rfl⟩
  have hmerged := comes_merged (sampleRumor .alive 1) rfl hmerge
  have hmerged' := hmerged.push (newsStep_right hmerge') (by simp) (by simp)
  have hcounted' := hmerged'.push (newsStep_right hlen) (by simp) (by simp)
  exact ⟨_, _, hcounted', fun len => ⟨_, rfl⟩⟩

/-- Two tasks queue a peer's news in the order they learned it in, and what is queued second takes
the place of what was queued first. -/
theorem newest_stays_queued_sample :
    ∃ (h : NewsTrace) (l : Pool.Label Op Op.Res Unit) (s : NewsPool) (pending : Pending),
      l = .op 1 (.push (sampleRumor .alive 1) 2) () ∧ NewsRun listener (h.push l s) ∧
      QueuedInOrder listener (h.push l s) ∧
      pending ∈ h.now.state.shared.queue ∧ pending.rumor = sampleRumor .alive 0 ∧
      pending.rumor.key ≤ (sampleRumor .alive 1).key ∧
      s.state.shared.queue.map Pending.rumor = [sampleRumor .alive 1] := by
  obtain ⟨next, next', ⟨h, hrun, hnow, hnone, hfirst⟩, hnext⟩ := exists_heardTwice
  obtain ⟨next₁, hnext⟩ := hnext 1
  let queued : World := ⟨{ heardTwice.shared with
    queue := heardTwice.shared.queue.push (sampleRumor .alive 0) 2 }, []⟩
  let replaced : World := ⟨{ queued.shared with
    queue := queued.shared.queue.push (sampleRumor .alive 1) 2 }, []⟩
  let counted : NewsPool := ⟨heardTwice, pairTasks (some (.step (.push (sampleRumor .alive 0) 2) next₁))
    (some (.step (.push (sampleRumor .alive 1) 2) next'))⟩
  let first : NewsPool := ⟨queued, pairTasks (some (next₁ ()))
    (some (.step (.push (sampleRumor .alive 1) 2) next'))⟩
  let second : NewsPool := ⟨replaced, pairTasks (some (next₁ ())) (some (next' ()))⟩
  have hlen : Op.Run listener 0 .len heardTwice 1 heardTwice := ⟨by decide, rfl⟩
  have hpush : Op.Run listener 0 (.push (sampleRumor .alive 0) 2) heardTwice () queued := rfl
  have hpush' : Op.Run listener 0 (.push (sampleRumor .alive 1) 2) queued () replaced := rfl
  have hcounts : NewsStep listener h.now (.op 0 .len 1) _ := hnow ▸ newsStep_left hlen
  rw [hnext] at hcounts
  have hqueues : NewsStep listener counted _ first := newsStep_left hpush
  have hreplaces : NewsStep listener first _ second := newsStep_right hpush'
  have hrun₂ := (hrun.push hcounts).push hqueues
  set h₁ := h.push (.op 0 .len 1) counted with hh₁
  set h₂ := h₁.push (.op 0 (.push (sampleRumor .alive 0) 2) ()) first with hh₂
  have hnone₁ : ∀ {i record a b}, ¬ Queued listener i record a b h₁ := by
    intro i record a b hqueued
    rcases hqueued.of_push with ⟨_, _, hl⟩ | hqueued
    · exact absurd hl (by simp)
    · obtain ⟨size, hpushed⟩ := hqueued.pushed
      exact hnone _ hpushed.mem_past i record size rfl
  have hfirst₂ : LearnsFirst listener h₂ := (hfirst.push (by rintro o r _ ⟨⟩; exact id)).push
    (by rintro o r _ ⟨⟩; exact id)
  have horder₂ : QueuedInOrder listener h₂ := by
    refine QueuedInOrder.push (fun _ _ _ _ _ _ _ _ hqueued => absurd hqueued hnone₁) ?_
    exact fun _ _ _ _ _ _ _ _ _ _ hqueued' => absurd hqueued' hnone₁
  -- the first task is the only one that has queued anything, and it learned first
  have horder : QueuedInOrder listener
      (h₂.push (.op 1 (.push (sampleRumor .alive 1) 2) ()) second) := by
    refine horder₂.push fun i record size hl i' record' a a' b' hlearned hqueued' => ?_
    obtain ⟨rfl, _⟩ : 1 = i ∧ _ := by simpa using hl
    rcases hqueued'.of_push with ⟨rfl, size', hl'⟩ | hqueued'
    · obtain ⟨rfl, _⟩ : 0 = i' ∧ _ := by simpa using hl'
      exact hfirst₂ record' record a' a (hqueued'.learned.later (.single hqueues)) hlearned
    · exact absurd hqueued' hnone₁
  have hpending : ⟨sampleRumor .alive 0, retransmitLimit 2⟩ ∈ queued.shared.queue :=
    List.mem_append_right _ (List.mem_singleton.mpr rfl)
  have hstays := (newest_stays_queued listener _ (hrun₂.push hreplaces) horder _ _ _ hreplaces
    (.refl _) _ hpending).1 1 _ _ rfl rfl
  refine ⟨h₂, _, _, _, rfl, hrun₂.push hreplaces, horder, hpending, rfl, hstays, ?_⟩
  show replaced.shared.queue.map Pending.rumor = _
  decide

/-- A task that heard of a peer at 0 queues it only after another one has queued the peer's news
at 1, and drops that. -/
theorem older_news_overtakes :
    ∃ (h : NewsTrace) (i : ℕ) (record : WireMember) (size : ℕ) (s : NewsPool) (pending : Pending),
      NewsRun listener h ∧ NewsStep listener h.now (.op i (.push record size) ()) s ∧
        pending ∈ h.now.state.shared.queue ∧ pending.rumor.id = record.id ∧
        record.key < pending.rumor.key ∧
        ∀ pending' ∈ s.state.shared.queue, pending'.rumor ≠ pending.rumor := by
  obtain ⟨next, next', ⟨h, hrun, hnow, _, _⟩, hnext⟩ := exists_heardTwice
  obtain ⟨next₁, hnext⟩ := hnext 1
  let overtaken : World := ⟨{ queuedNewest.shared with
    queue := queuedNewest.shared.queue.push (sampleRumor .alive 0) 2 }, []⟩
  have hpush : Op.Run listener 0 (.push (sampleRumor .alive 1) 2) heardTwice () queuedNewest := rfl
  have hlen : Op.Run listener 0 .len queuedNewest 1 queuedNewest := ⟨by decide, rfl⟩
  have hpush' : Op.Run listener 0 (.push (sampleRumor .alive 0) 2) queuedNewest () overtaken := rfl
  have hstep : NewsStep listener h.now (.op 1 (.push (sampleRumor .alive 1) 2) ()) _ :=
    hnow ▸ newsStep_right hpush
  have hstep' : NewsStep listener ⟨queuedNewest, pairTasks (some (.step .len next)) (some (next' ()))⟩
      (.op 0 .len 1) _ := newsStep_left hlen
  rw [hnext] at hstep'
  refine ⟨_, 0, sampleRumor .alive 0, 2, _, ⟨sampleRumor .alive 1, retransmitLimit 2⟩,
    (hrun.push hstep).push hstep', newsStep_left hpush', ?_, rfl, by decide, ?_⟩
  · exact List.mem_append_right _ (List.mem_singleton.mpr rfl)
  · show ∀ pending' ∈ overtaken.shared.queue, pending'.rumor ≠ sampleRumor .alive 1
    decide

end Dalila
