import Mathlib.Algebra.BigOperators.Group.Finset.Basic
import Mathlib.Algebra.Order.BigOperators.Group.Finset
import Dalila.Conduct
import Dalila.Overtaking
import Dalila.Pair
import Dalila.Repertoire
import Dalila.Sends
import Dalila.Vouching

/-!
# Gossip dies down

A task queues a rumor once for each merge that took it, and an entry that is not reaped takes a
rumor once. `Run.queued_once` and `Run.count_gossips_le` count what follows for one node: each rumor
is queued at most once and sent `3 * max 1 (clog N)` times. `gossip_does_not_storm` sums it up over
a cluster of `N` nodes.
-/

namespace Dalila

open Program

/-! ## What a queue owes -/

namespace GossipQueue

/-- The sends the queue has left for the rumors `f` picks. -/
def owed (f : WireMember → Bool) (queue : GossipQueue) : ℕ :=
  (queue.map fun pending => if f pending.rumor then pending.sendsLeft else 0).sum

variable {f : WireMember → Bool} {queue : GossipQueue}

lemma owed_eq (queue : GossipQueue) :
    owed f queue = turns.owed (fun pending => f pending.rumor) queue := rfl

/-- A push adds one rumor's sends and may take away those of another. -/
lemma owed_push_le (rumor : WireMember) (size : ℕ) :
    owed f (queue.push rumor size) ≤
      owed f queue + if f rumor then retransmitLimit size else 0 := by
  unfold push
  rw [owed_eq, owed_eq, Turns.owed_append]
  have hkept := Turns.owed_filter_le (t := turns) (f := fun pending => f pending.rumor)
    (fun pending => pending.rumor.id ≠ rumor.id) queue
  have hnew : turns.owed (fun pending => f pending.rumor) [⟨rumor, retransmitLimit size⟩] =
      if f rumor then retransmitLimit size else 0 := by
    simp [Turns.owed, turns]
  omega

/-- Taking a batch with a rumor in it uses up a send. -/
theorem owed_take (hpos : ∀ pending ∈ queue, 0 < pending.sendsLeft) :
    owed f queue.take.2 + (if queue.take.1.any f then 1 else 0) ≤ owed f queue := by
  have hpaid := Turns.owed_rest (t := turns) (k := MAX_PIGGYBACK)
    (f := fun pending => f pending.rumor) (fun _ => rfl) hpos
  rw [owed_eq, owed_eq, ← hpaid, take_eq]
  show turns.owed _ (turns.rest MAX_PIGGYBACK queue) +
    (if ((turns.batch MAX_PIGGYBACK queue).map Pending.rumor).any f then 1 else 0) ≤ _
  split_ifs with hany
  · obtain ⟨rumor, hrumor, hf⟩ := List.any_eq_true.mp hany
    obtain ⟨pending, hpending, rfl⟩ := List.mem_map.mp hrumor
    have hcount : 0 < (turns.batch MAX_PIGGYBACK queue).countP fun pending => f pending.rumor :=
      List.countP_pos_iff.mpr ⟨pending, hpending, hf⟩
    omega
  · omega

end GossipQueue

/-! ## What is counted -/

/-- No more than `N` processes have been started. -/
def Cluster.AtMost (N : ℕ) (c : Cluster) : Prop :=
  ∃ ids : Finset NodeId, ids.card ≤ N ∧ ∀ q p, c.procs q = some p → q ∈ ids

lemma Cluster.atMost_pair (clock : Instant) (node node' : LocalNode) (shared shared' : Shared) :
    (Cluster.pair clock node node' shared shared').AtMost 2 := by
  refine ⟨{node.id, node'.id}, Finset.card_le_two, fun q p hp => ?_⟩
  rcases Cluster.eq_or_eq_of_pair hp with hq | hq
  · simp [hq]
  · simp [hq]

lemma Cluster.atMost_duo (p p' : Process) (net : List Packet) : (Cluster.duo p p' net).AtMost 2 := by
  refine ⟨{alpha.id, beta.id}, Finset.card_le_two, fun q p hp => ?_⟩
  rcases Cluster.eq_or_eq_of_duo hp with ⟨hq, _⟩ | ⟨hq, _⟩
  · simp [hq]
  · simp [hq]

/-- A rumor about `x` at exactly this incarnation and state. -/
def WireMember.isAt (x : NodeId) (i : Incarnation) (s : WireMemberState) (r : WireMember) : Bool :=
  r.id = x && r.incarnation = i && r.state = s

/-- `q` queues a rumor among `f`. -/
def Label.queues (q : NodeId) (f : WireMember → Bool) : Label → Bool
  | .op q' _ _ (.push rumor _) _ => q' = q && f rumor
  | _ => false

/-- `q` takes a batch with a rumor among `f` in it, for a packet that goes out. -/
def Label.gossips (q : NodeId) (f : WireMember → Bool) : Label → Bool
  | .op q' _ _ .take batch => q' = q && List.any batch f
  | _ => false

/-- Somebody other than `x` does. -/
def Label.gossipsAside (x : NodeId) (f : WireMember → Bool) : Label → Bool
  | .op q _ _ .take batch => q ≠ x && List.any batch f
  | _ => false

variable {h h' h₁ h₂ : Trace} {q x : NodeId} {p : Process} {slot : Slot} {kind : Kind}
  {rumor rumor' : WireMember} {size N : ℕ} {node : LocalNode}

lemma WireMember.isAt_iff {i : Incarnation} {s : WireMemberState} :
    rumor.isAt x i s = true ↔ rumor.id = x ∧ rumor.incarnation = i ∧ rumor.state = s := by
  simp [isAt, and_assoc]

/-! ## When a task queues a rumor -/

/-- The task in `slot` queues something. -/
def Label.queuesIn (q : NodeId) (slot : Slot) : Label → Prop
  | .op q' slot' _ (.push _ _) _ => q' = q ∧ slot' = slot
  | _ => False

/-- After `h₁` the task took `rumor` in, and it has queued nothing since. -/
def TookIn (q : NodeId) (slot : Slot) (kind : Kind) (rumor : WireMember) (h₁ h : Trace) : Prop :=
  ∃ me outcome c, Run h₁ ∧ Step h₁.now (.op q slot kind (.merge rumor me) outcome) c ∧
    (outcome = .added ∨ outcome = .updated) ∧
    LaterBy (fun l => ¬ l.queuesIn q slot)
      (h₁.push (.op q slot kind (.merge rumor me) outcome) c) h

/-- The size of the cluster as `q` has known it. -/
def Counted (q : NodeId) (size : ℕ) (h : Trace) : Prop :=
  ∃ h₁ p, Later h₁ h ∧ h₁.now.procs q = some p ∧ size = p.shared.table.len + 1

/-- When a task may queue a rumor: when it is about the node itself, or was taken in. -/
def mayQueue (q : NodeId) (slot : Slot) (kind : Kind) : Op → Trace → Prop
  | .push rumor size, h =>
    (rumor.id = q ∨ ∃ h₁, TookIn q slot kind rumor h₁ h) ∧ Counted q size h
  | _, _ => True

section

variable {may : Op → Trace → Prop}

lemma Counted.later (hcounted : Counted q size h) (hlater : Later h h') : Counted q size h' := by
  obtain ⟨h₁, p, hbefore, hp, hsize⟩ := hcounted
  exact ⟨h₁, p, hbefore.trans hlater, hp, hsize⟩

/-- Who counts the table has counted it. -/
lemma Counted.of_does {len : ℕ} (hdoes : (deeds q slot kind may).does .len len h h') :
    Counted q (len + 1) h' := by
  have hlater := Later.of_does hdoes
  obtain ⟨_, c, hstep, rfl⟩ := hdoes
  obtain ⟨p, next, shared, net, hp, _, _, hop, _⟩ := hstep.of_op
  exact ⟨h, p, hlater, hp, by rw [show len = p.shared.table.len from hop.1]⟩

/-- A merge that took the rumor took it in. -/
lemma TookIn.of_does {me : NodeId} {outcome : MergeOutcome}
    (hdoes : (deeds q slot kind may).does (.merge rumor me) outcome h h')
    (hout : outcome = .added ∨ outcome = .updated) : TookIn q slot kind rumor h h' := by
  obtain ⟨hrun, c, hstep, rfl⟩ := hdoes
  exact ⟨me, outcome, c, hrun, hstep, hout, .refl _⟩

/-- What others do does not undo that the task took the rumor in. -/
lemma TookIn.others (htook : TookIn q slot kind rumor h₁ h)
    (hothers : (deeds q slot kind may).others h h') : TookIn q slot kind rumor h₁ h' := by
  obtain ⟨me, outcome, c, hrun, hstep, hout, hquiet⟩ := htook
  refine ⟨me, outcome, c, hrun, hstep, hout, hquiet.trans ?_⟩
  refine History.Extends.mono
    (fun s l t hothers => ⟨hothers.1, fun hqueues => hothers.2 ?_⟩) hothers
  cases l with
  | op q' slot' kind' o r =>
    cases o with
    | push => exact hqueues
    | _ => exact hqueues.elim
  | _ => exact hqueues.elim

lemma TookIn.does {o : Op} {r : o.Res} (htook : TookIn q slot kind rumor h₁ h)
    (hdoes : (deeds q slot kind may).does o r h h') (ho : o.tells = false) :
    TookIn q slot kind rumor h₁ h' := by
  obtain ⟨me, outcome, c, hrun, hstep, hout, hquiet⟩ := htook
  obtain ⟨_, c', hstep', rfl⟩ := hdoes
  refine ⟨me, outcome, c, hrun, hstep, hout, hquiet.push ⟨hstep', fun hqueues => ?_⟩⟩
  cases o with
  | push => exact absurd ho (by simp [Op.tells])
  | _ => exact hqueues.elim

end

lemma mayQueue_of_quiet {o : Op} (ho : o.tells = false) (h : Trace) : mayQueue q slot kind o h := by
  cases o with
  | push => exact absurd ho (by simp [Op.tells])
  | _ => trivial

/-- Queue what may be queued, and be done. -/
lemma keeps_queue {α : Type} {a : α}
    (hmay : ∀ t, (deeds q slot kind (mayQueue q slot kind)).others h t →
      mayQueue q slot kind (.push rumor size) t) :
    Keeps (deeds q slot kind (mayQueue q slot kind)) (fun _ _ => True)
      (do
        Op.call (.push rumor size)
        pure a : Prog α) h :=
  .call_bind hmay fun _ _ _ _ _ => .pure fun _ _ => trivial

/-- `apply` queues what it has merged, and once. -/
lemma keeps_apply_queue (hid : node.id = q) (rumor : WireMember) (h : Trace) :
    Keeps (deeds q slot kind (mayQueue q slot kind)) (fun _ _ => True) (apply node rumor) h := by
  refine .call_bind (fun _ _ => trivial) fun outcome _ t₁ _ hmerge => ?_
  refine .call_bind (fun _ _ => trivial) fun len _ t₂ ht₂ hlen => ?_
  have hcounted : Counted q (len + 1) t₂ := .of_does hlen
  have hchanged : outcome = .added ∨ outcome = .updated →
      Keeps (deeds q slot kind (mayQueue q slot kind)) (fun _ _ => True)
        (do
          Op.call (.push rumor (len + 1))
          pure outcome : Prog MergeOutcome) t₂ := by
    intro hout
    have htook := ((TookIn.of_does hmerge hout).others ht₂).does hlen rfl
    exact keeps_queue fun t ht => ⟨.inr ⟨_, htook.others ht⟩, hcounted.later (Later.of_others ht)⟩
  cases outcome with
  | ignored => exact .pure fun _ _ => trivial
  | added => exact hchanged (.inl rfl)
  | updated => exact hchanged (.inr rfl)
  | refute rumored =>
    refine .call_bind (fun _ _ => trivial) fun _ _ t₃ ht₃ hread => ?_
    refine .call_bind (fun _ _ => trivial) fun answer _ t₄ ht₄ hrefute => ?_
    cases answer with
    | none => exact .pure fun _ _ => trivial
    | some incarnation =>
      refine .call_bind (fun _ _ => trivial) fun current _ t₅ ht₅ hcurrent => ?_
      have hlater : Later t₂ t₅ := ((Later.of_both ht₃ hread).trans
        (Later.of_both ht₄ hrefute)).trans (Later.of_both ht₅ hcurrent)
      exact keeps_queue fun t ht => ⟨.inl hid, (hcounted.later hlater).later (Later.of_others ht)⟩

/-- A health turn queues the node's own record. -/
lemma keeps_healthTurn_queue (hid : node.id = q) (ready : Bool) (h : Trace) :
    Keeps (deeds q slot kind (mayQueue q slot kind)) (fun _ _ => True)
      (healthTurn node ready) h := by
  refine .call_bind (fun _ _ => trivial) fun changed _ t₁ _ _ => ?_
  cases changed with
  | false => exact .pure fun _ _ => trivial
  | true =>
    refine .call_bind (fun _ _ => trivial) fun current _ t₂ _ _ => ?_
    refine .call_bind (fun _ _ => trivial) fun len _ t₃ _ hlen => ?_
    have hcounted : Counted q (len + 1) t₃ := .of_does hlen
    intro t ht
    exact ⟨⟨.inl hid, hcounted.later (Later.of_others ht)⟩, fun _ _ _ _ _ => trivial⟩

/-- No task queues anything else. -/
theorem habit_queue (hid : node.id = q) : Habit node fun _ prog => ∀ h,
    Keeps (deeds q slot kind (mayQueue q slot kind)) (fun _ _ => True) prog h where
  pure _ _ := .pure fun _ _ => trivial
  call_bind _ _ ho hf _ := .call_bind (fun t _ => mayQueue_of_quiet ho t) fun r _ u _ _ => hf r u
  bind hp hf h := (hp h).bind fun a t _ => hf a t
  apply rumor h := keeps_apply_queue hid rumor h
  health ready h := keeps_healthTurn_queue hid ready h

/-- A push is preceded by the merge and the count it rests on. -/
lemma Run.mayQueue (hrun : Run h) {c : Cluster}
    (hstep : Step h.now (.op q slot kind (.push rumor size) ()) c) :
    (rumor.id = q ∨ ∃ h₁, TookIn q slot kind rumor h₁ h) ∧ Counted q size h := by
  obtain ⟨p, next, shared, net, hp, halive, htask, _⟩ := hstep.of_op
  obtain ⟨_, _, hkeeps⟩ := Run.deeds (Q := fun _ _ _ _ _ _ => True)
    (fun h₀ q node slot kind hid => (habit_queue hid).start kind h₀) hrun hp halive htask
  exact hkeeps.step.1

/-! ## A rumor is queued once -/

lemma TookIn.happened (htook : TookIn q slot kind rumor h₁ h) :
    ∃ me outcome, Happened (.op q slot kind (.merge rumor me) outcome) h₁ h ∧
      (outcome = .added ∨ outcome = .updated) := by
  obtain ⟨me, outcome, c, hrun, hstep, hout, hquiet⟩ := htook
  exact ⟨me, outcome, ⟨hrun, c, hstep, hquiet.later⟩, hout⟩

/-- What an entry that is not reaped takes in is newer than what it took in before. -/
lemma Happened.key_lt {slot' : Slot} {kind' : Kind} {me me' : NodeId}
    {outcome outcome' : MergeOutcome} {c : Cluster}
    (hfirst : Happened (.op q slot kind (.merge rumor me) outcome) h₁ h)
    (hout : outcome = .added ∨ outcome = .updated)
    (hstep : Step h.now (.op q slot' kind' (.merge rumor' me') outcome') c)
    (hout' : outcome' = .added ∨ outcome' = .updated) (hid : rumor'.id = rumor.id)
    (hkept : ∀ m ∈ h.past, ¬ m.label.reaps q rumor.id) : rumor.key < rumor'.key := by
  obtain ⟨hrun, c₁, hstep₁, hafter⟩ := hfirst
  have hunreaped : LaterBy (fun l => ¬ l.reaps q rumor.id)
      (h₁.push (.op q slot kind (.merge rumor me) outcome) c₁) h :=
    History.Extends.of_past hafter hkept
  -- what the first merge left
  obtain ⟨p₁, next₁, shared₁, net₁, hp₁, _, _, hop₁, rfl⟩ := hstep₁.of_op
  have hmerge₁ := MemberTable.merge_changed hop₁.1 hout
  obtain ⟨_, _, entry, hget, hkey⟩ := hmerge₁
  have hshared : shared₁.table = (p₁.shared.table.merge h₁.now.clock rumor me).2 := hop₁.table
  rw [← hshared] at hget
  set c₁ : Cluster := { h₁.now.setProc q ({ p₁ with shared := shared₁ }.set slot
    (some ⟨kind, next₁ outcome⟩)) with net := net₁ }
  have hp₁' : c₁.procs q = some ({ p₁ with shared := shared₁ }.set slot
      (some ⟨kind, next₁ outcome⟩)) := if_pos rfl
  obtain ⟨p, entry', hp, hget', hle⟩ := hunreaped.exists_entry hp₁' hget
  -- what the second one found
  obtain ⟨p₂, next₂, shared₂, net₂, hp₂, _, _, hop₂, _⟩ := hstep.of_op
  obtain rfl : p = p₂ := Option.some.inj (hp.symm.trans hp₂)
  have hmerge₂ := MemberTable.merge_changed hop₂.1 hout'
  have hlt : entry'.key < rumor'.key := hmerge₂.2.1 entry' (by rw [hid]; exact hget')
  calc rumor.key = entry.key := hkey.symm
    _ ≤ entry'.key := hle
    _ < rumor'.key := hlt

/-- A node queues no two rumors of one key about another node whose entry is not reaped. -/
theorem Run.queued_once (hrun : Run h) {slot' : Slot} {kind' : Kind} {size' : ℕ} {c : Cluster}
    (hfirst : Happened (.op q slot kind (.push rumor size) ()) h₁ h)
    (hstep : Step h.now (.op q slot' kind' (.push rumor' size') ()) c)
    (hid : rumor'.id = rumor.id) (hother : rumor.id ≠ q) (hkey : rumor'.key = rumor.key)
    (hkept : ∀ m ∈ h.past, ¬ m.label.reaps q rumor.id) : False := by
  obtain ⟨hrun₁, c₁, hstep₁, hafter⟩ := hfirst
  obtain ⟨m₁, htook₁⟩ := (hrun₁.mayQueue hstep₁).1.resolve_left hother
  obtain ⟨m₂, htook₂⟩ := (hrun.mayQueue hstep).1.resolve_left (by rw [hid]; exact hother)
  obtain ⟨me₁, outcome₁, hmerged₁, hout₁⟩ := htook₁.happened
  obtain ⟨me₂, outcome₂, hmerged₂, hout₂⟩ := htook₂.happened
  have hbefore : Later h₁ h := (History.Extends.single hstep₁).trans hafter
  rcases (hmerged₁.later hbefore).total hmerged₂ with ⟨hsame, hlabel⟩ | hlt | hlt
  · -- one merge: then the first push came after it
    obtain ⟨me, outcome, c₂, _, _, _, hquiet⟩ := htook₂
    have hslot : slot = slot' := by
      injection hlabel
    have hlen : (m₂.push (.op q slot' kind' (.merge rumor' me) outcome) c₂).past.length ≤
        h₁.past.length := by
      obtain ⟨_, _, _, hafter₁⟩ := hmerged₁
      have hle := hafter₁.length_le
      rw [History.past_push, List.length_cons] at hle ⊢
      rw [← hsame]
      exact hle
    have htook : History.Took Step (.op q slot kind (.push rumor size) ()) h₁ h :=
      ⟨c₁, hstep₁, hafter⟩
    exact htook.allowed hquiet hlen ⟨rfl, hslot⟩
  · obtain ⟨_, c₂, hstep₂, hafter₂⟩ := hmerged₂
    have hbefore₂ : Later m₂ h := (History.Extends.single hstep₂).trans hafter₂
    have hlt' := hlt.key_lt hout₁ hstep₂ hout₂ hid fun m hm => hkept m (hbefore₂.mem_past hm)
    rw [hkey] at hlt'
    exact absurd hlt' (lt_irrefl _)
  · obtain ⟨_, c₂, hstep₂, hafter₂⟩ := hmerged₁
    have hbefore₂ : Later m₁ h := ((History.Extends.single hstep₂).trans hafter₂).trans hbefore
    have hlt' := hlt.key_lt hout₂ hstep₂ hout₁ hid.symm fun m hm => by
      rw [hid]
      exact hkept m (hbefore₂.mem_past hm)
    rw [hkey] at hlt'
    exact absurd hlt' (lt_irrefl _)

lemma Label.queues_eq {f : WireMember → Bool} {l : Label} (hl : l.queues q f = true) :
    ∃ slot kind rumor size, l = .op q slot kind (.push rumor size) () ∧ f rumor = true := by
  cases l with
  | op q' slot kind o r =>
    cases o with
    | push rumor size =>
      simp only [queues, Bool.and_eq_true, decide_eq_true_eq] at hl
      obtain ⟨rfl, hf⟩ := hl
      exact ⟨slot, kind, rumor, size, rfl, hf⟩
    | _ => exact absurd hl (by simp [queues])
  | _ => exact absurd hl (by simp [queues])

lemma WireMember.key_eq_of_isAt {i : Incarnation} {s : WireMemberState}
    (hr : rumor.isAt x i s = true) (hr' : rumor'.isAt x i s = true) : rumor'.key = rumor.key := by
  obtain ⟨_, hinc, hstate⟩ := isAt_iff.mp hr
  obtain ⟨_, hinc', hstate'⟩ := isAt_iff.mp hr'
  simp [key, hinc, hinc', hstate, hstate']

variable {i : Incarnation} {s : WireMemberState}

/-- Whoever another process is, and however often it is told so, it queues a rumor once. -/
theorem Run.count_queues_le (hrun : Run h) (hqx : q ≠ x)
    (hkept : ∀ m ∈ h.past, ¬ m.label.reaps q x) :
    h.count (Label.queues q (WireMember.isAt x i s)) ≤ 1 := by
  refine History.IsRun.induction (P := fun h => (∀ m ∈ h.past, ¬ m.label.reaps q x) →
    h.count (Label.queues q (WireMember.isAt x i s)) ≤ 1) hrun ?_ ?_ hkept
  · intro c _ _
    rw [History.count_init]
    exact Nat.zero_le _
  · intro h l c (hrun : Run h) ih hstep hkept
    have hkept' : ∀ m ∈ h.past, ¬ m.label.reaps q x :=
      fun m hm => hkept m (List.mem_cons_of_mem _ hm)
    rw [History.count_push]
    split_ifs with hl
    · -- it was never queued before
      have hnone : h.count (Label.queues q (WireMember.isAt x i s)) = 0 := by
        refine List.countP_eq_zero.mpr fun m hm hqueues => ?_
        obtain ⟨slot', kind', rumor', size', rfl, hf'⟩ := Label.queues_eq hl
        obtain ⟨slot, kind, rumor, size, hlabel, hf⟩ := Label.queues_eq hqueues
        obtain ⟨h₁, htook⟩ := hrun.exists_took hm
        rw [hlabel] at htook
        obtain ⟨hx, _⟩ := WireMember.isAt_iff.mp hf
        obtain ⟨hx', _⟩ := WireMember.isAt_iff.mp hf'
        have hrun₁ : Run h₁ := hrun.of_extends htook.before
        refine hrun.queued_once ⟨hrun₁, htook⟩ hstep (hx'.trans hx.symm) ?_
          (WireMember.key_eq_of_isAt hf hf') ?_
        · rw [hx]
          exact hqx.symm
        · rw [hx]
          exact hkept'
      omega
    · exact ih hkept'

/-! ## What it costs -/

/-- The sends `q` has left for the rumors `f` picks. -/
def Cluster.owed (f : WireMember → Bool) (q : NodeId) (c : Cluster) : ℕ :=
  ((c.procs q).map fun p => p.shared.queue.owed f).getD 0

lemma Cluster.owed_of_procs {f : WireMember → Bool} {c : Cluster} (hp : c.procs q = some p) :
    c.owed f q = p.shared.queue.owed f := by
  simp [owed, hp]

lemma Cluster.owed_of_none {f : WireMember → Bool} {c : Cluster} (hp : c.procs q = none) :
    c.owed f q = 0 := by
  simp [owed, hp]

/-- In every queue, every rumor has sends left. -/
lemma Run.sendsLeft_pos (hrun : Run h) (hp : h.now.procs q = some p) :
    ∀ pending ∈ p.shared.queue, 0 < pending.sendsLeft := by
  have hall : ∀ q p, h.now.procs q = some p →
      ∀ pending ∈ p.shared.queue, 0 < pending.sendsLeft := by
    refine hrun.invariant (P := fun c => ∀ q p, c.procs q = some p →
      ∀ pending ∈ p.shared.queue, 0 < pending.sendsLeft) ?_ ?_
    · exact fun q p hp => absurd hp (by simp [Cluster.empty])
    · intro h l c _ ih hstep q p' hp' pending hpending
      rcases hstep.proc_cases hp' with ⟨p, hp, hev⟩ | ⟨_, node, seeds, _, _, _, rfl⟩
      · have hold := ih q p hp
        rcases hev.shared with hshared | ⟨slot, kind, o, r, net, _, hop⟩
        · rw [hshared] at hpending
          exact hold pending hpending
        · have hqueue : p'.shared.queue = o.queueAfter p.shared.queue := hop.queue
          rw [hqueue] at hpending
          cases o with
          | push rumor size =>
            rcases List.mem_append.mp hpending with hkept | hnew
            · exact hold pending (List.mem_filter.mp hkept).1
            · rw [List.mem_singleton.mp hnew]
              exact GossipQueue.retransmitLimit_pos size
          | take => exact GossipQueue.sendsLeft_pos_of_mem_take hpending
          | _ => exact hold pending hpending
      · exact absurd hpending List.not_mem_nil
  exact hall q p hp

/-- A node knows no more members than there are processes. -/
lemma Counted.le (hrun : Run h) (hcounted : Counted q size h) (hsize : h.now.AtMost N) :
    size ≤ N := by
  obtain ⟨h₁, p, hlater, hp, rfl⟩ := hcounted
  obtain ⟨ids, hcard, hids⟩ := hsize
  have hrun₁ : Run h₁ := hrun.of_extends hlater
  have hprocs : ∀ {id p}, h₁.now.procs id = some p → id ∈ ids := by
    intro id p hp
    obtain ⟨p', hp', _⟩ := Later.exists_grows hlater hp
    exact hids id p' hp'
  -- the entries are other processes
  have hsub : (p.shared.table.members.map Member.id).toFinset ⊆ ids.erase q := by
    intro id hid
    obtain ⟨m, hm, rfl⟩ := List.mem_map.mp (List.mem_toFinset.mp hid)
    have hget := MemberTable.get_of_mem hm
    obtain ⟨p', hp', _⟩ := hrun₁.exists_subject hp hget
    refine Finset.mem_erase.mpr ⟨fun hown => ?_, hprocs hp'⟩
    rw [hown, (hrun₁.sane hp).own] at hget
    exact absurd hget (by simp)
  have hle := Finset.card_le_card hsub
  rw [List.toFinset_card_of_nodup p.shared.table.nodup, List.length_map,
    Finset.card_erase_of_mem (hprocs hp)] at hle
  have hpos : 0 < ids.card := Finset.card_pos.mpr ⟨q, hprocs hp⟩
  unfold MemberTable.len
  omega

lemma Cluster.AtMost.of_step {c c' : Cluster} {l : Label} (hsize : c'.AtMost N)
    (hstep : Step c l c') : c.AtMost N := by
  obtain ⟨ids, hcard, hids⟩ := hsize
  refine ⟨ids, hcard, fun q p hp => ?_⟩
  obtain ⟨p', hp', _⟩ := hstep.exists_evolves hp
  exact hids q p' hp'

/-- Only operations of `q` count. -/
lemma Label.not_counted {f : WireMember → Bool} {l : Label}
    (hl : ∀ slot kind o r, l ≠ .op q slot kind o r) :
    l.queues q f = false ∧ l.gossips q f = false := by
  cases l with
  | op q' slot kind o r =>
    have hq : q' ≠ q := by
      intro hq
      subst hq
      exact hl slot kind o r rfl
    cases o <;> simp [queues, gossips, hq]
  | _ => exact ⟨rfl, rfl⟩

/-- What others do leaves the debts of `q` alone. -/
lemma Step.owed_eq {f : WireMember → Bool} {c c' : Cluster} {l : Label} (hstep : Step c l c')
    (hl : ∀ slot kind o r, l ≠ .op q slot kind o r) : c'.owed f q = c.owed f q := by
  cases hp' : c'.procs q with
  | none =>
    have hp : c.procs q = none := by
      by_contra hsome
      obtain ⟨p, hp⟩ := Option.ne_none_iff_exists'.mp hsome
      obtain ⟨p', hp'', _⟩ := hstep.exists_evolves hp
      exact absurd (hp'.symm.trans hp'') (by simp)
    rw [Cluster.owed_of_none hp', Cluster.owed_of_none hp]
  | some p' =>
    rw [Cluster.owed_of_procs hp']
    rcases hstep.proc_cases hp' with ⟨p, hp, hev⟩ | ⟨hnone, node, seeds, _, _, _, rfl⟩
    · rw [Cluster.owed_of_procs hp]
      rcases hev.shared with hshared | ⟨slot, kind, o, r, net, hop, _⟩
      · rw [hshared]
      · exact absurd hop (hl slot kind o r)
    · rw [Cluster.owed_of_none hnone]
      rfl

/-- Every batch is paid for by a rumor queued before, and each of those pays for so many. -/
theorem Run.count_gossips_le {f : WireMember → Bool} (hrun : Run h) (hsize : h.now.AtMost N) :
    h.count (Label.gossips q f) + h.now.owed f q ≤
      h.count (Label.queues q f) * (3 * max 1 (Nat.clog 2 N)) := by
  refine History.IsRun.induction (P := fun h => h.now.AtMost N →
    h.count (Label.gossips q f) + h.now.owed f q ≤
      h.count (Label.queues q f) * (3 * max 1 (Nat.clog 2 N))) hrun ?_ ?_ hsize
  · intro c hc _
    have howed : (History.init c : Trace).now.owed f q = 0 := by
      rw [hc]
      exact Cluster.owed_of_none rfl
    rw [History.count_init, howed]
    exact Nat.zero_le _
  · intro h l c (hrun : Run h) ih hstep hsize
    have hsize₀ : h.now.AtMost N := hsize.of_step hstep
    have hbefore := ih hsize₀
    rw [History.count_push, History.count_push, History.now_push]
    by_cases hop : ∃ slot kind o r, l = .op q slot kind o r
    · obtain ⟨slot, kind, o, r, rfl⟩ := hop
      obtain ⟨p, next, shared, net, hp, _, _, hrun', rfl⟩ := hstep.of_op
      have hafter : Cluster.owed f q { h.now.setProc q ({ p with shared := shared }.set slot
          (some ⟨kind, next r⟩)) with net := net } = (o.queueAfter p.shared.queue).owed f := by
        rw [Cluster.owed_of_procs (if_pos rfl)]
        exact congrArg _ hrun'.queue
      rw [hafter]
      rw [Cluster.owed_of_procs hp] at hbefore
      -- a push adds what it allows to what is owed, a batch takes one off each rumor in it
      cases o with
      | push rumor size =>
        have hle : size ≤ N := (hrun.mayQueue hstep).2.le hrun hsize₀
        have hlimit := retransmitLimit_le hle
        have howed : (p.shared.queue.push rumor size).owed f ≤ _ :=
          GossipQueue.owed_push_le rumor size
        have hqueues : (Label.op q slot kind (.push rumor size) r).queues q f = f rumor := by
          simp [Label.queues]
        have hgossips : (Label.op q slot kind (.push rumor size) r).gossips q f = false := rfl
        rw [hqueues, hgossips, Nat.add_mul]
        show _ + 0 + (p.shared.queue.push rumor size).owed f ≤ _
        split_ifs at howed ⊢ with hf
        · omega
        · omega
      | take =>
        have hbatch : r = p.shared.queue.take.1 := hrun'.1
        have howed := GossipQueue.owed_take (f := f) (hrun.sendsLeft_pos hp)
        have hqueues : (Label.op q slot kind .take r).queues q f = false := rfl
        have hgossips : (Label.op q slot kind .take r).gossips q f = List.any r f := by
          simp [Label.gossips]
        rw [← hbatch] at howed
        rw [hqueues, hgossips]
        show _ + p.shared.queue.take.2.owed f ≤ h.count (Label.queues q f) * _
        omega
      | _ => exact hbefore
    · have hl : ∀ slot kind o r, l ≠ .op q slot kind o r :=
        fun slot kind o r heq => hop ⟨slot, kind, o, r, heq⟩
      obtain ⟨hqueues, hgossips⟩ := Label.not_counted (f := f) hl
      rw [hqueues, hgossips, hstep.owed_eq hl]
      exact hbefore

/-! ## No storm -/

/-- Whatever somebody else than `x` sends is counted once, by who sends it. -/
lemma Run.count_gossipsAside_le {f : WireMember → Bool} {ids : Finset NodeId} (hrun : Run h)
    (hids : ∀ q p, h.now.procs q = some p → q ∈ ids) :
    h.count (Label.gossipsAside x f) ≤ ∑ q ∈ ids.erase x, h.count (Label.gossips q f) := by
  refine History.IsRun.induction (P := fun h => (∀ q p, h.now.procs q = some p → q ∈ ids) →
    h.count (Label.gossipsAside x f) ≤ ∑ q ∈ ids.erase x, h.count (Label.gossips q f))
    hrun ?_ ?_ hids
  · intro c _ _
    rw [History.count_init]
    exact Nat.zero_le _
  · intro h l c _ ih hstep hids
    have hids₀ : ∀ q p, h.now.procs q = some p → q ∈ ids := by
      intro q p hp
      obtain ⟨p', hp', _⟩ := hstep.exists_evolves hp
      exact hids q p' hp'
    have hbefore := ih hids₀
    have hsum : ∑ q ∈ ids.erase x, (h.push l c).count (Label.gossips q f) =
        ∑ q ∈ ids.erase x, h.count (Label.gossips q f) +
          ∑ q ∈ ids.erase x, if l.gossips q f then 1 else 0 := by
      rw [← Finset.sum_add_distrib]
      exact Finset.sum_congr rfl fun q _ => History.count_push _ h l c
    rw [History.count_push, hsum]
    refine Nat.add_le_add hbefore ?_
    split_ifs with hl
    · -- the sender is one of them
      cases l with
      | op q slot kind o r =>
        cases o with
        | take =>
          simp only [Label.gossipsAside, Bool.and_eq_true, decide_eq_true_eq] at hl
          obtain ⟨p, _, _, _, hp, _⟩ := hstep.of_op
          have hmem : q ∈ ids.erase x := Finset.mem_erase.mpr ⟨hl.1, hids₀ q p hp⟩
          have hone : (if (Label.op q slot kind .take r).gossips q f then 1 else 0) = 1 := by
            simp [Label.gossips, hl.2]
          calc 1 = if (Label.op q slot kind .take r).gossips q f then 1 else 0 := hone.symm
            _ ≤ _ := Finset.single_le_sum (f := fun q' =>
                if (Label.op q slot kind .take r).gossips q' f then 1 else 0)
              (fun _ _ => Nat.zero_le _) hmem
        | _ => exact absurd hl (by simp [Label.gossipsAside])
      | _ => exact absurd hl (by simp [Label.gossipsAside])
    · exact Nat.zero_le _

/-- In every run of at most `N` processes, as long as nobody has reaped `x`: everybody else queues
a rumor about `x` at one incarnation and state once, sends it so many times, and all of them
together so many times `N`. -/
theorem gossip_does_not_storm (hrun : Run h) (hsize : h.now.AtMost N)
    (hkept : ∀ q, ∀ m ∈ h.past, ¬ m.label.reaps q x) (i : Incarnation) (s : WireMemberState) :
    (∀ q, q ≠ x →
      h.count (Label.queues q (WireMember.isAt x i s)) ≤ 1 ∧
      h.count (Label.gossips q (WireMember.isAt x i s)) ≤ 3 * max 1 (Nat.clog 2 N)) ∧
    h.count (Label.gossipsAside x (WireMember.isAt x i s)) ≤ N * (3 * max 1 (Nat.clog 2 N)) := by
  have hqueued : ∀ q, q ≠ x → h.count (Label.queues q (WireMember.isAt x i s)) ≤ 1 :=
    fun q hqx => hrun.count_queues_le hqx (hkept q)
  have hsent : ∀ q, q ≠ x →
      h.count (Label.gossips q (WireMember.isAt x i s)) ≤ 3 * max 1 (Nat.clog 2 N) := by
    intro q hqx
    have hpaid := hrun.count_gossips_le (q := q) (f := WireMember.isAt x i s) hsize
    have honce := Nat.mul_le_mul_right (3 * max 1 (Nat.clog 2 N)) (hqueued q hqx)
    omega
  refine ⟨fun q hqx => ⟨hqueued q hqx, hsent q hqx⟩, ?_⟩
  obtain ⟨ids, hcard, hids⟩ := hsize
  calc h.count (Label.gossipsAside x (WireMember.isAt x i s))
      ≤ ∑ q ∈ ids.erase x, h.count (Label.gossips q (WireMember.isAt x i s)) :=
        hrun.count_gossipsAside_le hids
    _ ≤ (ids.erase x).card * (3 * max 1 (Nat.clog 2 N)) :=
        Finset.sum_le_card_nsmul _ _ _ fun q hq => hsent q (Finset.ne_of_mem_erase hq)
    _ ≤ N * (3 * max 1 (Nat.clog 2 N)) :=
        Nat.mul_le_mul_right _ ((Finset.card_erase_le).trans hcard)

/-! ### In a cluster of two -/

/-- Two nodes that get to know each other drop nobody. -/
lemma Run.not_reaps_of_greets (hrun : Run h) (hgreets : ∀ m ∈ h.past, m.label.greets)
    (q x : NodeId) : ∀ m ∈ h.past, ¬ m.label.reaps q x := by
  intro m hm
  obtain ⟨h₁, htook⟩ := hrun.exists_took hm
  have hrun₁ : Run h₁ := hrun.of_extends htook.before
  have hgreet := hgreets m hm
  obtain ⟨c, hstep, _⟩ := htook
  refine hrun₁.not_reaps hstep (fun slot o r hl => ?_) x
  rw [hl] at hgreet
  exact hgreet

/-- The first of them, when it has queued what the second says of itself. -/
def told : Shared :=
  let table := (MemberTable.new.merge 0 news alpha.id).2
  { Shared.new with table, queue := GossipQueue.new.push news (table.len + 1) }

lemma path_told (conn : Conn) : ∃ prog,
    Program.Path (fun o w r w' => Op.Run alpha 0 o w r w' ∧ o ≠ .fetchSeq)
      (fun o => ¬ o.awaits = true)
      (serve alpha conn (.joinRequest (beta.identity Guarded.new.current))) ⟨Shared.new, []⟩
      prog ⟨told, []⟩ := by
  have hadded : (MemberTable.new.merge 0 news alpha.id).1 = .added := by
    rw [MemberTable.merge_new alpha_ne_beta.symm beta_mayStart.1 rfl]
  rw [serve_joinRequest]
  exact ⟨_, .step (r := []) (by simp [Op.awaits]) ⟨⟨.refl _, rfl⟩, by simp⟩ <|
    .step (r := .added) (by simp [Op.awaits]) ⟨⟨hadded.symm, rfl⟩, by simp⟩ <|
    .step (r := (MemberTable.new.merge 0 news alpha.id).2.len) (by simp [Op.awaits])
      ⟨⟨rfl, rfl⟩, by simp⟩ <|
    .step (r := ()) (by simp [Op.awaits]) ⟨rfl, by simp⟩ <|
    .refl _ _⟩

theorem gossip_does_not_storm_pair :
    ∃ h : Trace, Run h ∧ h.now.AtMost 2 ∧
      h.count (Label.queues alpha.id (WireMember.isAt beta.id 0 .alive)) = 1 ∧
      h.count (Label.gossips alpha.id (WireMember.isAt beta.id 0 .alive)) ≤ 3 ∧
      h.count (Label.gossipsAside beta.id (WireMember.isAt beta.id 0 .alive)) ≤ 6 := by
  obtain ⟨h, n, task, task', hgreets, hnow⟩ := exists_greeted path_told
  have hrun : Run h := ⟨.empty, rfl, hgreets.later⟩
  have hsize : h.now.AtMost 2 := hnow ▸ Cluster.atMost_duo ..
  have hnone : ∀ q, ∀ m ∈ h.past, ¬ m.label.reaps q beta.id := fun q =>
    hrun.not_reaps_of_greets (hgreets.forall_past (by simp [History.init])) q beta.id
  have howed : 0 < h.now.owed (WireMember.isAt beta.id 0 .alive) alpha.id := by
    rw [hnow, Cluster.owed_of_procs Cluster.procs_duo_alpha]
    exact GossipQueue.retransmitLimit_pos _
  obtain ⟨heach, hall⟩ := gossip_does_not_storm hrun hsize hnone 0 .alive
  obtain ⟨honce, hsent⟩ := heach alpha.id alpha_ne_beta
  have hpaid := hrun.count_gossips_le (q := alpha.id) (f := WireMember.isAt beta.id 0 .alive) hsize
  have hlog : Nat.clog 2 2 = 1 := Nat.clog_eq_one (le_refl 2) (le_refl 2)
  rw [hlog] at hsent hall hpaid
  have hpos : 0 < h.count (Label.queues alpha.id (WireMember.isAt beta.id 0 .alive)) := by
    by_contra hzero
    rw [Nat.eq_zero_of_not_pos hzero] at hpaid
    omega
  exact ⟨h, hrun, hsize, by omega, hsent, hall⟩

end Dalila
