import Dalila.Cluster
import Dalila.StateTheorems

/-!
# What one operation changes

One equation for each part of the world an operation can reach, and what follows for the
steps of a cluster.
-/

namespace Dalila

/-! ## Operations -/

namespace Op

/-- What an operation leaves of the member table. -/
def tableAfter (now : Instant) : Op → MemberTable → MemberTable
  | .merge rumor me, table => (table.merge now rumor me).2
  | .remove ids, table => table.remove ids
  | _, table => table

/-- What an operation leaves of the incarnation and its flags. -/
def guardedAfter : Op → Guarded → Guarded
  | .refute rumored, g => (g.refute rumored).2
  | .leave, g => g.leave
  | .setReady ready, g => (g.setReady ready).2
  | _, g => g

/-- What an operation leaves of the gossip queue. -/
def queueAfter : Op → GossipQueue → GossipQueue
  | .push rumor clusterSize, queue => queue.push rumor clusterSize
  | .take, queue => queue.take.2
  | _, queue => queue

/-- The message an operation hands to the network. -/
def sends (node : LocalNode) : (o : Op) → o.Res → Option Packet
  | .sendUdp target body, true => some (.udp node.addr target body)
  | .writeRequest conn body, true => some (.request conn body)
  | .writeResponse conn body, true => some (.response conn body)
  | _, _ => none

section

variable {node : LocalNode} {now : Instant} {o : Op} {w w' : World} {r : o.Res}

/-- What an operation makes of the table. -/
lemma Run.table (h : o.Run node now w r w') :
    w'.shared.table = o.tableAfter now w.shared.table := by
  cases o <;> simp only [Run, tableAfter] at h ⊢ <;> grind

lemma Run.guarded (h : o.Run node now w r w') :
    w'.shared.guarded = o.guardedAfter w.shared.guarded := by
  cases o <;> simp only [Run, guardedAfter] at h ⊢ <;> grind

lemma Run.queue (h : o.Run node now w r w') :
    w'.shared.queue = o.queueAfter w.shared.queue := by
  cases o <;> simp only [Run, queueAfter] at h ⊢ <;> grind

/-- What is in the network after an operation was there before, or is what it sent. -/
lemma Run.net (h : o.Run node now w r w') {packet : Packet} (hnet : packet ∈ w'.net) :
    packet ∈ w.net ∨ o.sends node r = some packet := by
  cases o <;> simp only [Run, sends] at h ⊢ <;> grind [List.mem_of_mem_erase]

end

/-- No operation lowers the incarnation. -/
lemma incarnation_le_guardedAfter (o : Op) (g : Guarded) :
    g.incarnation ≤ (o.guardedAfter g).incarnation := by
  cases o with
  | refute rumored => exact Guarded.incarnation_le_refute g rumored
  | setReady ready => exact Guarded.incarnation_le_setReady g ready
  | _ => exact le_refl _

/-- A node that is leaving has said its last word. -/
lemma guardedAfter_of_leaving (o : Op) {g : Guarded} (h : g.leaving = true) :
    o.guardedAfter g = g := by
  cases o with
  | refute rumored => exact congrArg Prod.snd (Guarded.refute_of_leaving h rumored)
  | setReady ready => exact congrArg Prod.snd (Guarded.setReady_of_leaving h ready)
  | leave =>
    show g.leave = g
    unfold Guarded.leave
    rw [← h]
  | _ => rfl

/-- Below the top, readiness only changes together with the incarnation. -/
lemma ready_guardedAfter (o : Op) {g : Guarded} (hmax : g.incarnation < Incarnation.max)
    (h : (o.guardedAfter g).incarnation = g.incarnation) :
    (o.guardedAfter g).ready = g.ready := by
  cases o with
  | refute rumored => exact (Guarded.refute_flags g rumored).2
  | setReady ready => exact Guarded.setReady_ready hmax h
  | _ => rfl

/-- An entry only moves up, unless it is dropped. -/
lemma get_tableAfter (o : Op) (now : Instant) {table : MemberTable} {id : NodeId} {member : Member}
    (hget : table.get id = some member) :
    (∃ ids, o = .remove ids ∧ id ∈ ids ∧ (o.tableAfter now table).get id = none) ∨
      (o.tableAfter now table).get id = some member ∨
      ∃ rumor me, o = .merge rumor me ∧ rumor.id = id ∧ id ≠ me ∧ member.key < rumor.key ∧
        (o.tableAfter now table).get id = some (member.update now rumor) := by
  cases o with
  | remove ids =>
    have hrem : (table.remove ids).get id = if id ∈ ids then none else table.get id :=
      MemberTable.get_remove table ids id
    by_cases hid : id ∈ ids
    · rw [if_pos hid] at hrem
      exact .inl ⟨ids, rfl, hid, hrem⟩
    · rw [if_neg hid, hget] at hrem
      exact .inr (.inl hrem)
  | merge rumor me =>
    rcases MemberTable.get_merge_of_get now rumor me hget with ⟨hid, hme, hlt, hmerge⟩ | ⟨_, hmerge⟩
    · exact .inr (.inr ⟨rumor, me, rfl, hid.symm, hme, hlt, hmerge⟩)
    · exact .inr (.inl hmerge)
  | _ => exact .inr (.inl hget)

end Op

/-! ## Steps of a cluster -/

@[simp] lemma Cluster.procs_setProc (c : Cluster) (q : NodeId) (p : Process) (q' : NodeId) :
    (c.setProc q p).procs q' = if q' = q then some p else c.procs q' := by
  simp [setProc, Function.update_apply]

@[simp] lemma Cluster.net_setProc (c : Cluster) (q : NodeId) (p : Process) :
    (c.setProc q p).net = c.net := rfl

@[simp] lemma Cluster.clock_setProc (c : Cluster) (q : NodeId) (p : Process) :
    (c.setProc q p).clock = c.clock := rfl

@[simp] lemma Process.node_set (p : Process) (slot : Slot) (task : Option Task) :
    (p.set slot task).node = p.node := rfl

@[simp] lemma Process.shared_set (p : Process) (slot : Slot) (task : Option Task) :
    (p.set slot task).shared = p.shared := rfl

lemma Process.tasks_set (p : Process) (slot : Slot) (task : Option Task) (slot' : Slot) :
    (p.set slot task).tasks slot' = if slot' = slot then task else p.tasks slot' := by
  simp [set, Function.update_apply]

/-- A task that returns leaves the shared state alone. -/
lemma Process.finish_keeps (p : Process) (slot : Slot) (free : ℕ) (kind : Kind)
    (out : kind.Out) :
    (p.finish slot free kind out).node = p.node ∧
      (p.finish slot free kind out).shared = p.shared := by
  cases kind with
  | datagram src body => cases out <;> exact ⟨rfl, rfl⟩
  | join seeds => cases out <;> exact ⟨rfl, rfl⟩
  | choosing order =>
    obtain ⟨target, rest⟩ := out
    cases target <;> exact ⟨rfl, rfl⟩
  | _ => exact ⟨rfl, rfl⟩

/-- What a step does to a process: what its tasks share is changed by an operation of one of
them or not at all. -/
inductive Process.Evolves (c : Cluster) (l : Label) (q : NodeId) (p : Process) : Process → Prop where
  | quiet (p' : Process) (hnode : p'.node = p.node) (hshared : p'.shared = p.shared)
      (hstopped : p'.stopped = false → p.stopped = false) : Evolves c l q p p'
  | op (slot : Slot) (kind : Kind) (o : Op) (next : o.Res → Prog kind.Out) (r : o.Res)
      (shared : Shared) (net : List Packet) (hrun : p.stopped = false)
      (htask : p.tasks slot = some ⟨kind, .step o next⟩) (hl : l = .op q slot kind o r)
      (hop : o.Run p.node c.clock ⟨p.shared, c.net⟩ r ⟨shared, net⟩) :
      Evolves c l q p ({ p with shared := shared }.set slot (some ⟨kind, next r⟩))

namespace Process.Evolves

variable {c : Cluster} {l : Label} {q : NodeId} {p p' : Process}

lemma refl (c : Cluster) (l : Label) (q : NodeId) (p : Process) : Evolves c l q p p :=
  .quiet p rfl rfl id

lemma set (c : Cluster) (l : Label) (q : NodeId) (p : Process) (slot : Slot)
    (task : Option Task) : Evolves c l q p (p.set slot task) := .quiet _ rfl rfl id

/-- A process keeps its id, address and tags. -/
lemma node (h : p.Evolves c l q p') : p'.node = p.node := by
  cases h with
  | quiet _ hnode => exact hnode
  | op => rfl

lemma running (h : p.Evolves c l q p') (hrun : p'.stopped = false) : p.stopped = false := by
  cases h with
  | quiet _ _ _ hstopped => exact hstopped hrun
  | op _ _ _ _ _ _ _ hrun => exact hrun

/-- Either the shared state is as before, or one operation made it. -/
lemma shared (h : p.Evolves c l q p') :
    p'.shared = p.shared ∨ ∃ slot kind o r net, l = .op q slot kind o r ∧
      o.Run p.node c.clock ⟨p.shared, c.net⟩ r ⟨p'.shared, net⟩ := by
  cases h with
  | quiet _ _ hshared => exact .inl hshared
  | op slot kind o next r shared net _ _ hl hop =>
    exact .inr ⟨slot, kind, o, r, net, hl, hop⟩

end Process.Evolves

/-- The process that takes the step, or that the step starts or stops. -/
def Label.actor : Label → Option NodeId
  | .start node _ => some node.id
  | .begins q _ _ | .receive q _ _ | .accept q _ _ | .op q _ _ _ _ | .finish q _ _ _ |
    .cancel q _ | .stop q => some q
  | .tick _ | .lose _ | .duplicate _ | .query _ => none

lemma Cluster.eq_of_procs_setProc {c : Cluster} {q : NodeId} {p p' : Process}
    (h : (c.setProc q p).procs q = some p') : p' = p := by
  rw [procs_setProc, if_pos rfl] at h
  exact (Option.some.inj h).symm

/-- A step leaves every process but one alone. -/
lemma Step.procs_eq {c c' : Cluster} {l : Label} (h : Step c l c') {q : NodeId}
    (hq : l.actor ≠ some q) : c'.procs q = c.procs q := by
  have hset : ∀ {q₀ : NodeId} {p₀ : Process}, some q₀ ≠ some q →
      (c.setProc q₀ p₀).procs q = c.procs q := by
    intro q₀ p₀ hne
    rw [Cluster.procs_setProc, if_neg fun hq => hne (congrArg some hq.symm)]
  cases h with
  | tick | lose | duplicate | query => rfl
  | _ => exact hset hq

/-- A step that puts one process in place of itself leaves the others alone. -/
lemma Cluster.exists_evolves {c : Cluster} {l : Label} {q₀ : NodeId} {p₀ p₀' : Process}
    (hp₀ : c.procs q₀ = some p₀) (hev : p₀.Evolves c l q₀ p₀') {q : NodeId} {p : Process}
    (hp : c.procs q = some p) :
    ∃ p', (c.setProc q₀ p₀').procs q = some p' ∧ p.Evolves c l q p' := by
  rw [procs_setProc]
  by_cases hq : q = q₀
  · subst hq
    rw [if_pos rfl]
    rw [hp₀] at hp
    exact ⟨p₀', rfl, Option.some.inj hp ▸ hev⟩
  · rw [if_neg hq]
    exact ⟨p, hp, .refl ..⟩

/-- No step makes a process disappear. -/
lemma Step.exists_evolves {c c' : Cluster} {l : Label} (h : Step c l c') {q : NodeId}
    {p : Process} (hp : c.procs q = some p) :
    ∃ p', c'.procs q = some p' ∧ p.Evolves c l q p' := by
  cases h with
  | tick | lose | duplicate | query => exact ⟨p, hp, .refl ..⟩
  | start node seeds hnew hmay =>
    have hq : q ≠ node.id := fun hq => by simp [hq, hnew] at hp
    exact ⟨p, by rw [Cluster.procs_setProc, if_neg hq, hp], .refl ..⟩
  | begins q₀ p₀ slot kind hp₀ => exact Cluster.exists_evolves hp₀ (.set ..) hp
  | receive q₀ p₀ src body hp₀ => exact Cluster.exists_evolves hp₀ (.set ..) hp
  | accept q₀ p₀ n conn body hp₀ => exact Cluster.exists_evolves hp₀ (.set ..) hp
  | op q₀ p₀ slot kind o next r shared net hp₀ hstopped htask hop =>
    exact Cluster.exists_evolves hp₀ (.op slot kind o next r shared net hstopped htask rfl hop) hp
  | finish q₀ p₀ slot kind out free hp₀ hstopped =>
    have hkeeps := p₀.finish_keeps slot free kind out
    exact Cluster.exists_evolves hp₀ (.quiet _ hkeeps.1 hkeeps.2 fun _ => hstopped) hp
  | cancel q₀ p₀ slot hp₀ => exact Cluster.exists_evolves hp₀ (.set ..) hp
  | stop q₀ p₀ hp₀ =>
    exact Cluster.exists_evolves hp₀ (.quiet { p₀ with stopped := true } rfl rfl (by simp)) hp

/-- A process there was not before has just been started. -/
lemma Step.of_procs_none {c c' : Cluster} {l : Label} (h : Step c l c') {q : NodeId}
    (hnone : c.procs q = none) {p' : Process} (hp' : c'.procs q = some p') :
    ∃ node seeds, l = .start node seeds ∧ node.id = q ∧ Process.mayStart node ∧
      p' = .new node seeds := by
  have hset : ∀ {q₀ : NodeId} {p₀ p₀' : Process}, c.procs q₀ = some p₀ →
      (c.setProc q₀ p₀').procs q ≠ some p' := by
    intro q₀ p₀ p₀' hp₀ h
    rw [Cluster.procs_setProc] at h
    have hq : q ≠ q₀ := fun hq => by simp [← hq, hnone] at hp₀
    rw [if_neg hq, hnone] at h
    exact absurd h (by simp)
  cases h with
  | tick | lose | duplicate | query => exact absurd (hnone.symm.trans hp') (by simp)
  | start node seeds hnew hmay =>
    rw [Cluster.procs_setProc] at hp'
    by_cases hq : q = node.id
    · rw [if_pos hq] at hp'
      exact ⟨node, seeds, rfl, hq.symm, hmay, (Option.some.inj hp').symm⟩
    · rw [if_neg hq, hnone] at hp'
      exact absurd hp' (by simp)
  | begins _ _ _ _ hp₀ => exact absurd hp' (hset hp₀)
  | receive _ _ _ _ hp₀ => exact absurd hp' (hset hp₀)
  | accept _ _ _ _ _ hp₀ => exact absurd hp' (hset hp₀)
  | op _ _ _ _ _ _ _ _ _ hp₀ => exact absurd hp' (hset hp₀)
  | finish _ _ _ _ _ _ hp₀ => exact absurd hp' (hset hp₀)
  | cancel _ _ _ hp₀ => exact absurd hp' (hset hp₀)
  | stop _ _ hp₀ => exact absurd hp' (hset hp₀)

/-- Every process was there before the step, or has just been started. -/
lemma Step.proc_cases {c c' : Cluster} {l : Label} (h : Step c l c') {q : NodeId} {p' : Process}
    (hp' : c'.procs q = some p') :
    (∃ p, c.procs q = some p ∧ p.Evolves c l q p') ∨
      c.procs q = none ∧ ∃ node seeds, l = .start node seeds ∧ node.id = q ∧
        Process.mayStart node ∧ p' = .new node seeds := by
  cases hp : c.procs q with
  | none => exact .inr ⟨rfl, h.of_procs_none hp hp'⟩
  | some p =>
    obtain ⟨p'', hp'', hev⟩ := h.exists_evolves hp
    rw [hp'] at hp''
    exact .inl ⟨p, rfl, Option.some.inj hp'' ▸ hev⟩

/-- What the label of an operation says. -/
lemma Step.of_op {c c' : Cluster} {q : NodeId} {slot : Slot} {kind : Kind} {o : Op} {r : o.Res}
    (h : Step c (.op q slot kind o r) c') :
    ∃ (p : Process) (next : o.Res → Prog kind.Out) (shared : Shared) (net : List Packet),
      c.procs q = some p ∧ p.stopped = false ∧ p.tasks slot = some ⟨kind, .step o next⟩ ∧
      o.Run p.node c.clock ⟨p.shared, c.net⟩ r ⟨shared, net⟩ ∧
      c' = { c.setProc q ({ p with shared := shared }.set slot (some ⟨kind, next r⟩)) with
        net := net } := by
  cases h with
  | op _ p _ _ _ next _ shared net hp hstopped htask hop =>
    exact ⟨p, next, shared, net, hp, hstopped, htask, hop, rfl⟩

/-- No step turns the clock back. -/
lemma Step.clock_le {c c' : Cluster} {l : Label} (h : Step c l c') : c.clock ≤ c'.clock := by
  cases h <;> simp

/-- A packet in the network was there before, comes from a client outside, or has just been
sent. -/
lemma Step.mem_net {c c' : Cluster} {l : Label} (h : Step c l c') {packet : Packet}
    (hnet : packet ∈ c'.net) :
    packet ∈ c.net ∨
      (∃ conn, conn.client = none ∧ packet = .request conn .membersRequest ∧ l = .query conn) ∨
      ∃ q p slot kind o next r, c.procs q = some p ∧ p.stopped = false ∧
        p.tasks slot = some ⟨kind, .step o next⟩ ∧ l = .op q slot kind o r ∧
        o.sends p.node r = some packet := by
  cases h with
  | tick | start | begins | finish | cancel | stop => exact .inl hnet
  | lose | receive | accept => exact .inl (List.mem_of_mem_erase hnet)
  | duplicate packet₀ hmem =>
    rcases List.mem_cons.mp hnet with rfl | hnet
    · exact .inl hmem
    · exact .inl hnet
  | query conn hconn =>
    rcases List.mem_cons.mp hnet with rfl | hnet
    · exact .inr (.inl ⟨conn, hconn, rfl, rfl⟩)
    · exact .inl hnet
  | op q p slot kind o next r shared net hp hstopped htask hop =>
    rcases hop.net hnet with hnet | hsends
    · exact .inl hnet
    · exact .inr (.inr ⟨q, p, slot, kind, o, next, r, hp, hstopped, htask, rfl, hsends⟩)

/-! ## Who holds what -/

namespace Cluster

/-- What `q` holds about `id`. -/
def entry (c : Cluster) (q id : NodeId) : Option Member :=
  (c.procs q).bind fun p => p.shared.table.get id

/-- The incarnation of `q`. -/
def incarnation (c : Cluster) (q : NodeId) : Incarnation :=
  ((c.procs q).map fun p => p.shared.guarded.incarnation).getD 0

variable {c : Cluster} {q id : NodeId} {p : Process}

lemma entry_of_procs (hp : c.procs q = some p) : c.entry q id = p.shared.table.get id := by
  simp [entry, hp]

lemma incarnation_of_procs (hp : c.procs q = some p) :
    c.incarnation q = p.shared.guarded.incarnation := by
  simp [incarnation, hp]

end Cluster

end Dalila
