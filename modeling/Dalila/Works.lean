import Dalila.Waiting

/-!
# One task working alone

While one task works and nothing else moves, a run of the cluster is a run of the task's
program, and the other way round.
-/

namespace Dalila

open Program

/-- An operation of one task that waits for nobody. -/
def Label.works (q : NodeId) (slot : Slot) : Label → Prop
  | .op q' slot' _ o _ => q' = q ∧ slot' = slot ∧ ¬ o.awaits = true
  | _ => False

/-- Did the operation come to nothing, for want of the network? -/
def Op.fails : (o : Op) → o.Res → Bool
  | .acked _ _, r => !r
  | .connect _, r => r.isNone
  | .sendUdp _ _, r => !r
  | .writeRequest _ _, r => !r
  | .readFrame _, r => r.isNone
  | .writeResponse _ _, r => !r
  | _, _ => false

/-- An operation of one task that waits for nobody, and does not fail either. -/
def Label.goes (q : NodeId) (slot : Slot) (kind : Kind) (l : Label) : Prop :=
  ∃ (o : Op) (r : o.Res), l = .op q slot kind o r ∧ ¬ o.awaits = true ∧ o.fails r = false

/-- From `h` to `h'` only the task in one slot of one process has worked. -/
abbrev Works (q : NodeId) (slot : Slot) (h h' : Trace) : Prop := LaterBy (Label.works q slot) h h'

/-- One process and the network, in place of what they were. -/
def Cluster.put (c : Cluster) (q : NodeId) (p : Process) (net : List Packet) : Cluster :=
  { c.setProc q p with net := net }

@[simp] lemma Cluster.put_put (c : Cluster) (q : NodeId) (p p' : Process)
    (net net' : List Packet) : (c.put q p net).put q p' net' = c.put q p' net' := by
  simp [put, setProc]

/-- Changes to two processes can be made in either order. -/
lemma Cluster.put_comm (c : Cluster) {q q' : NodeId} (hne : q ≠ q') (p p' : Process)
    (net net' : List Packet) : (c.put q p net).put q' p' net' = (c.put q' p' net).put q p net' := by
  simp [put, setProc, Function.update_comm hne]

@[simp] lemma Cluster.procs_put (c : Cluster) (q : NodeId) (p : Process) (net : List Packet)
    (q' : NodeId) : (c.put q p net).procs q' = if q' = q then some p else c.procs q' :=
  c.procs_setProc q p q'

@[simp] lemma Cluster.net_put (c : Cluster) (q : NodeId) (p : Process) (net : List Packet) :
    (c.put q p net).net = net := rfl

@[simp] lemma Cluster.clock_put (c : Cluster) (q : NodeId) (p : Process) (net : List Packet) :
    (c.put q p net).clock = c.clock := rfl

/-- A process whose task in `slot` has `task` left, and whose shared state is `shared`. -/
def Process.at (p : Process) (slot : Slot) (shared : Shared) (task : Task) : Process :=
  { p with shared := shared }.set slot (some task)

@[simp] lemma Process.at_at (p : Process) (slot : Slot) (shared shared' : Shared)
    (task task' : Task) :
    (p.at slot shared task).at slot shared' task' = p.at slot shared' task' := by
  simp [Process.at, Process.set]

@[simp] lemma Process.tasks_at (p : Process) (slot : Slot) (shared : Shared) (task : Task) :
    (p.at slot shared task).tasks slot = some task := by
  simp [Process.at, Process.tasks_set]

lemma Process.at_self {p : Process} {slot : Slot} {task : Task} (h : p.tasks slot = some task) :
    p.at slot p.shared task = p := by
  simp [Process.at, Process.set, ← h]

lemma Cluster.put_self {c : Cluster} {q : NodeId} {p : Process} (h : c.procs q = some p) :
    c.put q p c.net = c := by
  simp [put, setProc, ← h]

/-- What a process's operations do, run alone. -/
abbrev Process.run (p : Process) (now : Instant) : ∀ o : Op, World → o.Res → World → Prop :=
  Op.Run p.node now

/-- A task's program, run alone up to some point. -/
abbrev Process.Path (p : Process) (now : Instant) {α : Type} (prog : Prog α) (w : World)
    (prog' : Prog α) (w' : World) : Prop :=
  Program.Path (p.run now) (fun o => ¬ o.awaits = true) prog w prog' w'

variable {h h' : Trace} {q : NodeId} {p : Process} {slot : Slot} {kind : Kind}

/-- What a task did alone, its program did. -/
theorem Works.path (hworks : Works q slot h h') (hp : h.now.procs q = some p)
    {prog : Prog kind.Out} (htask : p.tasks slot = some ⟨kind, prog⟩) :
    ∃ prog' shared,
      p.Path h.now.clock prog ⟨p.shared, h.now.net⟩ prog' ⟨shared, h'.now.net⟩ ∧
      h'.now = h.now.put q (p.at slot shared ⟨kind, prog'⟩) h'.now.net := by
  induction hworks with
  | refl =>
    refine ⟨prog, p.shared, .refl _ _, ?_⟩
    rw [Process.at_self htask, Cluster.put_self hp]
  | @push h₁ l c hext hstep ih =>
    obtain ⟨prog₁, shared₁, hpath, hnow⟩ := ih
    obtain ⟨hstep, hl⟩ := hstep
    cases l with
    | op q' slot' kind' o r =>
      obtain ⟨rfl, rfl, ho⟩ := hl
      obtain ⟨p₁, next, shared, net, hp₁, _, htask₁, hop, hc⟩ := hstep.of_op
      have hp₁' : h₁.now.procs q' = some (p.at slot' shared₁ ⟨kind, prog₁⟩) := by
        rw [hnow]
        simp
      obtain rfl := Option.some.inj (hp₁'.symm.trans hp₁)
      rw [Process.tasks_at] at htask₁
      obtain ⟨rfl, hprog⟩ := Task.mk.inj (Option.some.inj htask₁)
      obtain rfl := eq_of_heq hprog
      have hclock : h₁.now.clock = h.now.clock := by rw [hnow]; rfl
      rw [hclock] at hop
      have hnet : c.net = net := by rw [hc]
      refine ⟨next r, shared, hpath.trans (.step ho ?_ (.refl _ _)), ?_⟩
      · rw [History.now_push, hnet]
        exact hop
      · have hput : c = h₁.now.put q' ((p.at slot' shared₁ ⟨kind, .step o next⟩).at slot' shared
            ⟨kind, next r⟩) net := hc
        rw [History.now_push, hnet, hput, hnow, Process.at_at, Cluster.put_put]
    | _ => exact absurd hl (by simp [Label.works])

/-- What a task's program can do alone, the task can. `fine` is kept of every result. -/
theorem LaterBy.of_path {fine : ∀ o : Op, o.Res → Prop} (hp : h.now.procs q = some p)
    (halive : p.stopped = false) {prog prog' : Prog kind.Out}
    (htask : p.tasks slot = some ⟨kind, prog⟩) {w' : World}
    (hpath : Program.Path (fun o w r w' => p.run h.now.clock o w r w' ∧ fine o r)
      (fun o => ¬ o.awaits = true) prog ⟨p.shared, h.now.net⟩ prog' w') :
    ∃ h', LaterBy (fun l => ∃ (o : Op) (r : o.Res), l = .op q slot kind o r ∧
        ¬ o.awaits = true ∧ fine o r) h h' ∧
      h'.now = h.now.put q (p.at slot w'.shared ⟨kind, prog'⟩) w'.net := by
  have hall : ∀ {node : LocalNode} {now : Instant} {prog prog' : Prog kind.Out} {w w' : World},
      Program.Path (fun o w r w' => Op.Run node now o w r w' ∧ fine o r)
        (fun o => ¬ o.awaits = true) prog w prog' w' →
      ∀ {h : Trace} {p : Process}, p.node = node → h.now.clock = now →
        h.now.procs q = some p → p.stopped = false → p.tasks slot = some ⟨kind, prog⟩ →
        w = ⟨p.shared, h.now.net⟩ →
        ∃ h', LaterBy (fun l => ∃ (o : Op) (r : o.Res), l = .op q slot kind o r ∧
            ¬ o.awaits = true ∧ fine o r) h h' ∧
          h'.now = h.now.put q (p.at slot w'.shared ⟨kind, prog'⟩) w'.net := by
    intro node now prog prog' w w' hpath
    induction hpath with
    | refl =>
      rintro h p _ _ hp _ htask rfl
      exact ⟨h, .refl h, by rw [Process.at_self htask, Cluster.put_self hp]⟩
    | @step o next prog' s t u r ho hrun hnext ih =>
      rintro h p rfl rfl hp halive htask rfl
      obtain ⟨shared, net⟩ := t
      have hstep : Step h.now (.op q slot kind o r)
          (h.now.put q (p.at slot shared ⟨kind, next r⟩) net) :=
        .op h.now q p slot kind o next r shared net hp halive htask hrun.1
      have hp₁ : (h.push (.op q slot kind o r)
          (h.now.put q (p.at slot shared ⟨kind, next r⟩) net)).now.procs q =
          some (p.at slot shared ⟨kind, next r⟩) := by simp
      obtain ⟨h', hlater, hnow⟩ := ih
        (h := h.push (.op q slot kind o r) (h.now.put q (p.at slot shared ⟨kind, next r⟩) net))
        (p := p.at slot shared ⟨kind, next r⟩) rfl rfl hp₁ halive (Process.tasks_at ..) rfl
      refine ⟨h', ?_, ?_⟩
      · exact (History.Extends.single ⟨hstep, o, r, rfl, ho, hrun.2⟩).trans hlater
      · rw [hnow]
        simp
  exact hall hpath rfl rfl hp halive htask rfl

lemma Label.goes.works {l : Label} (hl : l.goes q slot kind) : l.works q slot := by
  obtain ⟨o, r, rfl, ho, _⟩ := hl
  exact ⟨rfl, rfl, ho⟩

/-- What allows fewer steps allows no more. -/
lemma LaterBy.imp {ok ok' : Label → Prop} (hlater : LaterBy ok h h') (himp : ∀ l, ok l → ok' l) :
    LaterBy ok' h h' :=
  hlater.mono fun _ l _ hstep => ⟨hstep.1, himp l hstep.2⟩

/-! ## Programs that run through -/

/-- What a process's operations do when nothing fails. -/
abbrev Process.runs (p : Process) (now : Instant) (o : Op) (w : World) (r : o.Res) (w' : World) :
    Prop :=
  p.run now o w r w' ∧ o.fails r = false

/-- An operation that neither waits nor talks always has a result. -/
lemma Op.exists_run (node : LocalNode) (now : Instant) {o : Op}
    (ho : ¬ (o.awaits = true ∨ o.talks = true)) (w : World) :
    ∃ r w', Op.Run node now o w r w' ∧ o.fails r = false := by
  cases o with
  | incarnation | current | refute | setReady | merge | get | len | take | fetchSeq | register |
    now => exact ⟨_, _, ⟨rfl, rfl⟩, rfl⟩
  | leave | remove | push | forget | resolve => exact ⟨(), _, rfl, rfl⟩
  | snapshot | shuffledIds | membersWhere => exact ⟨_, _, ⟨.refl _, rfl⟩, rfl⟩
  | relayCandidates => exact ⟨_, _, ⟨⟨_, .refl _, rfl⟩, rfl⟩, rfl⟩
  | randomMember =>
    cases hpool : w.shared.table.partnerPool with
    | nil => exact ⟨none, w, ⟨hpool, rfl⟩, rfl⟩
    | cons m pool => exact ⟨some m, w, ⟨by simp [hpool], rfl⟩, rfl⟩
  | acked | readFrame => exact absurd (.inl rfl) ho
  | sendUdp | connect | writeRequest | writeResponse => exact absurd (.inr rfl) ho

/-- A program that works on the shared state only runs through, and nothing fails. -/
lemma Process.exists_runs (p : Process) (now : Instant) {α : Type} {prog : Prog α}
    (hprog : Inward prog) (w : World) :
    ∃ a w', Program.Path (p.runs now) (fun o => ¬ o.awaits = true) prog w (.ret a) w' := by
  have hresult : ∀ o : Op, ¬ (o.awaits = true ∨ o.talks = true) → ∀ w, ∃ r w', p.runs now o w r w' :=
    fun o ho w => Op.exists_run p.node now ho w
  obtain ⟨a, w', hpath⟩ := AtWaits.exists_path hresult hprog w
  exact ⟨a, w', hpath.mono (fun _ _ _ _ hrun => hrun) fun _ ho hwait => ho (.inl hwait)⟩

/-- The next operation of a task that has worked so far. -/
lemma Step.op_of_put {c c' : Cluster} {o : Op} {next : o.Res → Prog kind.Out} {r : o.Res}
    {shared shared' : Shared} {net net' : List Packet}
    (hc : c' = c.put q (p.at slot shared ⟨kind, .step o next⟩) net) (halive : p.stopped = false)
    (hrun : p.run c.clock o ⟨shared, net⟩ r ⟨shared', net'⟩) :
    Step c' (.op q slot kind o r) (c.put q (p.at slot shared' ⟨kind, next r⟩) net') := by
  subst hc
  have hp : (c.put q (p.at slot shared ⟨kind, .step o next⟩) net).procs q =
      some (p.at slot shared ⟨kind, .step o next⟩) := if_pos rfl
  have hstep := Step.op _ q _ slot kind o next r shared' net' hp halive (Process.tasks_at ..) hrun
  have hput : c.put q (p.at slot shared' ⟨kind, next r⟩) net' =
      (c.put q (p.at slot shared ⟨kind, .step o next⟩) net).put q
        ((p.at slot shared ⟨kind, .step o next⟩).at slot shared' ⟨kind, next r⟩) net' := by simp
  rw [hput]
  exact hstep

/-! ## Where a task begins and ends -/

/-- A server with room for one more task takes a request in. -/
lemma exists_accept {b : NodeId} {conn : Conn} {body : TcpBody} (net : List Packet) (hrun : Run h)
    (hp : h.now.procs b = some p) (hrunning : p.stopped = false) (hloops : p.aborted = false)
    (haddr : conn.server = p.node.addr) (hnet : h.now.net = .request conn body :: net) :
    ∃ n, p.tasks (.spawned n) = none ∧ Step h.now (.accept b conn body)
      (h.now.put b (p.at (.spawned n) p.shared (Task.start p.node (.serve conn body))) net) := by
  obtain ⟨n, hfree⟩ := hrun.exists_free hp
  have hmem : .request conn body ∈ h.now.net := by simp [hnet]
  have hstep := Step.accept h.now b p n conn body hp hrunning hloops hfree haddr hmem
  have herase : h.now.net.erase (.request conn body) = net := by simp [hnet]
  rw [herase] at hstep
  exact ⟨n, hfree, hstep⟩

/-- A node whose receive loop is idle gets a datagram. -/
lemma exists_receive {src : SocketAddr} {body : UdpBody} (net : List Packet)
    (hp : h.now.procs q = some p) (hrunning : p.stopped = false) (hloops : p.aborted = false)
    (hidle : p.tasks .udp = none) (hnet : h.now.net = .udp src p.node.addr body :: net) :
    Step h.now (.receive q src body)
      (h.now.put q (p.at .udp p.shared (Task.start p.node (.datagram src body))) net) := by
  have hmem : .udp src p.node.addr body ∈ h.now.net := by simp [hnet]
  have hstep := Step.receive h.now q p src body hp hrunning hloops hidle hmem
  have herase : h.now.net.erase (.udp src p.node.addr body) = net := by simp [hnet]
  rw [herase] at hstep
  exact hstep

/-- A client whose reply has come in reads it. -/
lemma exists_read {conn : Conn} {body : TcpBody} {shared : Shared}
    {rest : Option TcpBody → Prog kind.Out} {net : List Packet}
    (hp : h.now.procs q = some (p.at slot shared ⟨kind, .step (.readFrame conn) rest⟩))
    (hrunning : p.stopped = false) (hnet : h.now.net = .response conn body :: net) :
    Step h.now (.op q slot kind (.readFrame conn) (some body))
      (h.now.put q (p.at slot shared ⟨kind, rest (some body)⟩) net) := by
  refine Step.op_of_put (Cluster.put_self hp).symm hrunning ⟨?_, ?_⟩
  · simp [hnet]
  · simp [hnet]

/-- A task that is done makes way for what comes after it. -/
lemma exists_finish {shared : Shared} {out : kind.Out} (p' : Process) (hrun : Run h)
    (hp : h.now.procs q = some (p.at slot shared ⟨kind, .ret out⟩)) (hrunning : p.stopped = false)
    (hafter : ∀ free, (p.at slot shared ⟨kind, .ret out⟩).finish slot free kind out = p') :
    Step h.now (.finish q slot kind out) (h.now.put q p' h.now.net) := by
  obtain ⟨free, hfree⟩ := hrun.exists_free hp
  have hstep := Step.finish h.now q _ slot kind out free hp hrunning (Process.tasks_at ..) hfree
  rw [hafter] at hstep
  exact hstep

end Dalila
