import Dalila.Lib.Simulation
import Dalila.Members

/-!
# Looking on

`Cluster.apart` is a cluster without the clients that run `dalila members`, the tasks that answer
them and the frames these are in. The file proves that each step of a run is a step of what is left
or no step at all, so that looking on changes nothing (`looking_on_changes_nothing`).
-/

namespace Dalila

open Program

/-! ## What is done for clients outside -/

/-- Nobody in the cluster opened it. -/
def Conn.outside (conn : Conn) : Bool :=
  conn.client.isNone

/-- The packet is a frame of a connection that somebody outside has opened. -/
def Packet.outside : Packet → Bool
  | .udp _ _ _ => false
  | .request conn _ | .response conn _ => conn.outside

/-- The task serves a connection that somebody outside has opened. -/
def Kind.outside : Kind → Bool
  | .serve conn _ => conn.outside
  | _ => false

/-- A step that only concerns clients outside. -/
def Label.outside : Label → Bool
  | .query _ => true
  | .lose packet | .duplicate packet => packet.outside
  | .accept _ conn _ => conn.outside
  | .begins _ _ kind | .op _ _ kind _ _ | .finish _ _ kind _ => kind.outside
  | _ => false

/-- The process without the tasks that serve clients outside. -/
def Process.apart (p : Process) : Process :=
  { p with tasks := fun slot => (p.tasks slot).filter fun task => !task.kind.outside }

/-- The cluster as if nobody had asked. -/
def Cluster.apart (c : Cluster) : Cluster where
  clock := c.clock
  procs q := (c.procs q).map Process.apart
  net := c.net.filter fun packet => !packet.outside

namespace Process

variable {p : Process} {slot : Slot} {task : Task}

@[simp] lemma apart_node (p : Process) : p.apart.node = p.node := rfl

@[simp] lemma apart_shared (p : Process) : p.apart.shared = p.shared := rfl

@[simp] lemma apart_tasks (p : Process) (slot : Slot) :
    p.apart.tasks slot = (p.tasks slot).filter fun task => !task.kind.outside := rfl

lemma apart_tasks_none (h : p.tasks slot = none) : p.apart.tasks slot = none := by
  rw [apart_tasks, h]
  rfl

lemma apart_tasks_some (h : p.tasks slot = some task) (hkind : task.kind.outside = false) :
    p.apart.tasks slot = some task := by
  rw [apart_tasks, h]
  simp [hkind]

lemma apart_tasks_outside (h : p.tasks slot = some task) (hkind : task.kind.outside = true) :
    p.apart.tasks slot = none := by
  rw [apart_tasks, h]
  simp [hkind]

/-- Setting a task and leaving out those for clients outside can be done in either order. -/
lemma apart_set (p : Process) (slot : Slot) (task : Option Task) :
    (p.set slot task).apart = p.apart.set slot (task.filter fun task => !task.kind.outside) := by
  have htasks : (p.set slot task).apart.tasks =
      (p.apart.set slot (task.filter fun task => !task.kind.outside)).tasks := by
    funext slot'
    rw [apart_tasks, tasks_set, tasks_set, apart_tasks]
    by_cases hslot : slot' = slot
    · rw [if_pos hslot, if_pos hslot]
    · rw [if_neg hslot, if_neg hslot]
  exact congrArg (fun tasks => { p with tasks }) htasks

lemma apart_set_none (p : Process) (slot : Slot) :
    (p.set slot none).apart = p.apart.set slot none := p.apart_set slot none

lemma apart_set_some (hkind : task.kind.outside = false) :
    (p.set slot (some task)).apart = p.apart.set slot (some task) := by
  have htask : (some task).filter (fun task => !task.kind.outside) = some task := by simp [hkind]
  rw [apart_set, htask]

/-- A task for somebody outside leaves no trace of its own. -/
lemma apart_set_outside (hslot : p.apart.tasks slot = none) (hkind : task.kind.outside = true) :
    (p.set slot (some task)).apart = p.apart := by
  have htask : (some task).filter (fun task => !task.kind.outside) = none := by simp [hkind]
  rw [apart_set, htask, set, ← hslot, Function.update_eq_self]

end Process

/-! ## Steps that only concern others -/

variable {c c' : Cluster} {l : Label} {h : Trace} {q : NodeId} {p : Process} {slot : Slot}
  {kind : Kind} {conn : Conn}

/-- Changing a process and leaving out what is for clients outside can be done in either order. -/
lemma Cluster.apart_setProc (c : Cluster) (q : NodeId) (p : Process) :
    (c.setProc q p).apart = c.apart.setProc q p.apart := by
  have hprocs : (c.setProc q p).apart.procs = (c.apart.setProc q p.apart).procs := by
    funext q'
    show ((c.setProc q p).procs q').map Process.apart = _
    rw [Cluster.procs_setProc, Cluster.procs_setProc]
    by_cases hq : q' = q
    · rw [if_pos hq, if_pos hq, Option.map_some]
    · rw [if_neg hq, if_neg hq]
      rfl
  exact congrArg (fun procs => { c.apart with procs }) hprocs

lemma Cluster.apart_procs (hp : c.procs q = some p) : c.apart.procs q = some p.apart :=
  congrArg (Option.map Process.apart) hp

lemma Cluster.setProc_self (hp : c.procs q = some p) : c.setProc q p = c := by
  unfold Cluster.setProc
  rw [← hp, Function.update_eq_self]

section

variable {packet : Packet}

lemma mem_filter_inside {net : List Packet} (hmem : packet ∈ net)
    (hinside : packet.outside = false) :
    packet ∈ net.filter fun packet => !packet.outside :=
  List.mem_filter.mpr ⟨hmem, by simp [hinside]⟩

lemma filter_cons_inside (hinside : packet.outside = false) (net : List Packet) :
    (packet :: net).filter (fun packet => !packet.outside) =
      packet :: net.filter fun packet => !packet.outside :=
  List.filter_cons_of_pos (by simp [hinside])

lemma filter_cons_outside (houtside : packet.outside = true) (net : List Packet) :
    (packet :: net).filter (fun packet => !packet.outside) =
      net.filter fun packet => !packet.outside :=
  List.filter_cons_of_neg (by simp [houtside])

/-- Taking away a frame that is left out anyway changes nothing. -/
lemma filter_erase_outside (houtside : packet.outside = true) (net : List Packet) :
    (net.erase packet).filter (fun packet => !packet.outside) =
      net.filter fun packet => !packet.outside := by
  rw [← List.erase_filter, List.erase_of_not_mem]
  simp [houtside]

lemma Cluster.filter_cons (hinside : packet.outside = false) (c : Cluster) :
    (packet :: c.net).filter (fun packet => !packet.outside) = packet :: c.apart.net :=
  filter_cons_inside hinside c.net

lemma Cluster.filter_erase (c : Cluster) (packet : Packet) :
    (c.net.erase packet).filter (fun packet => !packet.outside) = c.apart.net.erase packet :=
  List.erase_filter.symm

end

/-- An operation for the cluster's own sake does not see what goes to clients outside. -/
lemma Op.Run.apart {node : LocalNode} {now : Instant} {o : Op} {r : o.Res}
    {shared shared' : Shared} {net net' : List Packet} {a : Trace}
    (hop : o.Run node now ⟨shared, net⟩ r ⟨shared', net'⟩)
    (hdeals : (dealing node kind a).pre o h) (hkind : kind.outside = false) :
    o.Run node now ⟨shared, net.filter fun packet => !packet.outside⟩ r
      ⟨shared', net'.filter fun packet => !packet.outside⟩ := by
  cases o with
  | sendUdp target body =>
    cases r with
    | false =>
      obtain ⟨rfl, rfl⟩ := World.mk.inj hop
      rfl
    | true =>
      obtain ⟨rfl, rfl⟩ := World.mk.inj hop
      exact congrArg (World.mk _) (filter_cons_inside rfl net)
  | writeRequest conn body =>
    cases r with
    | false =>
      obtain ⟨rfl, rfl⟩ := World.mk.inj hop
      rfl
    | true =>
      obtain ⟨rfl, rfl⟩ := World.mk.inj hop
      have hinside : (Packet.request conn body).outside = false := by
        simp [Packet.outside, Conn.outside, hdeals.1]
      exact congrArg (World.mk _) (filter_cons_inside hinside net)
  | writeResponse conn reply =>
    cases r with
    | false =>
      obtain ⟨rfl, rfl⟩ := World.mk.inj hop
      rfl
    | true =>
      obtain ⟨rfl, rfl⟩ := World.mk.inj hop
      obtain ⟨body, rfl, _⟩ := hdeals
      have hinside : (Packet.response conn reply).outside = false := hkind
      exact congrArg (World.mk _) (filter_cons_inside hinside net)
  | connect addr =>
    cases r with
    | none =>
      obtain ⟨rfl, rfl⟩ := World.mk.inj hop
      rfl
    | some conn =>
      obtain ⟨hconn, hworld⟩ := hop
      obtain ⟨rfl, rfl⟩ := World.mk.inj hworld
      exact ⟨hconn, rfl⟩
  | readFrame conn =>
    cases r with
    | none =>
      obtain ⟨rfl, rfl⟩ := World.mk.inj hop
      rfl
    | some body =>
      obtain ⟨hmem, hworld⟩ := hop
      obtain ⟨rfl, rfl⟩ := World.mk.inj hworld
      have hclient : conn.client = some node.id := hdeals
      have hinside : conn.outside = false := by simp [Conn.outside, hclient]
      exact ⟨mem_filter_inside hmem hinside, congrArg (World.mk _) List.erase_filter.symm⟩
  -- the others do not reach the network
  | _ => simp_all [Op.Run]

/-- What comes after a task of the cluster's own is of the cluster's own. -/
lemma Process.apart_finish {out : kind.Out} {free : ℕ} (hkind : kind.outside = false) :
    (p.finish slot free kind out).apart = p.apart.finish slot free kind out := by
  have hstart : ∀ (p : Process) (slot : Slot) (kind : Kind), kind.outside = false →
      (p.set slot (some (Task.start p.node kind))).apart =
        p.apart.set slot (some (Task.start p.node kind)) := fun p slot kind hkind =>
    apart_set_some hkind
  cases kind with
  | datagram src body =>
    cases out with
    | none => exact p.apart_set_none slot
    | some relay =>
      show ((p.set slot none).set _ _).apart = (p.apart.set slot none).set _ _
      rw [← p.apart_set_none slot]
      exact apart_set_some rfl
  | relay | serve | sync | health | reaping => exact p.apart_set_none slot
  | join seeds =>
    cases out with
    | true => exact congrArg (fun p : Process => { p with serving := true }) (p.apart_set_none slot)
    | false => rfl
  | leaving =>
    exact congrArg (fun p : Process => { p with aborted := true }) (hstart p slot .announcing rfl)
  | announcing => rfl
  | choosing order =>
    obtain ⟨target, rest⟩ := out
    cases target with
    | none =>
      exact congrArg (fun p : Process => { p with order := rest }) (hstart p slot .sweeping rfl)
    | some target =>
      exact congrArg (fun p : Process => { p with order := rest })
        (hstart p slot (.probing target) rfl)
  | probing target => exact hstart p slot (.judging target out) rfl
  | judging target acked => exact hstart p slot .sweeping rfl
  | sweeping => exact hstart p slot .reaping rfl

/-- A step for the cluster's own sake can be taken by the cluster as if nobody had asked. -/
lemma Step.apart (hrun : Run h) (hstep : Step h.now l c) (hl : l.outside = false) :
    Step h.now.apart l c.apart := by
  cases hstep with
  | tick elapsed => exact .tick h.now.apart elapsed
  | start node seeds hnew hmay =>
    have hnone : h.now.apart.procs node.id = none := congrArg (Option.map Process.apart) hnew
    have hprocess : (Process.new node seeds).apart = Process.new node seeds := by
      have htasks : (Process.new node seeds).apart.tasks = (Process.new node seeds).tasks := by
        funext slot
        simp only [Process.apart_tasks, Process.new]
        split_ifs
        · rfl
        · rfl
      exact congrArg (fun tasks => { Process.new node seeds with tasks }) htasks
    rw [Cluster.apart_setProc, hprocess]
    exact .start h.now.apart node seeds hnone hmay
  | lose packet hnet =>
    have hlost := Step.lose h.now.apart packet (mem_filter_inside hnet hl)
    rw [← Cluster.filter_erase] at hlost
    exact hlost
  | duplicate packet hnet =>
    have hcopied := Step.duplicate h.now.apart packet (mem_filter_inside hnet hl)
    rw [← Cluster.filter_cons hl h.now] at hcopied
    exact hcopied
  | query conn hconn => exact absurd hl (by simp [Label.outside])
  | begins q p slot kind hp hstopped haborted hidle hbegins =>
    have hkind : (Task.start p.node kind).kind.outside = false := hl
    rw [Cluster.apart_setProc, Process.apart_set_some hkind]
    refine .begins h.now.apart q p.apart slot kind (Cluster.apart_procs hp) hstopped haborted
      (Process.apart_tasks_none hidle) ?_
    cases hbegins with
    | sync hserving => exact .sync hserving
    | detector hserving => exact .detector hserving
    | health ready => exact .health ready
    | shutdown hserving => exact .shutdown hserving
  -- datagrams are the cluster's own, so taking one is the same step there
  | receive q p src body hp hstopped haborted hidle hnet =>
    have hreceived := Step.receive h.now.apart q p.apart src body (Cluster.apart_procs hp) hstopped
      haborted (Process.apart_tasks_none hidle) (mem_filter_inside hnet rfl)
    have hkind : (Task.start p.node (.datagram src body)).kind.outside = false := rfl
    rw [← Cluster.filter_erase, Process.apart_node, ← Process.apart_set_some hkind,
      ← Cluster.apart_setProc] at hreceived
    exact hreceived
  | accept q p n conn body hp hstopped haborted hidle hserver hnet =>
    have haccepted := Step.accept h.now.apart q p.apart n conn body (Cluster.apart_procs hp)
      hstopped haborted (Process.apart_tasks_none hidle) hserver (mem_filter_inside hnet hl)
    have hkind : (Task.start p.node (.serve conn body)).kind.outside = false := hl
    rw [← Cluster.filter_erase, Process.apart_node, ← Process.apart_set_some hkind,
      ← Cluster.apart_setProc] at haccepted
    exact haccepted
  | op q p slot kind o next r shared net hp hstopped htask hop =>
    -- a task of the cluster works on connections of the cluster only
    obtain ⟨a, _, _, hdeals⟩ := hrun.made.2 q p slot _ hp hstopped htask
    have hmoved := Step.op h.now.apart q p.apart slot kind o next r shared _
      (Cluster.apart_procs hp) hstopped (Process.apart_tasks_some htask hl)
      (hop.apart hdeals.step.1 hl)
    have hkind : (Task.mk kind (next r)).kind.outside = false := hl
    have hset : ({ p with shared }.set slot (some ⟨kind, next r⟩)).apart =
        ({ p.apart with shared } : Process).set slot (some ⟨kind, next r⟩) :=
      Process.apart_set_some hkind
    rw [← hset, ← Cluster.apart_setProc] at hmoved
    exact hmoved
  | finish q p slot kind out free hp hstopped htask hfree =>
    rw [Cluster.apart_setProc, Process.apart_finish hl]
    exact .finish h.now.apart q p.apart slot kind out free (Cluster.apart_procs hp) hstopped
      (Process.apart_tasks_some htask hl) (Process.apart_tasks_none hfree)
  | cancel q p slot hp hstopped haborted hslot =>
    rw [Cluster.apart_setProc, Process.apart_set_none]
    exact .cancel h.now.apart q p.apart slot (Cluster.apart_procs hp) hstopped haborted hslot
  | stop q p hp =>
    rw [Cluster.apart_setProc]
    exact .stop h.now.apart q p.apart (Cluster.apart_procs hp)

/-! ## Steps that only concern clients outside -/

/-- Reads, or replies. -/
def Op.looks : Op → Bool
  | .current | .snapshot | .writeResponse _ _ => true
  | _ => false

abbrev Looks {α : Type} (prog : Prog α) : Prop :=
  AtWaits (fun o => ¬ o.looks = true) (fun _ => False) prog

/-- Serving `dalila members` reads the incarnation and the table, and writes a reply. -/
lemma looks_serve (node : LocalNode) (conn : Conn) : Looks (serve node conn .membersRequest) := by
  have hlooks : ∀ {α : Type} {o : Op} {f : o.Res → Prog α}, o.looks = true →
      (∀ r, Looks (f r)) → Looks (Op.call o >>= f) := fun ho hf =>
    AtWaits.call_bind (fun hnot => absurd ho hnot) hf
  exact hlooks rfl fun _ => hlooks rfl fun _ => hlooks rfl fun _ => trivial

/-- A client outside only ever asks for the members, and then the task that serves it looks. -/
lemma Run.looks (hrun : Run h) (hp : h.now.procs q = some p) (halive : p.stopped = false)
    {task : Task} (htask : p.tasks slot = some task) (hkind : task.kind.outside = true) :
    Looks task.prog := by
  have hall : ∀ q p slot task, h.now.procs q = some p → p.stopped = false →
      p.tasks slot = some task → task.kind.outside = true → Looks task.prog := by
    refine hrun.invariant (P := fun c => ∀ q p slot task, c.procs q = some p →
      p.stopped = false → p.tasks slot = some task → task.kind.outside = true →
        Looks task.prog) ?_ ?_
    · exact fun q p slot task hp => absurd hp (by simp [Cluster.empty])
    · intro h l c hrun ih hstep q p' slot task hp' halive htask hkind
      cases Task.arises hstep hp' halive htask with
      | kept p _ hp halive htask₀ => exact ih q p slot task hp halive htask₀ hkind
      | moved p kind o next r net hp halive htask₀ => exact (ih q p slot _ hp halive htask₀ hkind).2 r
      | accepted p n conn body hp halive hslot hl hnet =>
        have hasked : Asked h conn body := hrun.made.1 _ hnet
        cases hasked with
        | request id _ _ _ _ hclient =>
          have houtside : conn.outside = true := hkind
          exact absurd houtside (by simp [Conn.outside, hclient])
        | query => exact looks_serve p'.node conn
      | followed p slot₀ kind₀ out free kind _ _ _ _ hnext =>
        have houtside : kind.outside = true := hkind
        cases hnext <;> exact absurd houtside (by simp [Kind.outside])
      | begun p kind _ _ _ _ hbegins =>
        have houtside : kind.outside = true := hkind
        cases hbegins <;> exact absurd houtside (by simp [Kind.outside])
      | received => exact absurd hkind (by simp [Task.start, Kind.outside])
      | joining => exact absurd hkind (by simp [Task.start, Kind.outside])
  exact hall q p slot task hp halive htask hkind

/-- What a task for a client outside does is not seen by the others. -/
lemma Op.Run.outside {node : LocalNode} {now : Instant} {o : Op} {r : o.Res}
    {shared shared' : Shared} {net net' : List Packet} {a : Trace}
    (hop : o.Run node now ⟨shared, net⟩ r ⟨shared', net'⟩)
    (hdeals : (dealing node kind a).pre o h) (hlooks : o.looks = true)
    (hkind : kind.outside = true) :
    shared' = shared ∧ net'.filter (fun packet => !packet.outside) =
      net.filter fun packet => !packet.outside := by
  cases o with
  | current | snapshot =>
    obtain ⟨rfl, rfl⟩ := World.mk.inj hop.2
    exact ⟨rfl, rfl⟩
  | writeResponse conn reply =>
    cases r with
    | false =>
      obtain ⟨rfl, rfl⟩ := World.mk.inj hop
      exact ⟨rfl, rfl⟩
    | true =>
      obtain ⟨rfl, rfl⟩ := World.mk.inj hop
      obtain ⟨body, rfl, _⟩ := hdeals
      have houtside : (Packet.response conn reply).outside = true := hkind
      exact ⟨rfl, filter_cons_outside houtside net⟩
  | _ => exact absurd hlooks (by simp [Op.looks])

/-- A step for a client outside changes nothing for the others. -/
lemma Step.apart_eq (hrun : Run h) (hstep : Step h.now l c) (hl : l.outside = true) :
    c.apart = h.now.apart := by
  have hself : ∀ {q p p' net}, h.now.procs q = some p → p'.apart = p.apart →
      net.filter (fun packet => !packet.outside) =
        h.now.net.filter (fun packet => !packet.outside) →
      ({ h.now.setProc q p' with net } : Cluster).apart = h.now.apart := by
    intro q p p' net hp hp' hnet
    have hprocs : (h.now.setProc q p').apart = h.now.apart := by
      rw [Cluster.apart_setProc, hp', Cluster.setProc_self (Cluster.apart_procs hp)]
    calc ({ h.now.setProc q p' with net } : Cluster).apart
      _ = { (h.now.setProc q p').apart with net := net.filter fun packet => !packet.outside } := rfl
      _ = { h.now.apart with net := h.now.net.filter fun packet => !packet.outside } := by
        rw [hprocs, hnet]
      _ = h.now.apart := rfl
  cases hstep with
  | query conn hconn =>
    have houtside : (Packet.request conn .membersRequest).outside = true := by
      simp [Packet.outside, Conn.outside, hconn]
    exact congrArg (fun net => { h.now.apart with net }) (filter_cons_outside houtside h.now.net)
  | lose packet hnet =>
    exact congrArg (fun net => { h.now.apart with net }) (filter_erase_outside hl h.now.net)
  | duplicate packet hnet =>
    exact congrArg (fun net => { h.now.apart with net }) (filter_cons_outside hl h.now.net)
  | begins q p slot kind hp hstopped haborted hidle hbegins =>
    have houtside : kind.outside = true := hl
    cases hbegins <;> exact absurd houtside (by simp [Kind.outside])
  | accept q p n conn body hp hstopped haborted hidle hserver hnet =>
    have houtside : (Packet.request conn body).outside = true := hl
    have hkind : (Task.start p.node (.serve conn body)).kind.outside = true := hl
    exact hself hp (Process.apart_set_outside (Process.apart_tasks_none hidle) hkind)
      (filter_erase_outside houtside h.now.net)
  | op q p slot kind o next r shared net hp hstopped htask hop =>
    obtain ⟨a, _, _, hdeals⟩ := hrun.made.2 q p slot _ hp hstopped htask
    have hkind : (Task.mk kind (next r)).kind.outside = true := hl
    have hlooks : o.looks = true := by
      by_contra hnot
      exact (hrun.looks hp hstopped htask hl).1 hnot
    obtain ⟨rfl, hnet⟩ := hop.outside hdeals.step.1 hlooks hl
    exact hself hp (Process.apart_set_outside (Process.apart_tasks_outside htask hl) hkind) hnet
  | finish q p slot kind out free hp hstopped htask hfree =>
    cases kind with
    | serve conn body =>
      have hidle : p.apart.tasks slot = none := Process.apart_tasks_outside htask hl
      refine hself hp ?_ rfl
      show (p.set slot none).apart = p.apart
      rw [Process.apart_set_none, Process.set, ← hidle, Function.update_eq_self]
    | _ => exact absurd hl (by simp [Label.outside, Kind.outside])
  | _ => exact absurd hl (by simp [Label.outside])

/-! ## In every run -/

/-- What happens for the cluster's own sake. -/
def Label.inside (l : Label) : Option Label :=
  if l.outside then none else some l

/-- What is left of a run is a run. -/
lemma apart_simulates :
    History.Simulates Step (fun c => c = .empty) Label.inside Step (fun c => c = .empty) some
      fun c c' => c' = c.apart where
  start c hc := by
    subst hc
    exact ⟨.empty, rfl, rfl⟩
  step {h h' l c} hrun hrun' hapart hstep := by
    have hrun : Run h := hrun
    cases hl : l.outside with
    | false =>
      refine ⟨h'.push l c.apart, .single ?_, ?_, rfl⟩
      · rw [hapart]
        exact hstep.apart hrun hl
      · rw [History.seen_push, Label.inside, hl]
        rfl
    | true =>
      refine ⟨h', .refl h', ?_, ?_⟩
      · rw [Label.inside, hl]
        rfl
      · rw [hstep.apart_eq hrun hl]
        exact hapart

lemma filterMap_inside (past : List (Moment Cluster Label)) :
    past.filterMap (fun m => m.label.inside) =
      (past.map Moment.label).filter fun l => !l.outside := by
  induction past with
  | nil => rfl
  | cons m past ih =>
    rw [List.filterMap_cons, List.map_cons, List.filter_cons, ih]
    cases hl : m.label.outside with
    | true => simp [Label.inside, hl]
    | false => simp [Label.inside, hl]

/-- Looking on changes nothing. However often `dalila members` is run, on whatever nodes, and
whatever becomes of its frames, the same steps for the cluster's own sake could have been taken
without it; and they would have left every node with the same table, queue and incarnation, the same
tasks but those that serve such clients, and in the network everything but their frames. -/
theorem looking_on_changes_nothing (hrun : Run h) :
    ∃ h', Run h' ∧ h'.past.map Moment.label = (h.past.map Moment.label).filter
      (fun l => !l.outside) ∧ h'.now = h.now.apart := by
  obtain ⟨h', hrun', hseen, hapart⟩ := apart_simulates.exists_run hrun
  refine ⟨h', hrun', ?_, hapart⟩
  calc h'.past.map Moment.label
    _ = h'.past.filterMap fun m => some m.label := (congrFun List.filterMap_eq_map _).symm
    _ = h.past.filterMap fun m => m.label.inside := hseen
    _ = (h.past.map Moment.label).filter fun l => !l.outside := filterMap_inside h.past

/-- A client asks one of two nodes that know each other, and its reply is on the way. -/
theorem looking_on_changes_nothing_listed : ∃ (h h' : Trace) (reply : Packet), Run h ∧ Run h' ∧
    reply.outside = true ∧ reply ∈ h.now.net ∧ reply ∉ h'.now.net ∧
    (∃ conn, Label.accept alpha.id conn .membersRequest ∈ h.past.map Moment.label) ∧
    (∀ l ∈ h'.past.map Moment.label, l.outside = false) ∧
    (∃ p p' : Process, h.now.procs alpha.id = some p ∧ h'.now.procs alpha.id = some p' ∧
      p'.shared = p.shared ∧ p.shared.table.len = 1) ∧ h'.now = h.now.apart := by
  obtain ⟨h₀, shared, _, hrun₀, hnow₀, _, _, hmembers, _⟩ :=
    exists_pair alpha_ne_beta alpha_mayStart beta_mayStart
  have hp : h₀.now.procs alpha.id = some { Process.new alpha [] with shared := shared } := by
    rw [hnow₀]
    exact Cluster.procs_pair_left alpha_ne_beta
  obtain ⟨h, p, hlater, haccepts, hp', hsame, hreply⟩ := exists_listing hrun₀ hp rfl rfl
  have hrun : Run h := hrun₀.extends hlater
  obtain ⟨h', hrun', hlabels, hapart⟩ := looking_on_changes_nothing hrun
  refine ⟨h, h', _, hrun, hrun', rfl, hreply, ?_, ⟨_, haccepts⟩, fun l hl => ?_,
    ⟨p, p.apart, hp', ?_, rfl, ?_⟩, hapart⟩
  · rw [hapart]
    exact fun hmem => absurd (List.mem_filter.mp hmem).2 (by simp [Packet.outside, Conn.outside])
  · rw [hlabels] at hl
    simpa using (List.mem_filter.mp hl).2
  · rw [hapart]
    exact congrArg (Option.map Process.apart) hp'
  · rw [hsame]
    show shared.table.members.length = 1
    rw [hmembers]
    rfl

end Dalila
