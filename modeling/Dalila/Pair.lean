import Dalila.Join
import Dalila.Turn

/-!
# Two nodes

Runs of the smallest clusters there are, for the results to be seen at work:
- `exists_pair` and `exists_trio`: two nodes that know each other, and a third that has joined one
  of them
- `exists_unready`: the health check of one of two finds its app not ready
- `exists_goodbye`: one of two leaves, and the other is told
- `exists_cut`: what a cut between two that lasts does to both
-/

namespace Dalila

/-- Two processes between turns, with nothing in flight. -/
def Cluster.pair (clock : Instant) (node node' : LocalNode) (shared shared' : Shared) : Cluster where
  clock := clock
  procs := Function.update
    (Function.update (fun _ => none) node.id (some { Process.new node [] with shared := shared }))
    node'.id (some { Process.new node' [] with shared := shared' })
  net := []

variable {node node' : LocalNode} {clock : Instant} {shared shared' : Shared} {h : Trace}

/-- In a cluster of two it does not matter which comes first. -/
lemma Cluster.pair_comm (hne : node.id ≠ node'.id) :
    Cluster.pair clock node node' shared shared' = .pair clock node' node shared' shared := by
  unfold pair
  rw [Function.update_comm hne]

lemma Cluster.procs_pair_right :
    (Cluster.pair clock node node' shared shared').procs node'.id =
      some { Process.new node' [] with shared := shared' } := by
  simp [pair]

lemma Cluster.procs_pair_left (hne : node.id ≠ node'.id) :
    (Cluster.pair clock node node' shared shared').procs node.id =
      some { Process.new node [] with shared := shared } := by
  simp [pair, hne]

lemma Cluster.procs_pair_other {q : NodeId} (hq : q ≠ node.id) (hq' : q ≠ node'.id) :
    (Cluster.pair clock node node' shared shared').procs q = none := by
  simp [pair, hq, hq']

lemma Cluster.eq_or_eq_of_pair {q : NodeId} {p : Process}
    (hp : (Cluster.pair clock node node' shared shared').procs q = some p) :
    q = node.id ∨ q = node'.id := by
  by_contra hother
  rw [not_or] at hother
  rw [Cluster.procs_pair_other hother.1 hother.2] at hp
  exact absurd hp (by simp)

/-- A cluster of two after one of them has changed. -/
lemma Cluster.put_pair_left (hne : node.id ≠ node'.id) (shared₁ : Shared) :
    (Cluster.pair clock node node' shared shared').put node.id
      { Process.new node [] with shared := shared₁ } [] =
      .pair clock node node' shared₁ shared' := by
  rw [pair_comm hne, pair_comm hne]
  simp [pair, put, setProc]

/-! ### Two of them -/

/-- The first node of all examples. -/
def alpha : LocalNode where
  id := ⟨Vector.replicate 16 1⟩
  addr := ⟨.v4 (Vector.replicate 4 1), 7946⟩
  tags := []

def beta : LocalNode where
  id := ⟨Vector.replicate 16 2⟩
  addr := ⟨.v4 (Vector.replicate 4 2), 7946⟩
  tags := []

/-- The third, with a tag. -/
def gamma : LocalNode where
  id := ⟨Vector.replicate 16 3⟩
  addr := ⟨.v4 (Vector.replicate 4 3), 7946⟩
  tags := []

lemma alpha_ne_beta : alpha.id ≠ beta.id := by decide

lemma alpha_mayStart : Process.mayStart alpha := ⟨by decide, rfl⟩

lemma beta_mayStart : Process.mayStart beta := ⟨by decide, rfl⟩

lemma gamma_mayStart : Process.mayStart gamma := ⟨by decide, rfl⟩

/-! ## Getting to know each other -/

/-- A table takes in an alive record about somebody it does not know. -/
lemma MemberTable.merge_unknown {table : MemberTable} {me : NodeId} {rumor : WireMember}
    (hne : rumor.id ≠ me) (hnone : table.get rumor.id = none)
    (haddr : rumor.addr.ip.isUnspecified = false) (halive : rumor.state = .alive) :
    table.merge clock rumor me = (.added, table.put (rumor.toMember clock)) := by
  unfold merge
  rw [if_neg hne, hnone]
  simp [haddr, halive]

lemma MemberTable.merge_new {me : NodeId} {rumor : WireMember} (hne : rumor.id ≠ me)
    (haddr : rumor.addr.ip.isUnspecified = false) (halive : rumor.state = .alive) :
    MemberTable.new.merge clock rumor me =
      (.added, MemberTable.new.put (rumor.toMember clock)) :=
  merge_unknown hne (get_new _) haddr halive

/-- A table that has merged one alive record, about somebody else. -/
lemma MemberTable.members_mergeAll_one {me : NodeId} {rumor : WireMember} (hne : rumor.id ≠ me)
    (haddr : rumor.addr.ip.isUnspecified = false) (halive : rumor.state = .alive) :
    (MemberTable.new.mergeAll me [(rumor, clock)]).members = [rumor.toMember clock] := by
  show (MemberTable.new.merge clock rumor me).2.members = _
  rw [merge_new hne haddr halive]
  simp [put, new]

/-- Any two nodes can make a cluster. -/
theorem exists_pair (hne : node.id ≠ node'.id) (hmay : Process.mayStart node)
    (hmay' : Process.mayStart node') :
    ∃ (h : Trace) (shared shared' : Shared), Run h ∧
      h.now = .pair 0 node node' shared shared' ∧
      shared.guarded = .new ∧ shared'.guarded = .new ∧
      shared.table.members = [(node'.aliveRumor Guarded.new.current).toMember 0] ∧
      shared'.table.members = [(node.aliveRumor Guarded.new.current).toMember 0] := by
  set started := (History.init Cluster.empty).push (Label.start node [])
    (Cluster.empty.setProc node.id (.new node [])) with hstarted
  have hrun : Run started := ⟨.empty, rfl, .single (.start .empty node [] rfl hmay)⟩
  have hnew : started.now.procs node'.id = none := by
    rw [hstarted, History.now_push, Cluster.procs_setProc, if_neg hne.symm]
    rfl
  have hseed : started.now.procs node.id = some (.new node []) := if_pos rfl
  obtain ⟨h, shared, shared', hstarts, _, _, hnow, habsorbed, habsorbed'⟩ := exists_join
    (s := node.id) hrun hseed rfl rfl hnew hmay'
  have hguarded : shared.guarded = .new := by
    refine habsorbed.undoubted fun r hr _ => ?_
    obtain rfl := List.mem_singleton.mp hr
    rfl
  have hguarded' : shared'.guarded = .new := by
    refine habsorbed'.undoubted fun r hr _ => ?_
    obtain rfl := List.mem_singleton.mp hr
    rfl
  refine ⟨h, shared, shared', hrun.extends hstarts.before, ?_, hguarded, hguarded', ?_, ?_⟩
  · rw [hnow, hstarted]
    simp [Cluster.pair, Cluster.put, Cluster.setProc, Cluster.empty]
  · rw [habsorbed.table]
    exact MemberTable.members_mergeAll_one hne.symm hmay'.1 rfl
  · rw [habsorbed'.table, hguarded]
    exact MemberTable.members_mergeAll_one hne hmay.1 rfl

/-! ## A third -/

/-- A third node joins through the first of two, which knows both others then. The second has not
heard of the third. -/
theorem exists_trio : ∃ (h₀ h : Trace) (seed : Process) (known shared shared' shared'' : Shared),
    Run h₀ ∧ h₀.now = .pair 0 alpha beta known shared' ∧
      seed = { Process.new alpha [] with shared := known } ∧
      History.Took Step (.start gamma [alpha.addr]) h₀ h ∧
      Admitted gamma alpha.id seed shared shared'' h₀ h ∧
      shared.guarded = .new ∧ shared'.guarded = .new ∧ shared''.guarded = .new ∧
      known.table.get beta.id = some ((beta.aliveRumor Guarded.new.current).toMember 0) ∧
      shared.table.get beta.id = some ((beta.aliveRumor Guarded.new.current).toMember 0) ∧
      shared.table.get gamma.id = some ((gamma.aliveRumor Guarded.new.current).toMember 0) ∧
      shared'.table.members = [(alpha.aliveRumor Guarded.new.current).toMember 0] := by
  obtain ⟨h₀, known, shared', hrun, hnow, hguarded, hguarded', hmembers, hmembers'⟩ :=
    exists_pair alpha_ne_beta alpha_mayStart beta_mayStart
  have hseed : h₀.now.procs alpha.id = some { Process.new alpha [] with shared := known } := by
    rw [hnow]
    exact Cluster.procs_pair_left alpha_ne_beta
  have hnew : h₀.now.procs gamma.id = none := by
    rw [hnow]
    exact Cluster.procs_pair_other (by decide) (by decide)
  have hclock : h₀.now.clock = 0 := by
    rw [hnow]
    rfl
  obtain ⟨h, shared, shared'', hstarts, hadmitted⟩ :=
    exists_join hrun hseed rfl rfl hnew gamma_mayStart
  have htable :
      shared.table = known.table.put ((gamma.aliveRumor Guarded.new.current).toMember 0) := by
    have hnone : known.table.get gamma.id = none := by
      simp [MemberTable.get, hmembers, LocalNode.aliveRumor, WireMember.toMember]
      decide
    have hne : (gamma.aliveRumor Guarded.new.current).id ≠ alpha.id := by decide
    rw [hadmitted.host.table, hclock]
    exact congrArg Prod.snd (MemberTable.merge_unknown hne hnone gamma_mayStart.1 rfl)
  have hbeta : known.table.get beta.id =
      some ((beta.aliveRumor Guarded.new.current).toMember 0) :=
    MemberTable.get_of_mem (by rw [hmembers]; exact List.mem_singleton_self _)
  refine ⟨h₀, h, _, known, shared, shared', shared'', hrun, hnow, rfl, hstarts, hadmitted, ?_,
    hguarded', ?_, hbeta, ?_, ?_, hmembers'⟩
  · refine (hadmitted.host.undoubted fun r hr _ => ?_).trans hguarded
    rw [List.mem_singleton.mp hr]
    rfl
  · refine hadmitted.guest.undoubted fun r hr _ => ?_
    simp only [hmembers, List.map_cons, List.map_nil, List.mem_cons, List.not_mem_nil,
      or_false] at hr
    rcases hr with rfl | rfl <;> rfl
  · rw [htable, MemberTable.get_put, if_neg (by decide), hbeta]
  · rw [htable]
    exact (MemberTable.get_put _ _ _).trans (if_pos rfl)

/-! ## In the middle of it -/

/-- Two processes, whatever their tasks do, at the beginning of time. -/
def Cluster.duo (p p' : Process) (net : List Packet) : Cluster :=
  (Cluster.empty.put beta.id p' net).put alpha.id p net

namespace Cluster

variable {p p' : Process} {net : List Packet}

@[simp] lemma procs_duo_alpha : (duo p p' net).procs alpha.id = some p := by simp [duo]

@[simp] lemma procs_duo_beta : (duo p p' net).procs beta.id = some p' := by
  simp [duo, alpha_ne_beta.symm]

@[simp] lemma net_duo : (duo p p' net).net = net := rfl

@[simp] lemma clock_duo : (duo p p' net).clock = 0 := rfl

@[simp] lemma put_duo_alpha (q : Process) (net' : List Packet) :
    (duo p p' net).put alpha.id q net' = duo q p' net' := by
  simp [duo, put, setProc]

@[simp] lemma put_duo_beta (q : Process) (net' : List Packet) :
    (duo p p' net).put beta.id q net' = duo p q net' := by
  simp [duo, put, setProc, Function.update_comm alpha_ne_beta]

lemma eq_or_eq_of_duo {id : NodeId} {q : Process} (hq : (duo p p' net).procs id = some q) :
    id = alpha.id ∧ q = p ∨ id = beta.id ∧ q = p' := by
  rw [duo, procs_put, procs_put] at hq
  split_ifs at hq with halpha hbeta
  · exact .inl ⟨halpha, (Option.some.inj hq).symm⟩
  · exact .inr ⟨hbeta, (Option.some.inj hq).symm⟩
  · exact absurd hq (by simp [empty])

end Cluster

/-- What the first of the two can do alone. -/
lemma exists_works_alpha {fine : ∀ o : Op, o.Res → Prop} {p p' : Process} {net : List Packet}
    {slot : Slot} {kind : Kind} {prog prog' : Prog kind.Out} {w : World}
    (hnow : h.now = .duo p p' net) (hrunning : p.stopped = false)
    (htask : p.tasks slot = some ⟨kind, prog⟩)
    (hpath : Program.Path (fun o w r w' => Op.Run p.node 0 o w r w' ∧ fine o r)
      (fun o => ¬ o.awaits = true) prog ⟨p.shared, net⟩ prog' w) :
    ∃ h', LaterBy (fun l => ∃ (o : Op) (r : o.Res), l = .op alpha.id slot kind o r ∧
        ¬ o.awaits = true ∧ fine o r) h h' ∧
      h'.now = .duo (p.at slot w.shared ⟨kind, prog'⟩) p' w.net := by
  have hp : h.now.procs alpha.id = some p := by rw [hnow, Cluster.procs_duo_alpha]
  have hclock : h.now.clock = 0 := by rw [hnow, Cluster.clock_duo]
  have hnet : h.now.net = net := by rw [hnow, Cluster.net_duo]
  obtain ⟨h', hlater, hnow'⟩ := LaterBy.of_path hp hrunning htask (by
    rw [hclock, hnet]
    exact hpath)
  rw [hnow, Cluster.put_duo_alpha] at hnow'
  exact ⟨h', hlater, hnow'⟩

/-- What the second can. -/
lemma exists_works_beta {fine : ∀ o : Op, o.Res → Prop} {p p' : Process} {net : List Packet}
    {slot : Slot} {kind : Kind} {prog prog' : Prog kind.Out} {w : World}
    (hnow : h.now = .duo p p' net) (hrunning : p'.stopped = false)
    (htask : p'.tasks slot = some ⟨kind, prog⟩)
    (hpath : Program.Path (fun o w r w' => Op.Run p'.node 0 o w r w' ∧ fine o r)
      (fun o => ¬ o.awaits = true) prog ⟨p'.shared, net⟩ prog' w) :
    ∃ h', LaterBy (fun l => ∃ (o : Op) (r : o.Res), l = .op beta.id slot kind o r ∧
        ¬ o.awaits = true ∧ fine o r) h h' ∧
      h'.now = .duo p (p'.at slot w.shared ⟨kind, prog'⟩) w.net := by
  have hp : h.now.procs beta.id = some p' := by rw [hnow, Cluster.procs_duo_beta]
  have hclock : h.now.clock = 0 := by rw [hnow, Cluster.clock_duo]
  have hnet : h.now.net = net := by rw [hnow, Cluster.net_duo]
  obtain ⟨h', hlater, hnow'⟩ := LaterBy.of_path hp hrunning htask (by
    rw [hclock, hnet]
    exact hpath)
  rw [hnow, Cluster.put_duo_beta] at hnow'
  exact ⟨h', hlater, hnow'⟩

/-- A step of getting to know each other. -/
def Label.greets : Label → Prop
  | .start _ _ | .accept _ _ _ => True
  | .op q _ (.join _) _ _ => q = beta.id
  | .op _ _ (.serve _ _) o _ => o ≠ .fetchSeq
  | _ => False

/-- What the second of the two says of itself. -/
def news : WireMember := beta.aliveRumor Guarded.new.current

/-- The first of two nodes can get as far as it likes with serving the second one's join. -/
lemma exists_greeted {shared : Shared} (hpath : ∀ conn, ∃ prog,
    Program.Path (fun o w r w' => Op.Run alpha 0 o w r w' ∧ o ≠ .fetchSeq)
      (fun o => ¬ o.awaits = true)
      (serve alpha conn (.joinRequest (beta.identity Guarded.new.current))) ⟨Shared.new, []⟩
      prog ⟨shared, []⟩) :
    ∃ (h : Trace) (n : ℕ) (task task' : Task), LaterBy Label.greets (.init .empty) h ∧
      h.now = .duo ((Process.new alpha []).at (.spawned n) shared task)
        ((Process.new beta [alpha.addr]).at .main { Shared.new with conns := 1 } task') [] := by
  set one := (History.init Cluster.empty).push (Label.start alpha [])
    (Cluster.empty.setProc alpha.id (.new alpha [])) with hone
  set two := one.push (Label.start beta [alpha.addr])
    (one.now.setProc beta.id (.new beta [alpha.addr])) with htwo
  have hfrom₂ : LaterBy Label.greets (.init .empty) two :=
    (History.Extends.single ⟨.start .empty alpha [] rfl alpha_mayStart, trivial⟩).push
      ⟨.start one.now beta [alpha.addr] (by simp [hone, alpha_ne_beta.symm, Cluster.empty])
        beta_mayStart, trivial⟩
  -- the second asks the first
  have hbeta : two.now.procs beta.id = some (.new beta [alpha.addr]) := by
    rw [htwo, History.now_push, Cluster.procs_setProc, if_pos rfl]
  obtain ⟨asked, conn, rest, shared', hasks, hserver, hshared', hnow, _⟩ := exists_request hbeta
  have hfrom : LaterBy Label.greets (.init .empty) asked := by
    refine hfrom₂.trans (hasks.imp fun l hl => ?_)
    obtain ⟨o, r, rfl, _⟩ := hl
    rfl
  have hnow' : asked.now = .duo (.new alpha []) ((Process.new beta [alpha.addr]).at .main shared'
      ⟨.join [alpha.addr], .step (.readFrame conn) rest⟩)
      [.request conn (.joinRequest (beta.identity Guarded.new.current))] := by
    rw [hnow, htwo, hone]
    simp [Cluster.duo, Cluster.put, Cluster.setProc, Function.update_comm alpha_ne_beta,
      Cluster.empty]
  -- the first starts to serve it
  obtain ⟨n, _, haccept⟩ := exists_accept [] ⟨.empty, rfl, hfrom.later⟩
    (by rw [hnow']; exact Cluster.procs_duo_alpha) rfl rfl hserver (by rw [hnow']; rfl)
  obtain ⟨prog, hpath⟩ := hpath conn
  rw [hnow', Cluster.put_duo_alpha, ← hnow'] at haccept
  generalize hserve : Cluster.duo _ _ [] = accepted at haccept
  obtain ⟨h, hserves, hlast⟩ := exists_works_alpha
    (h := asked.push (.accept alpha.id conn _) accepted) hserve.symm rfl (Process.tasks_at ..) hpath
  rw [Process.at_at, hshared'] at hlast
  refine ⟨h, n, _, _, (hfrom.push ⟨haccept, trivial⟩).trans (hserves.imp fun l hl => ?_), hlast⟩
  obtain ⟨o, r, rfl, _, ho⟩ := hl
  exact ho

/-! ## A change of readiness -/

/-- The two of them between turns, at the beginning of time. -/
lemma Cluster.pair_eq_duo : Cluster.pair 0 alpha beta shared shared' =
    .duo { Process.new alpha [] with shared := shared }
      { Process.new beta [] with shared := shared' } [] := by
  simp [pair, duo, put, setProc, empty, Function.update_comm alpha_ne_beta]

/-- The first of two nodes can find out that its app does not answer, and means to say so. -/
lemma exists_unready (hrun : Run h) (hnow : h.now = .pair 0 alpha beta shared shared')
    (hguarded : shared.guarded = .new) :
    ∃ (h' : Trace) (changed : Shared), Later h h' ∧ h'.now = .pair 0 alpha beta changed shared' ∧
      changed.guarded = (Guarded.new.setReady false).2 ∧ changed.table = shared.table ∧
      ∃ pending ∈ changed.queue,
        pending.rumor = alpha.aliveRumor (Guarded.new.setReady false).2.current := by
  set p : Process := { Process.new alpha [] with shared := shared } with hp
  set told : Shared := { shared with guarded := (Guarded.new.setReady false).2 } with htold
  rw [Cluster.pair_eq_duo] at hnow
  have hidle : p.tasks .health = none := by simp [hp, Process.new]
  have hbegins : Step h.now (.begins alpha.id .health (.health false)) (h.now.put alpha.id
      (p.at .health shared (Task.start alpha (.health false))) h.now.net) :=
    .begins h.now alpha.id p .health (.health false) (by rw [hnow, Cluster.procs_duo_alpha]) rfl rfl
      hidle (.health false)
  rw [hnow, Cluster.put_duo_alpha, Cluster.net_duo, ← hnow] at hbegins
  generalize hbegun : Cluster.duo _ _ [] = begun at hbegins
  set rumor : WireMember := alpha.aliveRumor (Guarded.new.setReady false).2.current
  set changed : Shared := { told with queue := told.queue.push rumor (told.table.len + 1) }
    with hchanged
  have hpath : Program.Path (fun o w r w' => Op.Run alpha 0 o w r w' ∧ o.fails r = false)
      (fun o => ¬ o.awaits = true) (healthTurn alpha false) ⟨shared, []⟩ (.ret ())
      ⟨changed, []⟩ := by
    refine .step (r := true) (t := ⟨told, []⟩) (by simp [Op.awaits]) ⟨⟨?_, ?_⟩, rfl⟩ <|
      .step (r := told.guarded.current) (by simp [Op.awaits]) ⟨⟨rfl, rfl⟩, rfl⟩ <|
      .step (r := told.table.len) (by simp [Op.awaits]) ⟨⟨rfl, rfl⟩, rfl⟩ <|
      .step (r := ()) (by simp [Op.awaits]) ⟨rfl, rfl⟩ (.refl _ _)
    · rw [hguarded]
      rfl
    · rw [htold, hguarded]
  obtain ⟨said, hturns, hnow₁⟩ := exists_works_alpha
    (h := h.push (.begins alpha.id .health (.health false)) begun) hbegun.symm rfl
    (Process.tasks_at ..) hpath
  rw [Process.at_at] at hnow₁
  have hlater : Later h said := (History.Extends.single hbegins).trans hturns.later
  have hends := exists_finish { p with shared := changed } (hrun.extends hlater)
    (by rw [hnow₁, Cluster.procs_duo_alpha]) rfl fun _ => by
      simp [Process.finish, Process.at, Process.set, ← hidle]
  refine ⟨_, changed, hlater.push hends, ?_, rfl, rfl, ⟨rumor, retransmitLimit (told.table.len + 1)⟩,
    List.mem_append_right _ (List.mem_singleton_self _), rfl⟩
  rw [History.now_push, hnow₁, Cluster.put_duo_alpha, Cluster.net_duo, Cluster.pair_eq_duo]

/-! ## Saying goodbye -/

/-- An entry that is alive takes in a death at its own incarnation. -/
lemma MemberTable.merge_death {table : MemberTable} {me : NodeId} {m : Member} {r : WireMember}
    (hne : r.id ≠ me) (hget : table.get r.id = some m) (hstate : m.state = .alive)
    (hdead : r.state = .dead) (hi : m.incarnation = r.incarnation) :
    (table.merge clock r me).1 = .updated := by
  have hspec := table.merge_spec clock r me
  generalize (table.merge clock r me).1 = outcome at hspec ⊢
  generalize (table.merge clock r me).2 = after at hspec
  cases hspec with
  | own hid | doubted hid => exact absurd hid hne
  | refused _ hnone | added _ hnone => exact absurd (hnone.symm.trans hget) (by simp)
  | updated => rfl
  | stale _ m' hget' hkey =>
    obtain rfl : m' = m := Option.some.inj (hget'.symm.trans hget)
    rw [← WireMember.key_new, WireMember.key_le_iff] at hkey
    rcases hkey with hlt | ⟨_, hrank⟩
    · exact absurd hi (ne_of_gt hlt)
    · have hrank : rank r.state ≤ rank m'.state.toWire := hrank
      rw [hdead, hstate] at hrank
      exact absurd hrank (by decide)

/-- No entry is dropped. -/
def Label.spares (l : Label) : Prop := ∀ q id, ¬ l.reaps q id

/-- The operation removes nobody. -/
def Op.spares (o : Op) (_ : o.Res) : Prop := ∀ ids, o ≠ .remove ids

lemma Label.spares_op {q : NodeId} {slot : Slot} {kind : Kind} {o : Op} {r : o.Res}
    (ho : o.spares r) : (Label.op q slot kind o r).spares := by
  cases o with
  | remove ids => exact absurd rfl (ho ids)
  | _ => exact fun _ _ => not_false

/-- The first of two nodes can leave, and tell the second. -/
lemma exists_goodbye {m : Member} (hrun : Run h)
    (hnow : h.now = .pair 0 alpha beta shared shared') (hmembers : shared.table.members = [m])
    (haddr : m.addr = beta.addr) (hstate : m.state = .alive) :
    ∃ (left told : Trace) (p p' : Process), LaterBy Label.spares h left ∧
      LaterBy Label.spares left told ∧
      left.now.procs alpha.id = some p ∧ p.shared.guarded = shared.guarded.leave ∧
      told.now = .duo p' { Process.new beta [] with shared := shared' }
        [.udp alpha.addr beta.addr (.leave (alpha.identity shared.guarded.leave.current))] := by
  set p : Process := { Process.new alpha [] with shared := shared } with hp
  set p' : Process := { Process.new beta [] with shared := shared' }
  set last : Shared := { shared with guarded := shared.guarded.leave } with hlast
  rw [Cluster.pair_eq_duo] at hnow
  -- it is told to shut down, and leaves
  have hbegins : Step h.now (.begins alpha.id .main .leaving) (h.now.put alpha.id
      (p.at .main shared (Task.start alpha .leaving)) h.now.net) :=
    .begins h.now alpha.id p .main .leaving (by rw [hnow, Cluster.procs_duo_alpha]) rfl rfl
      (by simp [hp, Process.new]) (.shutdown rfl)
  rw [hnow, Cluster.put_duo_alpha, Cluster.net_duo, ← hnow] at hbegins
  generalize hbegun : Cluster.duo _ _ [] = begun at hbegins
  have hleave : Program.Path (fun o w r w' => Op.Run alpha 0 o w r w' ∧ o.spares r)
      (fun o => ¬ o.awaits = true) (Op.call .leave) ⟨shared, []⟩ (.ret ()) ⟨last, []⟩ :=
    .step (r := ()) (by simp [Op.awaits]) ⟨rfl, by simp [Op.spares]⟩ (.refl _ _)
  obtain ⟨left, hleaves, hnow₁⟩ := exists_works_alpha
    (h := h.push (.begins alpha.id .main .leaving) begun) hbegun.symm rfl (Process.tasks_at ..)
    hleave
  rw [Process.at_at] at hnow₁
  have hlater₁ : LaterBy Label.spares h left := by
    refine (History.Extends.single ⟨hbegins, fun _ _ => not_false⟩).trans (hleaves.imp ?_)
    rintro l ⟨o, r, rfl, _, ho⟩
    exact Label.spares_op ho
  have halpha₁ : left.now.procs alpha.id = some (p.at .main last ⟨.leaving, .ret ()⟩) := by
    rw [hnow₁, Cluster.procs_duo_alpha]
  -- its loops are dropped, and it says goodbye
  set q : Process := { p.at .main last (Task.start alpha .announcing) with aborted := true } with hq
  have hends := exists_finish (h := left) q (hrun.extends hlater₁.later) halpha₁ rfl fun _ =>
    congrArg (fun p : Process => { p with aborted := true })
      (p.at_at .main last last ⟨.leaving, .ret ()⟩ (Task.start alpha .announcing))
  rw [hnow₁, Cluster.put_duo_alpha, Cluster.net_duo, ← hnow₁] at hends
  generalize hended : Cluster.duo _ _ [] = ended at hends
  have hpool : last.table.membersWhere (fun m => !m.state.isDead) = [m] := by
    show shared.table.members.filter _ = _
    rw [hmembers]
    simp [hstate, MemberState.isDead]
  have hannounce : Program.Path
      (fun o w r w' => Op.Run alpha 0 o w r w' ∧ o.spares r)
      (fun o => ¬ o.awaits = true) (announceLeave alpha) ⟨last, []⟩ (.ret 1)
      ⟨last, [.udp alpha.addr beta.addr (.leave (alpha.identity last.guarded.current))]⟩ := by
    refine .step (r := last.guarded.current) (by simp [Op.awaits])
        ⟨⟨rfl, rfl⟩, by simp [Op.spares]⟩ <|
      .step (r := [m]) (by simp [Op.awaits]) (t := ⟨last, []⟩) ⟨⟨?_, rfl⟩, by simp [Op.spares]⟩ <|
      .step (r := true) (by simp [Op.awaits]) ⟨by rw [← haddr]; rfl, by simp [Op.spares]⟩
        (.refl _ _)
    rw [hpool]
  obtain ⟨told, hannounces, hnow₂⟩ := exists_works_alpha
    (h := left.push (.finish alpha.id .main .leaving ()) ended) hended.symm rfl
    (Process.tasks_at ..) hannounce
  refine ⟨left, told, _, _, hlater₁, ?_, halpha₁, rfl, hnow₂⟩
  refine (History.Extends.single ⟨hends, fun _ _ => not_false⟩).trans (hannounces.imp ?_)
  rintro l ⟨o, r, rfl, _, ho⟩
  exact Label.spares_op ho

/-- The second handles the goodbye. -/
lemma exists_mourned {p : Process} {m : Member} {sender : WireIdentity} (hrun : Run h)
    (hnow : h.now = .duo p { Process.new beta [] with shared := shared' }
      [.udp alpha.addr beta.addr (.leave sender)]) (hid : sender.id = alpha.id)
    (hget : shared'.table.get alpha.id = some m) (hstate : m.state = .alive)
    (hi : m.incarnation = sender.incarnation) :
    ∃ (heard done : Trace) (c : Cluster) (p' : Process), LaterBy Label.spares h heard ∧
      LaterBy (fun l => ∃ (o : Op) (r : o.Res),
        l = .op beta.id .udp (.datagram alpha.addr (.leave sender)) o r ∧ ¬ o.awaits = true ∧
        o.spares r) heard done ∧
      heard.now.procs beta.id = some p' ∧
      p'.tasks .udp = some (.start p'.node (.datagram alpha.addr (.leave sender))) ∧
      Step done.now (.finish beta.id .udp (.datagram alpha.addr (.leave sender)) none) c := by
  set p' : Process := { Process.new beta [] with shared := shared' } with hp'
  have hreceives := exists_receive [] (by rw [hnow, Cluster.procs_duo_beta]) rfl rfl
    (by simp [hp', Process.new]) (by rw [hnow]; rfl)
  rw [hnow, Cluster.put_duo_beta, ← hnow] at hreceives
  generalize hheard : Cluster.duo _ _ [] = c at hreceives
  have hupdated : (shared'.table.merge 0 sender.intoLeave beta.id).1 = .updated :=
    MemberTable.merge_death (hid.trans_ne alpha_ne_beta)
      ((congrArg shared'.table.get hid).trans hget) hstate rfl hi
  have hhandle : ∃ w, Program.Path
      (fun o w r w' => Op.Run beta 0 o w r w' ∧ o.spares r)
      (fun o => ¬ o.awaits = true) (handleDatagram beta alpha.addr (.leave sender))
      ⟨shared', []⟩ (.ret none) w :=
    ⟨_, .step (r := .updated) (by simp [Op.awaits]) ⟨⟨hupdated.symm, rfl⟩, by simp [Op.spares]⟩ <|
      .step (r := _) (by simp [Op.awaits]) ⟨⟨rfl, rfl⟩, by simp [Op.spares]⟩ <|
      .step (r := ()) (by simp [Op.awaits]) ⟨rfl, by simp [Op.spares]⟩ (.refl _ _)⟩
  obtain ⟨w, hpath⟩ := hhandle
  obtain ⟨done, hhandles, hnow'⟩ := exists_works_beta
    (h := h.push (.receive beta.id alpha.addr (.leave sender)) c) hheard.symm rfl
    (Process.tasks_at ..) hpath
  rw [Process.at_at] at hnow'
  have hlater : LaterBy Label.spares h (h.push (.receive beta.id alpha.addr (.leave sender)) c) :=
    .single ⟨hreceives, fun _ _ => not_false⟩
  have hends := exists_finish (h := done) (p'.at .udp w.shared
      (Task.start beta (.datagram alpha.addr (.leave sender))) |>.set .udp none)
    (hrun.extends (hlater.later.trans hhandles.later)) (by rw [hnow', Cluster.procs_duo_beta]) rfl
    fun _ => by simp [Process.finish, Process.at, Process.set]
  exact ⟨_, done, _, _, hlater, hhandles, by rw [History.now_push, ← hheard, Cluster.procs_duo_beta],
    Process.tasks_at .., hends⟩

/-! ## Cut off from each other -/

/-- A step of a cut: a turn of either detector in which nothing gets through, or time. -/
def Label.cut (a b : NodeId) : Label → Prop
  | .tick _ => True
  | l => l.fruitless a ∨ l.fruitless b

lemma Label.fruitless.cut_left {a b : NodeId} {l : Label} (hl : l.fruitless a) : l.cut a b := by
  cases l with
  | tick => trivial
  | _ => exact .inl hl

/-- A cut has no direction. -/
lemma Label.cut.comm {a b : NodeId} {l : Label} (hl : l.cut a b) : l.cut b a := by
  cases l with
  | tick => trivial
  | _ => exact hl.symm

/-- In a cut, the first of the two suspects the other. -/
lemma exists_pair_suspects {m : Member} (hrun : Run h)
    (hnow : h.now = .pair clock node node' shared shared') (hids : node.id ≠ node'.id)
    (hmembers : shared.table.members = [m]) (hne : m.id ≠ node.id) (hstate : m.state = .alive) :
    ∃ (h' : Trace) (shared₁ : Shared), LaterBy (Label.cut node.id node'.id) h h' ∧
      h'.now = .pair clock node node' shared₁ shared' ∧
      shared.Marked shared₁ m (.suspect clock) := by
  have hp : h.now.procs node.id = some { Process.new node [] with shared := shared } := by
    rw [hnow]
    exact Cluster.procs_pair_left hids
  obtain ⟨h₁, shared₁, hlater, hmarked, hends⟩ := exists_turn_suspects hrun hp rfl rfl rfl
    (by simp [Process.new]) rfl hmembers hne hstate
  rw [hnow] at hmarked hends
  refine ⟨_, shared₁, (hlater.imp fun l hl => hl.cut_left).push ⟨hends, .inl ⟨rfl, rfl⟩⟩, ?_,
    hmarked⟩
  exact Cluster.put_pair_left hids shared₁

/-- In a cut, the first of the two declares the other dead in time. -/
lemma exists_pair_buries {m : Member} {since : Instant} (hrun : Run h)
    (hnow : h.now = .pair clock node node' shared shared') (hids : node.id ≠ node'.id)
    (hmembers : shared.table.members = [m]) (hne : m.id ≠ node.id)
    (hstate : m.state = .suspect since) (hdue : since + SUSPICION_TIMEOUT ≤ clock) :
    ∃ (h' : Trace) (shared₁ : Shared), LaterBy (Label.cut node.id node'.id) h h' ∧
      h'.now = .pair clock node node' shared₁ shared' ∧ shared.Marked shared₁ m (.dead clock) := by
  have hp : h.now.procs node.id = some { Process.new node [] with shared := shared } := by
    rw [hnow]
    exact Cluster.procs_pair_left hids
  obtain ⟨h₁, shared₁, hlater, hmarked, hends⟩ := exists_turn_buries hrun hp rfl rfl rfl
    (by simp [Process.new]) rfl hmembers hne hstate (by rw [hnow]; exact hdue)
  rw [hnow] at hmarked hends
  refine ⟨_, shared₁, (hlater.imp fun l hl => hl.cut_left).push ⟨hends, .inl ⟨rfl, rfl⟩⟩, ?_,
    hmarked⟩
  exact Cluster.put_pair_left hids shared₁

lemma LaterBy.cut_comm {a b : NodeId} {h h' : Trace} (hlater : LaterBy (Label.cut a b) h h') :
    LaterBy (Label.cut b a) h h' :=
  hlater.imp fun _ hl => hl.comm

/-- Two nodes that hold each other alive, and a cut between them that lasts. -/
structure Cut (node node' : LocalNode) (h : Trace) : Prop where
  run : Run h
  /-- Before the cut. -/
  whole : ∃ h₀ shared shared', Run h₀ ∧ h₀.now = .pair 0 node node' shared shared' ∧
    shared.guarded = .new ∧ shared'.guarded = .new ∧
    shared.table.members = [(node'.aliveRumor Guarded.new.current).toMember 0] ∧
    shared'.table.members = [(node.aliveRumor Guarded.new.current).toMember 0] ∧
    LaterBy (Label.cut node.id node'.id) h₀ h
  /-- Each holds the other dead. -/
  split : ∃ shared shared', h.now = .pair SUSPICION_TIMEOUT node node' shared shared' ∧
    shared.guarded = .new ∧ shared'.guarded = .new ∧
    shared.table.members = [{ (node'.aliveRumor Guarded.new.current).toMember 0 with
      state := .dead SUSPICION_TIMEOUT }] ∧
    shared'.table.members = [{ (node.aliveRumor Guarded.new.current).toMember 0 with
      state := .dead SUSPICION_TIMEOUT }] ∧
    (∀ pending ∈ shared.queue, pending.rumor.id = node'.id → pending.rumor.state = .dead) ∧
    ∀ pending ∈ shared'.queue, pending.rumor.id = node.id → pending.rumor.state = .dead

/-- A cut between two nodes can last until each holds the other dead. -/
theorem exists_cut (hne : node.id ≠ node'.id) (hmay : Process.mayStart node)
    (hmay' : Process.mayStart node') : ∃ h, Cut node node' h := by
  obtain ⟨h₀, shared, shared', hrun, hnow, hguarded, hguarded', hmembers, hmembers'⟩ :=
    exists_pair hne hmay hmay'
  -- each suspects the other
  obtain ⟨h₁, shared₁, hlater₁, hnow₁, hmarked₁⟩ := exists_pair_suspects hrun hnow hne hmembers
    hne.symm rfl
  rw [Cluster.pair_comm hne] at hnow₁
  obtain ⟨h₂, shared₂, hlater₂, hnow₂, hmarked₂⟩ := exists_pair_suspects
    (hrun.extends hlater₁.later) hnow₁ hne.symm hmembers' hne rfl
  -- nothing is heard for as long as it takes
  set h₃ := h₂.push (.tick SUSPICION_TIMEOUT)
    { h₂.now with clock := h₂.now.clock + SUSPICION_TIMEOUT } with hh₃
  have hnow₃ : h₃.now = .pair SUSPICION_TIMEOUT node' node shared₂ shared₁ := by
    rw [hh₃, History.now_push, hnow₂]
    simp [Cluster.pair]
  have hlater₃ : LaterBy (Label.cut node.id node'.id) h₀ h₃ :=
    (hlater₁.trans hlater₂.cut_comm).push ⟨.tick _ _, trivial⟩
  -- each declares the other dead
  obtain ⟨h₄, shared₄, hlater₄, hnow₄, hmarked₄⟩ := exists_pair_buries
    (hrun.extends hlater₃.later) hnow₃ hne.symm hmarked₂.members hne rfl
    (Nat.le_of_eq (Nat.zero_add _))
  have hlater₄ : LaterBy (Label.cut node.id node'.id) h₀ h₄ := hlater₃.trans hlater₄.cut_comm
  rw [Cluster.pair_comm hne.symm] at hnow₄
  obtain ⟨h₅, shared₅, hlater₅, hnow₅, hmarked₅⟩ := exists_pair_buries
    (hrun.extends hlater₄.later) hnow₄ hne hmarked₁.members hne.symm rfl
    (Nat.le_of_eq (Nat.zero_add _))
  have hlater₅ : LaterBy (Label.cut node.id node'.id) h₀ h₅ := hlater₄.trans hlater₅
  refine ⟨h₅, hrun.extends hlater₅.later,
    ⟨h₀, shared, shared', hrun, hnow, hguarded, hguarded', hmembers, hmembers', hlater₅⟩,
    shared₅, shared₄, hnow₅, ?_, ?_,
    hmarked₅.members, hmarked₄.members, hmarked₅.queue, hmarked₄.queue⟩
  · rw [hmarked₅.guarded, hmarked₁.guarded, hguarded]
  · rw [hmarked₄.guarded, hmarked₂.guarded, hguarded']

end Dalila
