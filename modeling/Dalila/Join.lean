import Dalila.Absorb

/-!
# Joining

A node that is started with the address of a running one asks it to be let in, the seed serves the
request and replies, and the node takes over what it is told. The file runs the three parts
(`exists_request`, `exists_welcome`, `exists_settle`) and puts them together: any running node can
let in any new one, and nobody else has to do anything for it (`exists_join`).
-/

namespace Dalila

open Program

variable {h : Trace} {q s : NodeId} {p seed : Process} {node : LocalNode}

/-- A step of somebody who joins, or of whoever lets it in. -/
def Label.admits : Label → Prop
  | .start _ _ | .accept _ _ _ | .finish _ _ _ _ => True
  | .op _ _ (.join _) _ _ | .op _ _ (.serve _ _) _ _ => True
  | _ => False

/-- Whoever joins or lets somebody in drops no entry. -/
lemma Label.admits.not_reaping {l : Label} (hadmits : l.admits) (slot : Slot) (o : Op) (r : o.Res) :
    l ≠ .op q slot .reaping o r := by
  rintro rfl
  exact hadmits

/-- The arm of the accept loop that serves a join. -/
lemma serve_joinRequest (node : LocalNode) (conn : Conn) (sender : WireIdentity) :
    serve node conn (.joinRequest sender) = (do
      let members ← Op.call .snapshot
      let _ ← apply node sender.intoMember
      let current ← Op.call .current
      let _ ← Op.call (.writeResponse conn (.joinResponse (node.identity current)
        (members.map .new)))
      pure ()) := by
  show Program.step Op.snapshot _ = Program.step Op.snapshot _
  congr 1
  funext members
  show (((apply node sender.intoMember).bind _).bind _).bind _ =
    (apply node sender.intoMember).bind _
  rw [Program.bind_assoc, Program.bind_assoc]
  rfl

/-- The new node sends its request, and waits. -/
lemma exists_request {addr : SocketAddr} (hq : h.now.procs q = some (.new node [addr])) :
    ∃ (h' : Trace) (conn : Conn) (rest : Option TcpBody → Prog Bool) (shared : Shared),
      LaterBy (Label.goes q .main (.join [addr])) h h' ∧ conn.server = addr ∧
      shared = { Shared.new with conns := 1 } ∧
      h'.now = h.now.put q ((Process.new node [addr]).at .main shared
          ⟨.join [addr], .step (.readFrame conn) rest⟩)
        (.request conn (.joinRequest (node.identity Guarded.new.current)) :: h.now.net) ∧
      ∀ sender members, rest (some (.joinResponse sender members)) =
        (do absorb node sender members; pure true) := by
  let conn : Conn := ⟨some node.id, 0, addr⟩
  let request : TcpBody := .joinRequest (node.identity Guarded.new.current)
  have hasks : ∃ rest : Option TcpBody → Prog Bool,
      Program.Path ((Process.new node [addr]).runs h.now.clock)
        (fun o => ¬ o.awaits = true) (join node [addr]) ⟨Shared.new, h.now.net⟩
        (.step (.readFrame conn) rest)
        ⟨{ Shared.new with conns := 1 }, .request conn request :: h.now.net⟩ ∧
      ∀ sender members, rest (some (.joinResponse sender members)) =
        (do absorb node sender members; pure true) :=
    ⟨_, .step (r := Guarded.new.current) (by simp [Op.awaits]) ⟨⟨rfl, rfl⟩, rfl⟩ <|
      .step (r := some conn) (by simp [Op.awaits]) ⟨⟨rfl, rfl⟩, rfl⟩ <|
      .step (r := true) (by simp [Op.awaits]) ⟨rfl, rfl⟩ <|
      .refl _ _, fun _ _ => rfl⟩
  obtain ⟨rest, hpath, hrest⟩ := hasks
  obtain ⟨h', hlater, hnow⟩ := LaterBy.of_path hq rfl
    (show (Process.new node [addr]).tasks .main = some (Task.start node (.join [addr])) by
      simp [Process.new]) hpath
  exact ⟨h', conn, rest, _, hlater, rfl, rfl, hnow, hrest⟩

/-- The seed takes the new node in, and replies with what it held before. -/
lemma exists_welcome {conn : Conn} {n : ℕ} {sender : WireIdentity}
    (hs : h.now.procs s =
      some (seed.at (.spawned n) seed.shared
        (Task.start seed.node (.serve conn (.joinRequest sender)))))
    (hrunning : seed.stopped = false) :
    ∃ (h' : Trace) (shared : Shared), LaterBy Label.admits h h' ∧
      h'.now = h.now.put s
        (seed.at (.spawned n) shared ⟨.serve conn (.joinRequest sender), .ret ()⟩)
        (.response conn (.joinResponse (seed.node.identity shared.guarded.current)
          (seed.shared.table.members.map .new)) :: h.now.net) ∧
      Absorbed seed.node h.now.clock [sender.intoMember] ⟨seed.shared, h.now.net⟩
        ⟨shared, h.now.net⟩ := by
  obtain ⟨out, w, happly⟩ := seed.exists_runs h.now.clock
    (inward_apply sender.intoMember : Inward (apply seed.node sender.intoMember))
    ⟨seed.shared, h.now.net⟩
  have habsorbed := exec_apply (happly.mono (fun _ _ _ _ hrun => hrun.1) fun _ ho => ho).exec
  obtain ⟨shared, net⟩ := w
  obtain rfl : net = h.now.net := habsorbed.net
  let reply : TcpBody := .joinResponse (seed.node.identity shared.guarded.current)
    (seed.shared.table.members.map .new)
  have hpath : Program.Path (seed.runs h.now.clock) (fun o => ¬ o.awaits = true)
      (Kind.start seed.node (.serve conn (.joinRequest sender))) ⟨seed.shared, h.now.net⟩
      (.ret ()) ⟨shared, .response conn reply :: h.now.net⟩ := by
    show Program.Path _ _ (serve seed.node conn (.joinRequest sender)) _ _ _
    rw [serve_joinRequest]
    refine .step (r := seed.shared.table.members) (by simp [Op.awaits]) ⟨⟨.refl _, rfl⟩, rfl⟩ ?_
    refine (happly.bind _).trans ?_
    refine .step (r := shared.guarded.current) (by simp [Op.awaits]) ⟨⟨rfl, rfl⟩, rfl⟩ ?_
    exact .step (r := true) (by simp [Op.awaits]) ⟨rfl, rfl⟩ (.refl _ _)
  obtain ⟨h', hlater, hnow⟩ := LaterBy.of_path hs hrunning (Process.tasks_at ..) hpath
  rw [Process.at_at] at hnow
  refine ⟨h', shared, hlater.imp ?_, hnow, habsorbed⟩
  rintro l ⟨o, r, rfl, _⟩
  exact trivial

/-- A new node that has heard from its seed takes over what it was told, and serves. -/
lemma exists_settle {seeds : List SocketAddr} {conn : Conn} {sender : WireIdentity}
    {members : List WireMember} {shared : Shared} {rest : Option TcpBody → Prog Bool}
    {net : List Packet} (hrun : Run h)
    (hq : h.now.procs q = some (p.at .main shared ⟨.join seeds, .step (.readFrame conn) rest⟩))
    (hrunning : p.stopped = false)
    (hrest : rest (some (.joinResponse sender members)) =
      (do absorb p.node sender members; pure true))
    (hnet : h.now.net = .response conn (.joinResponse sender members) :: net) :
    ∃ (h₀ h' : Trace) (shared' : Shared), LaterBy Label.admits h h' ∧
      History.Took Step (.finish q .main (.join seeds) true) h₀ h' ∧
      h'.now = h.now.put q { p.set .main none with shared := shared', serving := true } net ∧
      Absorbed p.node h.now.clock (sender.intoMember :: members) ⟨shared, net⟩
        ⟨shared', net⟩ := by
  let reply : TcpBody := .joinResponse sender members
  have hreads := exists_read (h := h) hq hrunning hnet
  set read := h.push (.op q .main (.join seeds) (.readFrame conn) (some reply))
    (h.now.put q (p.at .main shared ⟨.join seeds, rest (some reply)⟩) net) with hread
  obtain ⟨shared', habsorb, habsorbed⟩ := p.exists_absorbs h.now.clock sender members shared net
  have hpath : Program.Path (p.runs h.now.clock) (fun o => ¬ o.awaits = true)
      (rest (some reply)) ⟨shared, net⟩ (.ret true) ⟨shared', net⟩ := by
    rw [hrest]
    exact habsorb.bind _
  obtain ⟨settled, hlater, hnow⟩ := LaterBy.of_path (h := read) (if_pos rfl) hrunning
    (Process.tasks_at ..) hpath
  rw [Process.at_at, hread, History.now_push, Cluster.put_put] at hnow
  have hlater' : LaterBy Label.admits h settled := by
    refine (History.Extends.single ⟨hreads, trivial⟩).trans (hlater.imp ?_)
    rintro l ⟨o, r, rfl, _⟩
    exact trivial
  have hq' : settled.now.procs q = some (p.at .main shared' ⟨.join seeds, .ret true⟩) := by
    rw [hnow]
    exact if_pos rfl
  have hends := exists_finish { p.set .main none with shared := shared', serving := true }
    (hrun.extends hlater'.later) hq' hrunning fun _ => by
      simp [Process.finish, Process.at, Process.set]
  refine ⟨settled, _, shared', hlater'.push ⟨hends, trivial⟩, .of_step hends, ?_, habsorbed⟩
  rw [History.now_push, hnow]
  simp

/-- From `h` to `h'` the node has joined through `seed`, and nobody else has done anything. The seed
ends up with the newcomer's own record on top of its table, and the newcomer with the seed's record
and table. -/
structure Admitted (node : LocalNode) (s : NodeId) (seed : Process) (shared shared' : Shared)
    (h h' : Trace) : Prop where
  steps : LaterBy Label.admits h h'
  joined : ∃ h₀, History.Took Step (.finish node.id .main (.join [seed.node.addr]) true) h₀ h'
  now : h'.now = (h.now.put s { seed with shared := shared } h.now.net).put node.id
    { Process.new node [] with shared := shared' } h.now.net
  host : Absorbed seed.node h.now.clock [node.aliveRumor Guarded.new.current]
    ⟨seed.shared, h.now.net⟩ ⟨shared, h.now.net⟩
  guest : Absorbed node h.now.clock (seed.node.aliveRumor shared.guarded.current ::
    seed.shared.table.members.map .new) ⟨Shared.new, h.now.net⟩ ⟨shared', h.now.net⟩

/-- A node that has been started with a running one for its seed can get in. -/
lemma exists_admission (hrun : Run h) (hq : h.now.procs node.id = some (.new node [seed.node.addr]))
    (hs : h.now.procs s = some seed) (hne : s ≠ node.id) (hrunning : seed.stopped = false)
    (hloops : seed.aborted = false) :
    ∃ (h' : Trace) (shared shared' : Shared), Admitted node s seed shared shared' h h' := by
  obtain ⟨asked, conn, rest, shared₁, hasks, hserver, hshared₁, hnow₁, hrest⟩ := exists_request hq
  -- the seed takes it in
  have hs₁ : asked.now.procs s = some seed := by
    rw [hnow₁]
    simpa [hne] using hs
  have hlater₁ : LaterBy Label.admits h asked := by
    refine hasks.imp ?_
    rintro l ⟨o, r, rfl, _⟩
    exact trivial
  have hrun₁ := hrun.extends hlater₁.later
  obtain ⟨n, hfree, haccept⟩ := exists_accept h.now.net hrun₁ hs₁ hrunning hloops hserver
    (by rw [hnow₁]; rfl)
  set accepted := asked.push (.accept s conn (.joinRequest (node.identity Guarded.new.current)))
    (asked.now.put s (seed.at (.spawned n) seed.shared (Task.start seed.node
      (.serve conn (.joinRequest (node.identity Guarded.new.current))))) h.now.net) with haccepted
  obtain ⟨served, shared, hserves, hnow₂, habsorbed⟩ := exists_welcome (h := accepted) (if_pos rfl)
    hrunning
  have hlater₂ : LaterBy Label.admits h served :=
    (hlater₁.push ⟨haccept, trivial⟩).trans hserves
  have hs₂ : served.now.procs s = some (seed.at (.spawned n) shared
      ⟨.serve conn (.joinRequest (node.identity Guarded.new.current)), .ret ()⟩) := by
    rw [hnow₂]
    exact if_pos rfl
  have hends := exists_finish { seed with shared := shared } (hrun.extends hlater₂.later) hs₂
    hrunning fun _ => by simp [Process.finish, Process.at, Process.set, ← hfree]
  set ended := served.push (.finish s (.spawned n)
    (.serve conn (.joinRequest (node.identity Guarded.new.current))) ())
    (served.now.put s { seed with shared := shared } served.now.net) with hended
  have hlater₃ : LaterBy Label.admits h ended := hlater₂.push ⟨hends, trivial⟩
  -- the newcomer takes over what it was told
  have hnow₃ : ended.now = ((h.now.put node.id ((Process.new node [seed.node.addr]).at .main shared₁
      ⟨.join [seed.node.addr], .step (.readFrame conn) rest⟩) h.now.net).put s
        { seed with shared := shared } (.response conn (.joinResponse
          (seed.node.identity shared.guarded.current) (seed.shared.table.members.map .new)) ::
            h.now.net)) := by
    rw [hended, History.now_push, hnow₂, haccepted, History.now_push, hnow₁]
    simp [Cluster.put, Cluster.setProc]
  have hq₃ : ended.now.procs node.id = some ((Process.new node [seed.node.addr]).at .main shared₁
      ⟨.join [seed.node.addr], .step (.readFrame conn) rest⟩) := by
    rw [hnow₃]
    simp [hne.symm]
  obtain ⟨h₀, settled, shared', hsettles, hjoins, hnow₄, habsorbed'⟩ :=
    exists_settle (hrun.extends hlater₃.later) hq₃ rfl (hrest _ _) (by rw [hnow₃]; rfl)
  have hjoined : ({ (Process.new node [seed.node.addr]).set .main none with
      shared := shared', serving := true } : Process) =
      { Process.new node [] with shared := shared' } := by
    have htasks : ((Process.new node [seed.node.addr]).set .main none).tasks =
        (Process.new node []).tasks := by
      funext slot
      rw [Process.tasks_set]
      by_cases hslot : slot = .main <;> simp [Process.new, hslot]
    simp only [Process.set, Process.new, Process.mk.injEq, true_and] at htasks ⊢
    exact ⟨htasks, by simp⟩
  rw [hjoined] at hnow₄
  refine ⟨settled, shared, shared', hlater₃.trans hsettles, ⟨h₀, hjoins⟩, ?_, ?_, ?_⟩
  · rw [hnow₄, hnow₃]
    simp [Cluster.put, Cluster.setProc, Function.update_comm hne]
  · have hclock : accepted.now.clock = h.now.clock := by
      rw [haccepted, History.now_push, hnow₁]
      rfl
    rw [hclock] at habsorbed
    exact habsorbed
  · have hclock : ended.now.clock = h.now.clock := by rw [hnow₃]; rfl
    rw [hclock] at habsorbed'
    exact habsorbed'.congr (by rw [hshared₁]) (by rw [hshared₁])

/-- A new node can be started with the address of any running one, and join through it. -/
theorem exists_join (hrun : Run h) (hs : h.now.procs s = some seed)
    (hrunning : seed.stopped = false) (hloops : seed.aborted = false)
    (hnew : h.now.procs node.id = none) (hmay : Process.mayStart node) :
    ∃ (h' : Trace) (shared shared' : Shared),
      History.Took Step (.start node [seed.node.addr]) h h' ∧
      Admitted node s seed shared shared' h h' := by
  have hne : s ≠ node.id := by
    rintro rfl
    exact absurd (hs.symm.trans hnew) (by simp)
  set started := h.push (.start node [seed.node.addr])
    (h.now.setProc node.id (.new node [seed.node.addr])) with hstarted
  have hstep : Step h.now (.start node [seed.node.addr]) started.now :=
    .start h.now node [seed.node.addr] hnew hmay
  have hs' : started.now.procs s = some seed := by
    rw [hstarted, History.now_push]
    simpa [Cluster.procs_setProc, hne] using hs
  obtain ⟨h', shared, shared', hsteps, hjoined, hnow, habsorbed, habsorbed'⟩ :=
    exists_admission (hrun.extends (.single hstep)) (if_pos rfl) hs' hne hrunning hloops
  refine ⟨h', shared, shared', ⟨_, hstep, hsteps.later⟩,
    (History.Extends.single ⟨hstep, trivial⟩).trans hsteps, hjoined, ?_, habsorbed, habsorbed'⟩
  rw [hnow, hstarted, History.now_push]
  simp [Cluster.put, Cluster.setProc, Function.update_comm hne]

end Dalila
