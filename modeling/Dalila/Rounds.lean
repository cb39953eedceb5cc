import Mathlib.Data.Finset.Basic
import Dalila.SyncRound

/-!
# Making a round happen

Two processes that run and are not leaving (`Process.Fit`), one of which holds the other as anything
but dead, can always trade tables, with nobody else moving and nothing lost (`exists_round`). The
file also proves what a round leaves in both tables (`sync_round_agrees`).
-/

namespace Dalila

open Program

/-! ## Steps of a round -/

/-- A step that the sync loops and accept loops in `S` take when nothing fails. -/
def Label.syncs (S : Finset NodeId) : Label → Prop
  | .begins q _ kind => q ∈ S ∧ kind = .sync
  | .accept q _ _ => q ∈ S
  | .op q _ _ o r => q ∈ S ∧ o.fails r = false
  | .finish q _ _ _ => q ∈ S
  | _ => False

variable {h h' : Trace} {q a b : NodeId} {p p' : Process} {slot : Slot} {kind : Kind}
  {S : Finset NodeId}

lemma Label.goes.syncs {l : Label} (hl : l.goes q slot kind) (hq : q ∈ S) : l.syncs S := by
  obtain ⟨o, r, rfl, _, hr⟩ := hl
  exact ⟨hq, hr⟩

/-! ## The halves of a round -/

/-- The caller's loop comes round, and picks anybody it does not hold dead. -/
lemma exists_pick {m : Member} (hp : h.now.procs a = some p) (hrunning : p.stopped = false)
    (hloops : p.aborted = false) (hserving : p.serving = true) (hidle : p.tasks .sync = none)
    (hm : m ∈ p.shared.table.members) (hdead : m.state.isDead = false) (ha : a ∈ S) :
    ∃ h', LaterBy (Label.syncs S) h h' ∧
      h'.now = h.now.put a (p.at .sync p.shared ⟨.sync, syncWith p.node m⟩) h.now.net := by
  have hbegins : Step h.now (.begins a .sync .sync)
      (h.now.put a (p.at .sync p.shared (Task.start p.node .sync)) h.now.net) :=
    .begins h.now a p .sync .sync hp hrunning hloops hidle (.sync hserving)
  have hpool : m ∈ p.shared.table.partnerPool := by
    simp [MemberTable.partnerPool, hm, hdead]
  have hop : p.run h.now.clock .randomMember ⟨p.shared, h.now.net⟩ (some m)
      ⟨p.shared, h.now.net⟩ := ⟨hpool, rfl⟩
  have hpick : Step (h.now.put a (p.at .sync p.shared (Task.start p.node .sync)) h.now.net)
      (.op a .sync .sync .randomMember (some m))
      (h.now.put a (p.at .sync p.shared ⟨.sync, syncWith p.node m⟩) h.now.net) :=
    Step.op_of_put rfl hrunning hop
  have hfirst : LaterBy (Label.syncs S) h (h.push (.begins a .sync .sync)
      (h.now.put a (p.at .sync p.shared (Task.start p.node .sync)) h.now.net)) :=
    .single ⟨hbegins, ha, rfl⟩
  exact ⟨_, hfirst.push ⟨hpick, ha, rfl⟩, rfl⟩

/-- The caller's first half can be run: it sends its request, and waits. -/
lemma exists_ask {partner : Member} {shared₀ : Shared}
    (hp : h.now.procs a = some (p.at .sync shared₀ ⟨.sync, syncWith p.node partner⟩))
    (hrunning : p.stopped = false) :
    ∃ (asked : Trace) (conn : Conn) (request : TcpBody) (members : List Member) (shared : Shared)
      (rest : Option TcpBody → Prog Unit) (c : Cluster),
      LaterBy (Label.goes a .sync .sync) h asked ∧
      Step asked.now (.op a .sync .sync (.writeRequest conn request) true) c ∧
      c = h.now.put a (p.at .sync shared ⟨.sync, .step (.readFrame conn) rest⟩)
        (.request conn request :: h.now.net) ∧
      conn.server = partner.addr ∧
      members.Perm shared₀.table.members ∧
      request = .syncRequest (p.node.identity shared₀.guarded.current) (members.map .new) ∧
      shared.table = shared₀.table ∧ shared.guarded = shared₀.guarded ∧
      ∀ sender members, rest (some (.syncResponse sender members)) =
        absorb p.node sender members := by
  let conn : Conn := ⟨some p.node.id, shared₀.conns, partner.addr⟩
  let shared : Shared := { shared₀ with conns := shared₀.conns + 1 }
  let request : TcpBody := .syncRequest (p.node.identity shared₀.guarded.current)
    (shared₀.table.members.map .new)
  have hasks : ∃ rest : Option TcpBody → Prog Unit,
      Program.Path (p.runs h.now.clock) (fun o => ¬ o.awaits = true)
        (syncWith p.node partner) ⟨shared₀, h.now.net⟩
        (.step (.writeRequest conn request) fun ok =>
          (if ok then Op.call (.readFrame conn) else pure none) >>= rest) ⟨shared, h.now.net⟩ ∧
      ∀ sender members, rest (some (.syncResponse sender members)) =
        absorb p.node sender members :=
    ⟨_, .step (r := some conn) (by simp [Op.awaits]) ⟨⟨rfl, rfl⟩, rfl⟩ <|
      .step (r := shared₀.guarded.current) (by simp [Op.awaits]) ⟨⟨rfl, rfl⟩, rfl⟩ <|
      .step (r := shared₀.table.members) (by simp [Op.awaits]) ⟨⟨.refl _, rfl⟩, rfl⟩ <|
      .refl _ _, fun _ _ => rfl⟩
  obtain ⟨rest, hpath, hrest⟩ := hasks
  obtain ⟨asked, hlater, hnow⟩ := LaterBy.of_path hp hrunning (Process.tasks_at ..) hpath
  rw [Process.at_at] at hnow
  refine ⟨asked, conn, request, shared₀.table.members, shared, rest, _, hlater,
    Step.op_of_put hnow hrunning ?_, rfl, rfl, .refl _, rfl, rfl, rfl, hrest⟩
  rfl

/-- The server's part can be run: it absorbs the request and replies with what it held. -/
lemma exists_serve {conn : Conn} {n : ℕ} {request : TcpBody} {sender : WireIdentity}
    {members : List WireMember}
    (hp : h.now.procs b =
      some (p.at (.spawned n) p.shared (Task.start p.node (.serve conn request))))
    (hrunning : p.stopped = false) (hrequest : request = .syncRequest sender members) :
    ∃ (served : Trace) (ours : List Member) (shared : Shared) (reply : TcpBody) (c : Cluster),
      LaterBy (Label.goes b (.spawned n) (.serve conn request)) h served ∧
      Step served.now (.op b (.spawned n) (.serve conn request) (.writeResponse conn reply) true)
        c ∧
      c = h.now.put b (p.at (.spawned n) shared ⟨.serve conn request, .ret ()⟩)
        (.response conn reply :: h.now.net) ∧
      ours.Perm p.shared.table.members ∧
      reply = .syncResponse (p.node.identity p.shared.guarded.current) (ours.map .new) ∧
      Absorbed p.node h.now.clock (sender.intoMember :: members) ⟨p.shared, h.now.net⟩
        ⟨shared, h.now.net⟩ := by
  subst hrequest
  let reply : TcpBody := .syncResponse (p.node.identity p.shared.guarded.current)
    (p.shared.table.members.map .new)
  obtain ⟨shared, habsorb, habsorbed⟩ :=
    p.exists_absorbs h.now.clock sender members p.shared h.now.net
  have hpath : Program.Path (p.runs h.now.clock) (fun o => ¬ o.awaits = true)
      (Kind.start p.node (.serve conn (.syncRequest sender members))) ⟨p.shared, h.now.net⟩
      (.step (.writeResponse conn reply) fun _ => .ret ()) ⟨shared, h.now.net⟩ := by
    show Program.Path _ _ (serve p.node conn (.syncRequest sender members)) _ _ _
    rw [serve_syncRequest]
    refine .step (r := p.shared.guarded.current) (by simp [Op.awaits]) ⟨⟨rfl, rfl⟩, rfl⟩ ?_
    refine .step (r := p.shared.table.members) (by simp [Op.awaits]) ⟨⟨.refl _, rfl⟩, rfl⟩ ?_
    exact habsorb.bind _
  obtain ⟨served, hlater, hnow⟩ := LaterBy.of_path hp hrunning (Process.tasks_at ..) hpath
  rw [Process.at_at] at hnow
  exact ⟨served, p.shared.table.members, shared, reply, _, hlater,
    Step.op_of_put hnow hrunning rfl, rfl, .refl _, rfl, habsorbed⟩

/-- The caller's second half can be run: it absorbs the reply. -/
lemma exists_hear {conn : Conn} {shared : Shared} {rest : Option TcpBody → Prog Unit}
    {reply : TcpBody} {sender : WireIdentity} {members : List WireMember} {net : List Packet}
    (hp : h.now.procs a = some (p.at .sync shared ⟨.sync, .step (.readFrame conn) rest⟩))
    (halive : p.stopped = false)
    (hrest : rest (some (.syncResponse sender members)) = absorb p.node sender members)
    (hreply : reply = .syncResponse sender members)
    (hnet : h.now.net = .response conn reply :: net) :
    ∃ (c : Cluster) (h' : Trace) (shared' : Shared),
      Step h.now (.op a .sync .sync (.readFrame conn) (some reply)) c ∧
      LaterBy (Label.goes a .sync .sync)
        (h.push (.op a .sync .sync (.readFrame conn) (some reply)) c) h' ∧
      h'.now = h.now.put a (p.at .sync shared' ⟨.sync, .ret ()⟩) net ∧
      Absorbed p.node h.now.clock (sender.intoMember :: members) ⟨shared, net⟩ ⟨shared', net⟩ := by
  rw [← hreply] at hrest
  have hstep := exists_read (h := h) hp halive hnet
  set h₁ := h.push (.op a .sync .sync (.readFrame conn) (some reply))
    (h.now.put a (p.at .sync shared ⟨.sync, rest (some reply)⟩) net)
    with hh₁
  obtain ⟨shared', habsorb, habsorbed⟩ := p.exists_absorbs h.now.clock sender members shared net
  rw [← hrest] at habsorb
  have hp₁ : h₁.now.procs a =
      some (p.at .sync shared ⟨.sync, rest (some reply)⟩) := if_pos rfl
  obtain ⟨h', hlater, hnow⟩ := LaterBy.of_path hp₁ halive (Process.tasks_at ..) habsorb
  refine ⟨_, h', shared', hstep, hlater, ?_, habsorbed⟩
  rw [hnow, hh₁]
  simp

/-! ## A whole round -/

/-- Runs, has joined, is not leaving, and is in the middle of no sync. -/
structure Process.Fit (p : Process) : Prop where
  running : p.stopped = false
  loops : p.aborted = false
  serving : p.serving = true
  staying : p.shared.guarded.leaving = false
  idle : p.tasks .sync = none

/-- Two processes after a round: everybody else is as before. -/
structure Rounded (a b : NodeId) (c c' : Cluster) : Prop where
  clock : c'.clock = c.clock
  others : ∀ q, q ≠ a → q ≠ b → c'.procs q = c.procs q
  pair : ∃ pa pb pa' pb' : Process, c.procs a = some pa ∧ c.procs b = some pb ∧
    c'.procs a = some pa' ∧ c'.procs b = some pb' ∧ pa'.Fit ∧ pb'.Fit ∧
    Told c.clock pa pb pb' ∧ Told c.clock pb pa pa'

/-- A round leaves a process as fit as it was. -/
lemma Told.fit {now : Instant} {p₀ : Process} {shared : Shared} (hfit : p.Fit)
    (htold : Told now p₀ p { p with shared := shared }) :
    Process.Fit { p with shared := shared } := by
  obtain ⟨_, _, _, habsorbed⟩ := htold
  exact ⟨hfit.running, hfit.loops, hfit.serving, habsorbed.leaving.trans hfit.staying, hfit.idle⟩

/-- The two tasks of a round can run to where each only has to end. -/
lemma exists_exchange {pa pb : Process} {m : Member} (hrun : Run h)
    (hpa : h.now.procs a = some pa) (hpb : h.now.procs b = some pb) (hfit : pa.Fit)
    (hfit' : pb.Fit) (hget : pa.shared.table.get b = some m) (hdead : m.state.isDead = false) :
    ∃ (h₁ h₂ : Trace) (request reply : TcpBody) (conn : Conn) (n : ℕ) (sharedA sharedB : Shared),
      LaterBy (Label.syncs {a, b}) h h₁ ∧
      h₁.now = h.now.put a (pa.at .sync pa.shared ⟨.sync, syncWith pa.node m⟩) h.now.net ∧
      SyncRound a b request reply h₁ h₂ ∧ LaterBy (Label.syncs {a, b}) h h₂ ∧
      pb.tasks (.spawned n) = none ∧
      h₂.now = (h.now.put b (pb.at (.spawned n) sharedB ⟨.serve conn request, .ret ()⟩)
        h.now.net).put a (pa.at .sync sharedA ⟨.sync, .ret ()⟩) h.now.net ∧
      Told h.now.clock pa pb { pb with shared := sharedB } ∧
      Told h.now.clock pb pa { pa with shared := sharedA } := by
  have hab : a ≠ b := by
    rintro rfl
    exact absurd ((hrun.sane hpa).own.symm.trans hget) (by simp)
  have haddr : m.addr = pb.node.addr := by
    obtain ⟨p, hp, haddr, _⟩ := hrun.exists_subject hpa hget
    obtain rfl := Option.some.inj (hp.symm.trans hpb)
    exact haddr.symm
  have ha : a ∈ ({a, b} : Finset NodeId) := by simp
  have hb : b ∈ ({a, b} : Finset NodeId) := by simp
  -- `a` picks `b` and sends its request
  obtain ⟨h₁, hlater₁, hnow₁⟩ := exists_pick (S := {a, b}) hpa hfit.running hfit.loops
    hfit.serving hfit.idle (MemberTable.mem_of_get hget) hdead ha
  have hpa₁ : h₁.now.procs a = some (pa.at .sync pa.shared ⟨.sync, syncWith pa.node m⟩) := by
    rw [hnow₁]; simp
  obtain ⟨asked, conn, request, members, shared, rest, c₁, hasks, hwrite, hc₁, hserver, hmembers,
    hrequest, htable, hguarded, hrest⟩ := exists_ask hpa₁ hfit.running
  have hlater₂ : LaterBy (Label.syncs {a, b}) h
      (asked.push (.op a .sync .sync (.writeRequest conn request) true) c₁) :=
    (hlater₁.trans (hasks.imp fun l hl => hl.syncs ha)).push ⟨hwrite, ha, rfl⟩
  -- `b` takes it in
  have hc₁ : c₁ = h.now.put a (pa.at .sync shared ⟨.sync, .step (.readFrame conn) rest⟩)
      (.request conn request :: h.now.net) := by
    rw [hc₁, hnow₁]; simp
  have hpb₁ : c₁.procs b = some pb := by
    rw [hc₁]
    simpa [hab.symm] using hpb
  obtain ⟨n, hfree, haccept⟩ := exists_accept h.now.net
    (h := asked.push (.op a .sync .sync (.writeRequest conn request) true) c₁)
    (hrun.extends hlater₂.later) hpb₁ hfit'.running hfit'.loops (hserver.trans haddr)
    (by rw [History.now_push, hc₁]; rfl)
  set accepted := (asked.push (.op a .sync .sync (.writeRequest conn request) true) c₁).push
    (.accept b conn request)
    (c₁.put b (pb.at (.spawned n) pb.shared (Task.start pb.node (.serve conn request))) h.now.net)
    with haccepted
  have hlater₃ : LaterBy (Label.syncs {a, b}) h accepted := hlater₂.push ⟨haccept, hb⟩
  -- `b` serves it
  obtain ⟨served, ours, shared', reply, c₃, hserves, hreply, hc₃, hours, hreply', habsorbed⟩ :=
    exists_serve (h := accepted) (p := pb) (if_pos rfl) hfit'.running hrequest
  set replied := served.push
    (.op b (.spawned n) (.serve conn request) (.writeResponse conn reply) true) c₃ with hreplied
  have hlater₄ : LaterBy (Label.syncs {a, b}) h replied :=
    (hlater₃.trans (hserves.imp fun l hl => hl.syncs hb)).push ⟨hreply, hb, rfl⟩
  -- `a` absorbs the reply
  have hnow₃ : accepted.now = (h.now.put a (pa.at .sync shared
      ⟨.sync, .step (.readFrame conn) rest⟩) h.now.net).put b (pb.at (.spawned n) pb.shared
        (Task.start pb.node (.serve conn request))) h.now.net := by
    rw [haccepted, History.now_push, hc₁]
    rfl
  have hnow₄ : replied.now = (h.now.put a (pa.at .sync shared
      ⟨.sync, .step (.readFrame conn) rest⟩) h.now.net).put b (pb.at (.spawned n) shared'
        ⟨.serve conn request, .ret ()⟩) (.response conn reply :: h.now.net) := by
    rw [hreplied, History.now_push, hc₃, hnow₃]
    simp
  have hpa₄ : replied.now.procs a = some (pa.at .sync shared
      ⟨.sync, .step (.readFrame conn) rest⟩) := by
    rw [hnow₄]
    simp [hab]
  have hnet₄ : replied.now.net = .response conn reply :: h.now.net := by
    rw [hnow₄]
    rfl
  obtain ⟨c₄, heard, shared'', hreads, hhears, hnow₅, habsorbed'⟩ :=
    exists_hear hpa₄ hfit.running (hrest _ _) hreply' hnet₄
  have hlater₅ : LaterBy (Label.syncs {a, b}) h heard :=
    (hlater₄.push ⟨hreads, ha, rfl⟩).trans (hhears.imp fun l hl => hl.syncs ha)
  have hpa₅ : heard.now.procs a = some (pa.at .sync shared'' ⟨.sync, .ret ()⟩) := by
    rw [hnow₅]
    exact if_pos rfl
  have hround : SyncRound a b request reply h₁ heard :=
    ⟨_, _, _, m, conn, n, asked, served, c₁, _, c₃, c₄, hpa₁, Process.tasks_at ..,
      hasks.imp fun l hl => hl.works, hwrite, haccept, if_pos rfl, Process.tasks_at ..,
      hserves.imp fun l hl => hl.works, hreply, hreads, hhears.imp fun l hl => hl.works, hpa₅,
      Process.tasks_at ..⟩
  have hclock : accepted.now.clock = h.now.clock := by rw [hnow₃]; rfl
  have hclock' : replied.now.clock = h.now.clock := by rw [hnow₄]; rfl
  rw [hclock] at habsorbed
  rw [hclock'] at habsorbed'
  refine ⟨h₁, heard, request, reply, conn, n, shared'', shared', hlater₁, hnow₁, hround, hlater₅,
    hfree, ?_, ⟨members, accepted.now.net, hmembers, habsorbed⟩,
    ⟨ours, _, hours, habsorbed'.congr htable hguarded⟩⟩
  rw [hnow₅, hnow₄, Cluster.put_comm _ hab, Cluster.put_put]

/-- A node can sync with anybody it holds as anything but dead. -/
theorem exists_round {pa pb : Process} {m : Member} (hrun : Run h) (hpa : h.now.procs a = some pa)
    (hpb : h.now.procs b = some pb) (hfit : pa.Fit) (hfit' : pb.Fit)
    (hget : pa.shared.table.get b = some m) (hdead : m.state.isDead = false) :
    ∃ (h₁ h₂ h' : Trace) (request reply : TcpBody), LaterBy (Label.syncs {a, b}) h h₁ ∧
      h₁.now = h.now.put a (pa.at .sync pa.shared ⟨.sync, syncWith pa.node m⟩) h.now.net ∧
      SyncRound a b request reply h₁ h₂ ∧ LaterBy (Label.syncs {a, b}) h h' ∧
      Rounded a b h.now h'.now := by
  have hab : a ≠ b := by
    rintro rfl
    exact absurd ((hrun.sane hpa).own.symm.trans hget) (by simp)
  obtain ⟨h₁, h₂, request, reply, conn, n, sharedA, sharedB, hlater₁, hnow₁, hround, hlater₂,
    hfree, hnow₂, htold, htold'⟩ := exists_exchange hrun hpa hpb hfit hfit' hget hdead
  have ha : a ∈ ({a, b} : Finset NodeId) := by simp
  have hb : b ∈ ({a, b} : Finset NodeId) := by simp
  -- both tasks end
  have hrun₂ := hrun.extends hlater₂.later
  have hpa₂ : h₂.now.procs a = some (pa.at .sync sharedA ⟨.sync, .ret ()⟩) := by
    rw [hnow₂]
    exact if_pos rfl
  have hends : Step h₂.now (.finish a .sync .sync ())
      (h₂.now.put a { pa with shared := sharedA } h₂.now.net) :=
    exists_finish _ hrun₂ hpa₂ hfit.running fun _ => by
      simp [Process.finish, Process.at, Process.set, ← hfit.idle]
  set h₃ := h₂.push (.finish a .sync .sync ())
    (h₂.now.put a { pa with shared := sharedA } h₂.now.net) with hh₃
  have hnow₃ : h₃.now = (h.now.put b (pb.at (.spawned n) sharedB ⟨.serve conn request, .ret ()⟩)
      h.now.net).put a { pa with shared := sharedA } h.now.net := by
    rw [hh₃, History.now_push, hnow₂]
    simp
  have hpb₃ : h₃.now.procs b =
      some (pb.at (.spawned n) sharedB ⟨.serve conn request, .ret ()⟩) := by
    rw [hnow₃]
    simp [hab.symm]
  have hends' : Step h₃.now (.finish b (.spawned n) (.serve conn request) ())
      (h₃.now.put b { pb with shared := sharedB } h₃.now.net) :=
    exists_finish _ (Run.push hrun₂ hends) hpb₃ hfit'.running fun _ => by
      simp [Process.finish, Process.at, Process.set, ← hfree]
  refine ⟨h₁, h₂, _, request, reply, hlater₁, hnow₁, hround,
    (hlater₂.push ⟨hends, ha⟩).push ⟨hends', hb⟩, ?_⟩
  rw [History.now_push, hnow₃]
  exact {
    clock := rfl
    others := fun q hqa hqb => by simp [hqa, hqb]
    pair := ⟨pa, pb, _, _, hpa, hpb, by simp [hab], by simp, htold'.fit hfit, htold.fit hfit',
      htold, htold'⟩ }

/-! ## What a round leaves behind -/

/-- A sync from `a` to `b` makes them agree about everybody else: on the greater record, or
one has a death that the other has no entry for. Nothing is lost or lowered, each holds the
other no lower than the other said, and what doubt of the other is left the other has already
outgrown, unless it is leaving. -/
theorem sync_round_agrees (hrun : Run h)
    (hmax : ∀ q p, h.now.procs q = some p → p.shared.guarded.incarnation < Incarnation.max)
    (hround : SyncRound a b request reply h h') (hab : a ≠ b) :
    ∃ pa pb pa' pb' : Process, h.now.procs a = some pa ∧ h.now.procs b = some pb ∧
      h'.now.procs a = some pa' ∧ h'.now.procs b = some pb' ∧
      (∀ id, id ≠ a → id ≠ b →
        ((pa'.shared.table.get id).map .new = WireMember.greater
            ((pa.shared.table.get id).map .new) ((pb.shared.table.get id).map .new) ∧
          (pb'.shared.table.get id).map .new = WireMember.greater
            ((pa.shared.table.get id).map .new) ((pb.shared.table.get id).map .new)) ∨
        (∃ m, pa'.shared.table.get id = some m ∧ m.state.isDead = true ∧
          pb'.shared.table.get id = none) ∨
        (∃ m, pb'.shared.table.get id = some m ∧ m.state.isDead = true ∧
          pa'.shared.table.get id = none)) ∧
      pa.shared.table.Grows pa'.shared.table ∧ pb.shared.table.Grows pb'.shared.table ∧
      (∃ sender m, request.sender = some sender ∧ sender.id = a ∧
        pb'.shared.table.get a = some m ∧ sender.incarnation ≤ m.incarnation) ∧
      (∃ sender m, reply.sender = some sender ∧ sender.id = b ∧
        pa'.shared.table.get b = some m ∧ sender.incarnation ≤ m.incarnation) ∧
      (∀ m, pb'.shared.table.get a = some m → m.state ≠ .alive →
        pa'.shared.guarded.leaving = true ∨ m.incarnation < pa'.shared.guarded.incarnation) ∧
      (∀ m, pa'.shared.table.get b = some m → m.state ≠ .alive →
        pb'.shared.guarded.leaving = true ∨ m.incarnation < pb'.shared.guarded.incarnation) := by
  obtain ⟨pa, pb, pa', pb', hpa, hpb, hpa', hpb', htold, htold', hrequest, hreply⟩ :=
    hround.told hab
  have hsane := hrun.sane hpa
  have hsane' := hrun.sane hpb
  have hauthored : ∀ {q : NodeId} {p : Process} {id : NodeId} {m : Member},
      h.now.procs q = some p → p.shared.table.get id = some m →
      m.id = id ∧ Authored h (.new m) := fun hp hget =>
    ⟨MemberTable.id_of_get hget,
      (hrun.vouched (.entry _ _ _ hp (MemberTable.mem_of_get hget))).authored⟩
  have hip : ∀ {m : Member}, Authored h (.new m) → m.addr.ip.isUnspecified = false := by
    intro m hm
    obtain ⟨p, hp, haddr, _⟩ := hm.exists_process hrun
    have haddr : p.node.addr = m.addr := haddr
    rw [← haddr]
    exact (hrun.sane hp).mayStart.1
  -- a doubt that is left was there before, and the round has told its subject
  have hdoubt : ∀ {q : NodeId} {p q₀ p' : Process} {m : Member},
      h.now.procs q = some p → p.node.id = q → Told h.now.clock q₀ p p' →
      (∃ q₁, h.now.procs q₁ = some q₀) → q₀.shared.table.get q = some m → m.state ≠ .alive →
      p'.shared.guarded.leaving = true ∨ m.incarnation < p'.shared.guarded.incarnation := by
    rintro q p q₀ p' m hp hid htold ⟨q₁, hq₁⟩ hget hstate
    by_cases hleaving : p.shared.guarded.leaving = true
    · obtain ⟨_, _, _, habsorbed⟩ := htold
      exact .inl (habsorbed.leaving.trans hleaving)
    · have hleaving : p.shared.guarded.leaving = false := by simpa using hleaving
      obtain ⟨hmid, hm⟩ := hauthored hq₁ hget
      obtain ⟨p₀, hp₀, _, _, hle⟩ := hm.exists_process hrun
      have hp₀ : h.now.procs m.id = some p₀ := hp₀
      rw [hmid] at hp₀
      obtain rfl := Option.some.inj (hp₀.symm.trans hp)
      exact .inr (htold.answers hid hleaving hget hstate (lt_of_le_of_lt hle (hmax q p₀ hp)))
  refine ⟨pa, pb, pa', pb', hpa, hpb, hpa', hpb', ?_, htold'.grows, htold.grows, ?_, ?_, ?_, ?_⟩
  · intro id ha hb
    rw [htold'.get_other hsane'.id hsane.id hb ha, htold.get_other hsane.id hsane'.id ha hb]
    refine offers_agree ?_ ?_
    · rintro m (hm | hm)
      · exact hip (hauthored hpa hm).2
      · exact hip (hauthored hpb hm).2
    · intro m m' hm hm'
      obtain ⟨hid, hr⟩ := hauthored hpa hm
      obtain ⟨hid', hr'⟩ := hauthored hpb hm'
      obtain ⟨haddr, htags, hready⟩ := hr.same hrun hmax hr' (hid.trans hid'.symm)
      exact ⟨hid.trans hid'.symm, haddr, htags, hready⟩
  · obtain ⟨m, hget, hle⟩ := htold.holds_speaker hsane hsane'.id hab
    exact ⟨_, m, hrequest, hsane.id, hget, hle⟩
  · obtain ⟨m, hget, hle⟩ := htold'.holds_speaker hsane' hsane.id hab.symm
    exact ⟨_, m, hreply, hsane'.id, hget, hle⟩
  · intro m hget hstate
    have hbefore := htold.doubted hsane hsane'.id hab hget hstate
    exact hdoubt hpa hsane.id htold' ⟨b, hpb⟩ hbefore hstate
  · intro m hget hstate
    have hbefore := htold'.doubted hsane' hsane.id hab.symm hget hstate
    exact hdoubt hpb hsane'.id htold ⟨a, hpa⟩ hbefore hstate

/-- Two nodes sync, the first of which knows a third. Afterwards both hold the third as it is. -/
theorem sync_round_agrees_trio : ∃ h h' request reply pa pb pa' pb' m,
    Run h ∧ SyncRound alpha.id beta.id request reply h h' ∧
      h.now.procs alpha.id = some pa ∧ h.now.procs beta.id = some pb ∧
      h'.now.procs alpha.id = some pa' ∧ h'.now.procs beta.id = some pb' ∧
      pa.shared.table.get gamma.id = some m ∧ pb.shared.table.get gamma.id = none ∧
      (pa'.shared.table.get gamma.id).map .new = some (WireMember.new m) ∧
      (pb'.shared.table.get gamma.id).map .new = some (WireMember.new m) ∧
      (∃ sender m, request.sender = some sender ∧ sender.id = alpha.id ∧
        pb'.shared.table.get alpha.id = some m ∧ sender.incarnation ≤ m.incarnation) ∧
      ∃ sender m, reply.sender = some sender ∧ sender.id = beta.id ∧
        pa'.shared.table.get beta.id = some m ∧ sender.incarnation ≤ m.incarnation := by
  obtain ⟨h₀, h, seed, known, shared, shared', shared'', hrun₀, hnow₀, rfl, _, hadmitted, hguarded,
    hguarded', hguarded'', _, hbeta, hgamma, hmembers'⟩ := exists_trio
  have hrun : Run h := hrun₀.extends hadmitted.steps.later
  set p : Process := { Process.new alpha [] with shared := shared } with hp
  have halpha : h.now.procs alpha.id = some p := by
    rw [hadmitted.now, Cluster.procs_put, if_neg (by decide), Cluster.procs_put, if_pos rfl]
  have hother : h.now.procs beta.id = some { Process.new beta [] with shared := shared' } := by
    rw [hadmitted.now, Cluster.procs_put, if_neg (by decide), Cluster.procs_put,
      if_neg alpha_ne_beta.symm, hnow₀]
    exact Cluster.procs_pair_right
  obtain ⟨h₁, h₂, _, request, reply, hlater₁, hnow₁, hround, _⟩ := exists_round hrun halpha hother
    ⟨rfl, rfl, rfl, by rw [hp, hguarded]; rfl, rfl⟩ ⟨rfl, rfl, rfl, by rw [hguarded']; rfl, rfl⟩
    hbeta rfl
  have hrun₁ : Run h₁ := hrun.extends hlater₁.later
  have hmax : ∀ q p, h₁.now.procs q = some p → p.shared.guarded.incarnation < Incarnation.max := by
    intro q p' hp'
    have hnew : p'.shared.guarded = .new := by
      rw [hnow₁, Cluster.procs_put, hadmitted.now, Cluster.procs_put, Cluster.procs_put,
        hnow₀] at hp'
      split_ifs at hp' with hqa hqg
      · rw [← Option.some.inj hp']
        exact hguarded
      · rw [← Option.some.inj hp']
        exact hguarded''
      · obtain rfl := (Cluster.eq_or_eq_of_pair hp').resolve_left hqa
        rw [← Option.some.inj (Cluster.procs_pair_right.symm.trans hp')]
        exact hguarded'
    rw [hnew]
    decide
  obtain ⟨pa, pb, pa', pb', hpa, hpb, hpa', hpb', hagree, hgrows, _, hholds, hholds', _⟩ :=
    sync_round_agrees hrun₁ hmax hround alpha_ne_beta
  -- what they knew of the third before
  have hshared : pa.shared = shared := by
    rw [hnow₁, Cluster.procs_put, if_pos rfl] at hpa
    rw [← Option.some.inj hpa]
    rfl
  have hshared' : pb.shared = shared' := by
    rw [hnow₁, Cluster.procs_put, if_neg alpha_ne_beta.symm, hother] at hpb
    rw [← Option.some.inj hpb]
  have hm : pa.shared.table.get gamma.id =
      some ((gamma.aliveRumor Guarded.new.current).toMember 0) := by rw [hshared, hgamma]
  have hnone : pb.shared.table.get gamma.id = none := by
    rw [hshared', MemberTable.get, hmembers']
    decide
  obtain ⟨hboth, hboth'⟩ : (pa'.shared.table.get gamma.id).map .new =
        some (WireMember.new ((gamma.aliveRumor Guarded.new.current).toMember 0)) ∧
      (pb'.shared.table.get gamma.id).map .new =
        some (WireMember.new ((gamma.aliveRumor Guarded.new.current).toMember 0)) := by
    rcases hagree gamma.id (by decide) (by decide) with hsame | ⟨_, _, _, hunknown⟩ |
      ⟨_, _, _, hunknown⟩
    · rw [hm, hnone] at hsame
      exact hsame
    · -- the second has been told of the third
      obtain ⟨pa₀, pb₀, _, pb₁, hpa₀, hpb₀, _, hpb₁, htold, _⟩ := hround.told alpha_ne_beta
      obtain rfl := Option.some.inj (hpa.symm.trans hpa₀)
      obtain rfl := Option.some.inj (hpb.symm.trans hpb₀)
      obtain rfl := Option.some.inj (hpb'.symm.trans hpb₁)
      have hget := htold.get_other (hrun₁.sane hpa).id (hrun₁.sane hpb).id
        (show gamma.id ≠ alpha.id by decide) (show gamma.id ≠ beta.id by decide)
      rw [hunknown, hm, hnone] at hget
      set w := (WireMember.new ((gamma.aliveRumor Guarded.new.current).toMember 0), h₁.now.clock)
      have hget : none = Register.offers entryRules none [w] := hget
      have hsome : (Register.offers entryRules none [w]).isSome :=
        Register.isSome_offers_of_admits (List.mem_singleton_self w) rfl
      rw [← hget] at hsome
      exact absurd hsome (by simp)
    · obtain ⟨m', hm', _⟩ := hgrows gamma.id _ hm
      exact absurd (hunknown.symm.trans hm') (by simp)
  exact ⟨h₁, h₂, request, reply, pa, pb, pa', pb', _, hrun₁, hround, hpa, hpb, hpa', hpb', hm, hnone,
    hboth, hboth', hholds, hholds'⟩

end Dalila
