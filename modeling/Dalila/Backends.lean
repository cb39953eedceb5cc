import Dalila.Proxy
import Dalila.TransportTheorems

/-!
# Whom the proxy connects to

This file contains
- `selfAfter`: what a node says of itself, read off the steps it took
- the proof that every address the proxy connects a client to is that of a node that was started in
  the cluster and had said it was ready, in terms of what happened and nothing else
-/

namespace Dalila

/-! ## What a node says of itself -/

/-- What a step changes of it. -/
def Label.guards (id : NodeId) : Label → Guarded → Guarded
  | .op q _ _ o _, g => if q = id then o.guardedAfter g else g
  | _, g => g

/-- What `id` says of itself after these steps, the newest first. -/
def selfAfter (id : NodeId) (labels : List Label) : Guarded :=
  labels.foldr (Label.guards id) .new

variable {W : Wiring} {h : Trace} {q id : NodeId} {p : Process} {r : WireMember} {l : Label}

lemma selfAfter_push (h : Trace) (l : Label) (c : Cluster) (id : NodeId) :
    selfAfter id ((h.push l c).seen Label.shown) =
      l.guards id (selfAfter id (h.seen Label.shown)) := by
  rw [History.seen_push]
  cases l <;> rfl

/-- Whoever does not take the step says the same after it. -/
lemma Label.guards_of_other {g : Guarded} (hother : ∀ slot kind o r, l ≠ .op id slot kind o r) :
    l.guards id g = g := by
  cases l with
  | op q slot kind o r =>
    have hne : q ≠ id := by
      rintro rfl
      exact hother slot kind o r rfl
    exact if_neg hne
  | _ => rfl

/-- The steps of a run tell what every process says of itself. -/
lemma Run.selfAfter_eq (hrun : Run h) :
    (∀ p, h.now.procs id = some p → p.shared.guarded = selfAfter id (h.seen Label.shown)) ∧
      (h.now.procs id = none → selfAfter id (h.seen Label.shown) = .new) := by
  refine History.IsRun.induction (P := fun h => (∀ p, h.now.procs id = some p →
    p.shared.guarded = selfAfter id (h.seen Label.shown)) ∧
      (h.now.procs id = none → selfAfter id (h.seen Label.shown) = .new)) hrun ?_ ?_
  · rintro c rfl
    exact ⟨fun p hp => absurd hp (by simp [History.init, Cluster.empty]), fun _ => rfl⟩
  · intro h l c _ ih hstep
    rw [selfAfter_push]
    by_cases hown : ∃ slot kind o r, l = .op id slot kind o r
    · obtain ⟨slot, kind, o, r, rfl⟩ := hown
      obtain ⟨p, next, shared, net, hp, _, _, hop, rfl⟩ := hstep.of_op
      have hsaid : Label.guards id (.op id slot kind o r) (selfAfter id (h.seen Label.shown)) =
          o.guardedAfter p.shared.guarded := by
        rw [← ih.1 p hp]
        exact if_pos rfl
      rw [hsaid]
      refine ⟨fun p' hp' => ?_, fun hnone => absurd hnone (by simp)⟩
      rw [Cluster.eq_of_procs_setProc hp']
      exact hop.guarded
    · rw [Label.guards_of_other fun slot kind o r hl => hown ⟨slot, kind, o, r, hl⟩]
      refine ⟨fun p' hp' => ?_, fun hnone => ih.2 ?_⟩
      · rcases hstep.proc_cases hp' with ⟨p, hp, hev⟩ | ⟨hnone, node, seeds, _, _, _, rfl⟩
        · rcases hev.shared with hsame | ⟨slot, kind, o, r, _, hl, _⟩
          · rw [hsame]
            exact ih.1 p hp
          · exact absurd ⟨slot, kind, o, r, hl⟩ hown
        · exact (ih.2 hnone).symm
      · cases hp : h.now.procs id with
        | none => rfl
        | some p =>
          obtain ⟨p', hp', _⟩ := hstep.exists_evolves hp
          exact absurd (hnone.symm.trans hp') (by simp)

/-- What stands behind a record, in what has happened: its node was started with that address and
these tags, and said of itself what the record says. -/
lemma Authored.exists_seen (hrun : Run h) (hr : Authored h r) :
    ∃ node seeds later earlier, h.seen Label.shown = later ++ earlier ∧
      .start node seeds ∈ earlier ∧ node.id = r.id ∧ node.addr = r.addr ∧ node.tags = r.tags ∧
      (selfAfter node.id earlier).incarnation = r.incarnation ∧
      (selfAfter node.id earlier).ready = r.ready := by
  obtain ⟨c, hc, p, hp, haddr, htags, hi, hready⟩ := hr
  obtain ⟨h₀, hrun₀, rfl, hlater⟩ := History.mem_states_of_run hrun hc
  obtain ⟨later, hseen⟩ := hlater.exists_seen Label.shown
  have hrun₀ : Run h₀ := hrun₀
  obtain ⟨seeds, hstart⟩ := hrun₀.exists_start hp
  have hself := hrun₀.selfAfter_eq.1 p hp
  refine ⟨p.node, seeds, later, _, hseen, hstart, (hrun₀.sane hp).id, haddr, htags, ?_, ?_⟩
  · rw [(hrun₀.sane hp).id, ← hself, hi]
  · rw [(hrun₀.sane hp).id, ← hself, hready]

/-! ## Whom it tries -/

/-- Only backends are tried. -/
lemma mem_of_mem_tryEach {target : Target} {backends : List SocketAddr} {start : ℕ}
    {connect : ℕ → Connect} {turns : List ℕ} {addr : SocketAddr}
    (haddr : addr ∈ (tryEach target backends start connect turns).1) : addr ∈ backends := by
  induction turns with
  | nil => exact absurd haddr List.not_mem_nil
  | cons i turns ih =>
    unfold tryEach at haddr
    cases hpick : target.pick backends start i with
    | none =>
      rw [hpick] at haddr
      exact absurd haddr List.not_mem_nil
    | some backend =>
      have hbackend : backend ∈ backends := by
        unfold Target.pick at hpick
        split at hpick
        · exact absurd hpick (by simp)
        · split_ifs at hpick
          exact List.mem_of_getElem? hpick
      rw [hpick] at haddr
      cases hconnect : connect i with
      | accepted =>
        simp only [hconnect, List.mem_singleton] at haddr
        exact haddr ▸ hbackend
      | refused | timedOut =>
        simp only [hconnect, List.mem_cons] at haddr
        rcases haddr with rfl | haddr
        · exact hbackend
        · exact ih haddr

/-- With strangers that neither have a right tag nor replay what can be read elsewhere, the proxy
connects its clients to nodes of the cluster and to nobody else. Every address it tries is that of a
node that was started in the cluster with the tag that is asked for, at the port of the service; and
at some point of what has happened that node had said it was ready, at the incarnation at which it is
in the table. -/
theorem proxy_connects_to_members (htcp : W.tcp.Documented TcpBody.codec)
    (hudp : W.udp.Documented UdpBody.codec) {w : WireTrace} (hrun : WireRun W w)
    (hp : w.now.procs q = some p) {ready : List Member} (hready : ready.Perm p.shared.table.ready)
    {target : Target} {backendPort : UInt16} {tag : Option String} {next : BitVec target.bits}
    {connect : ℕ → Connect} {addr : SocketAddr}
    (haddr : addr ∈ (forward target p.node p.shared.guarded.ready ready backendPort tag next
      connect).1.1) :
    ∃ node seeds later earlier, w.seen WireLabel.shown = later ++ earlier ∧
      .start node seeds ∈ earlier ∧ carries node.tags tag = true ∧
      addr = ⟨node.addr.ip, backendPort⟩ ∧ (selfAfter node.id earlier).ready = true ∧
      (later = [] ∧ node = p.node ∨ ∃ m ∈ p.shared.table.members, m.id = node.id ∧
        m.state = .alive ∧ (selfAfter node.id earlier).incarnation = m.incarnation) := by
  obtain ⟨h, hrun', hseen, hcarries⟩ := (carries_simulates htcp hudp).exists_run hrun
  have hrun' : Run h := hrun'
  rw [← hcarries.procs] at hp
  rw [← hseen]
  rcases (mem_backends_iff hready).mp (mem_of_mem_tryEach haddr) with
    ⟨m, hm, halive, hisReady, htag, rfl⟩ | ⟨hisReady, htag, rfl⟩
  · obtain ⟨node, seeds, later, earlier, hparts, hstart, hid, haddr, htags, hi, hsaid⟩ :=
      (hrun'.vouched (.entry q p m hp hm)).authored.exists_seen hrun'
    have hid : node.id = m.id := hid
    have haddr : node.addr = m.addr := haddr
    have htags : node.tags = m.tags := htags
    refine ⟨node, seeds, later, earlier, hparts, hstart, ?_, ?_, hsaid.trans hisReady,
      .inr ⟨m, hm, hid.symm, halive, hi⟩⟩
    · rw [htags, htag]
    · rw [haddr]
  · obtain ⟨seeds, hstart⟩ := hrun'.exists_start hp
    have hself := hrun'.selfAfter_eq.1 p hp
    refine ⟨p.node, seeds, [], h.seen Label.shown, rfl, hstart, htag, rfl, ?_, .inl ⟨rfl, rfl⟩⟩
    rw [(hrun'.sane hp).id, ← hself, hisReady]

/-- With a backend there is a first one to try. -/
lemma exists_mem_forward {node : LocalNode} {isReady : Bool} {ready : List Member}
    {backendPort : UInt16} {tag : Option String} {addr : SocketAddr}
    (haddr : addr ∈ backends node isReady ready backendPort tag) :
    ∃ addr, addr ∈ (forward ⟨64, false⟩ node isReady ready backendPort tag 0
      fun _ => .refused).1.1 := by
  cases hall : backends node isReady ready backendPort tag with
  | nil =>
    rw [hall] at haddr
    exact absurd haddr List.not_mem_nil
  | cons backend rest =>
    refine ⟨backend, ?_⟩
    unfold forward
    rw [hall]
    simp [List.range_succ_eq_map, tryEach, Target.pick, Target.add]

/-- Two nodes, and a proxy on one of them. -/
theorem proxy_connects_to_members_pair : ∃ (w : WireTrace) (p : Process) (addr : SocketAddr),
    WireRun .sample w ∧ w.now.procs alpha.id = some p ∧ p.shared.table.len = 1 ∧
    addr ∈ (forward ⟨64, false⟩ p.node p.shared.guarded.ready p.shared.table.ready 8080 none 0
      fun _ => .refused).1.1 ∧
    ∃ node seeds, .start node seeds ∈ w.seen WireLabel.shown ∧ addr = ⟨node.addr.ip, 8080⟩ := by
  obtain ⟨h, shared, shared', hrun, hnow, hguarded, _, hmembers, _⟩ :=
    exists_pair alpha_ne_beta alpha_mayStart beta_mayStart
  have hp : h.now.procs alpha.id = some { Process.new alpha [] with shared := shared } := by
    rw [hnow]
    exact Cluster.procs_pair_left alpha_ne_beta
  have hsize : h.now.AtMost 2 := hnow ▸ Cluster.atMost_pair ..
  obtain ⟨w, hrun', _, hdelivers⟩ := exists_wireRun (W := .sample) rfl rfl hrun hsize (by decide)
  have hp' : w.now.procs alpha.id = some { Process.new alpha [] with shared := shared } :=
    hdelivers.procs ▸ hp
  have hready : shared.guarded.ready = true := by
    rw [hguarded]
    rfl
  have hown : ⟨alpha.addr.ip, 8080⟩ ∈
      backends alpha shared.guarded.ready shared.table.ready 8080 none :=
    (mem_backends_iff (.refl _)).mpr (.inr ⟨hready, rfl, rfl⟩)
  obtain ⟨addr, haddr⟩ := exists_mem_forward hown
  obtain ⟨node, seeds, later, earlier, hparts, hstart, _, hat, _⟩ :=
    proxy_connects_to_members (W := .sample) rfl rfl hrun' hp' (.refl _) haddr
  refine ⟨w, _, addr, hrun', hp', ?_, haddr, node, seeds, ?_, hat⟩
  · show shared.table.members.length = 1
    rw [hmembers, List.length_singleton]
  · rw [hparts]
    exact List.mem_append_right _ hstart

end Dalila
