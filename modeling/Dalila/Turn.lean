import Dalila.Works

/-!
# A turn of the detector that gets nowhere

A node with one peer, cut off from it: its probe fails, and the peer is suspected or, once its
time is up, declared dead.
-/

namespace Dalila

open Program

/-- A step of the detector's turn in which nothing gets through. -/
def Label.fruitless (q : NodeId) : Label → Prop
  | .begins q' slot kind => q' = q ∧ slot = .detector ∧ kind.detects = true
  | .op q' slot _ o r => q' = q ∧ slot = .detector ∧ (o.talks = true → o.fails r = true)
  | .finish q' slot (.probing _) acked => q' = q ∧ slot = .detector ∧ acked = false
  | .finish q' slot _ _ => q' = q ∧ slot = .detector
  | _ => False

/-- What a process's operations do when nothing gets through. -/
abbrev Process.runsCutOff (p : Process) (now : Instant) (o : Op) (w : World) (r : o.Res)
    (w' : World) : Prop :=
  p.run now o w r w' ∧ (o.talks = true → o.fails r = true)

variable {h : Trace} {q : NodeId} {p : Process} {kind : Kind} {shared shared' : Shared}
  {m : Member} {now : Instant} {net : List Packet}

/-- One part of a turn, and the hand-over to the next. -/
lemma exists_part {out : kind.Out} (p' : Process) (hrun : Run h)
    (hq : h.now.procs q = some (p.at .detector shared (Task.start p.node kind)))
    (hrunning : p.stopped = false)
    (hpath : Program.Path (p.runsCutOff h.now.clock) (fun o => ¬ o.awaits = true)
      (kind.start p.node) ⟨shared, h.now.net⟩ (.ret out) ⟨shared', h.now.net⟩)
    (hout : (Label.finish q .detector kind out).fruitless q)
    (hafter : ∀ free,
      (p.at .detector shared' ⟨kind, .ret out⟩).finish .detector free kind out = p') :
    ∃ h', LaterBy (Label.fruitless q) h h' ∧ h'.now = h.now.put q p' h.now.net := by
  obtain ⟨h', hlater, hnow⟩ := LaterBy.of_path hq hrunning (Process.tasks_at ..) hpath
  rw [Process.at_at] at hnow
  have hlater' : LaterBy (Label.fruitless q) h h' := hlater.imp fun l hl => by
    obtain ⟨o, r, rfl, _, hfine⟩ := hl
    exact ⟨rfl, rfl, hfine⟩
  have hq' : h'.now.procs q = some (p.at .detector shared' ⟨kind, .ret out⟩) := by
    rw [hnow]
    exact if_pos rfl
  have hends := exists_finish p' (hrun.extends hlater'.later) hq' hrunning hafter
  refine ⟨_, hlater'.push ⟨hends, hout⟩, ?_⟩
  rw [History.now_push, hnow]
  simp

/-! ## The parts of the turn, with one peer -/

/-- A mark above the only entry changes nothing but its state. -/
lemma MemberTable.merge_mark (now : Instant) {table : MemberTable} {me : NodeId}
    {state : WireMemberState}
    (hmembers : table.members = [m]) (hne : m.id ≠ me)
    (hrank : rank m.state.toWire < rank state) :
    (table.merge now (markRumor m state) me).1 = .updated ∧
      (table.merge now (markRumor m state) me).2.members =
        [{ m with state := state.toMember now }] := by
  have hget : table.get m.id = some m := get_of_mem (by simp [hmembers])
  have hsup : supersedes (markRumor m state) m = true := by
    refine decide_eq_true ?_
    rw [← WireMember.key_new, WireMember.key_lt_iff]
    exact .inr ⟨rfl, hrank⟩
  have hmerge : table.merge now (markRumor m state) me =
      (.updated, table.put (m.update now (markRumor m state))) := by
    unfold merge
    rw [if_neg (show (markRumor m state).id ≠ me from hne),
      show table.get (markRumor m state).id = some m from hget]
    simp only [hsup, if_true]
  rw [hmerge]
  refine ⟨rfl, ?_⟩
  simp [put, hmembers, Member.update, markRumor]

/-- `next_target` picks the peer. -/
lemma path_choosing (p : Process) (now : Instant) (hmembers : shared.table.members = [m])
    (hdead : m.state.isDead = false) (net : List Packet) :
    Program.Path (p.runsCutOff now) (fun o => ¬ o.awaits = true) (nextTarget [])
      ⟨shared, net⟩ (.ret (some m, [])) ⟨shared, net⟩ := by
  have hget : shared.table.get m.id = some m := MemberTable.get_of_mem (by simp [hmembers])
  have hids : shared.table.ids = [m.id] := by simp [MemberTable.ids, hmembers]
  refine .step (o := Op.shuffledIds) (r := [m.id]) (by simp [Op.awaits])
    ⟨⟨by rw [hids], rfl⟩, by simp [Op.talks]⟩ ?_
  refine .step (o := Op.get m.id) (r := some m) (by simp [Op.awaits])
    ⟨⟨hget.symm, rfl⟩, by simp [Op.talks]⟩ ?_
  simp only [ret_bind, hdead, Bool.false_eq_true, if_false]
  exact .refl _ _

/-- The probe cannot be sent, and there is nobody else to ask. -/
lemma path_probing (p : Process) (now : Instant) (hmembers : shared.table.members = [m])
    (net : List Packet) :
    ∃ shared', Program.Path (p.runsCutOff now) (fun o => ¬ o.awaits = true) (probe p.node m)
      ⟨shared, net⟩ (.ret false) ⟨shared', net⟩ ∧
      shared'.table = shared.table ∧ shared'.guarded = shared.guarded := by
  have hpool : ([] : List Member).Perm (shared.table.relayPool m.id) := by
    simp [MemberTable.relayPool, hmembers]
  refine ⟨_, .step (r := shared.pending.fetchSeq.1) (by simp [Op.awaits])
    ⟨⟨rfl, rfl⟩, by simp [Op.talks]⟩ <|
    .step (o := Op.register _ m.id) (r := _) (by simp [Op.awaits])
      ⟨⟨rfl, rfl⟩, by simp [Op.talks]⟩ <|
    .step (o := Op.current) (by simp [Op.awaits]) ⟨⟨rfl, rfl⟩, by simp [Op.talks]⟩ <|
    .step (o := Op.take) (by simp [Op.awaits]) ⟨⟨rfl, rfl⟩, by simp [Op.talks]⟩ <|
    .step (o := Op.sendUdp m.addr _) (r := false) (by simp [Op.awaits]) ⟨rfl, fun _ => rfl⟩ <|
    .step (o := Op.forget _) (r := ()) (by simp [Op.awaits]) ⟨rfl, by simp [Op.talks]⟩ <|
    .step (o := Op.relayCandidates m.id INDIRECT_PROBES) (r := []) (by simp [Op.awaits])
      ⟨⟨⟨[], hpool, rfl⟩, rfl⟩, by simp [Op.talks]⟩ <|
    .refl _ _, rfl, rfl⟩

/-- A mark above the entry is queued, in place of whatever the queue had about the peer. -/
lemma path_mark (now : Instant) {state : WireMemberState} (hmembers : shared.table.members = [m])
    (hne : m.id ≠ p.node.id) (hrank : rank m.state.toWire < rank state) (net : List Packet) :
    ∃ shared', Program.Path (p.runsCutOff now) (fun o => ¬ o.awaits = true)
      (mark p.node m state) ⟨shared, net⟩ (.ret true) ⟨shared', net⟩ ∧
      shared'.table.members = [{ m with state := state.toMember now }] ∧
      shared'.guarded = shared.guarded ∧
      ∀ pending ∈ shared'.queue, pending.rumor.id = m.id → pending.rumor.state = state := by
  have hmerge := MemberTable.merge_mark now hmembers hne hrank
  let table := (shared.table.merge now (markRumor m state) p.node.id).2
  refine ⟨_, .step (o := Op.merge (markRumor m state) p.node.id) (r := .updated)
      (by simp [Op.awaits]) ⟨⟨hmerge.1.symm, rfl⟩, by simp [Op.talks]⟩ <|
    .step (o := Op.len) (r := table.len) (by simp [Op.awaits]) ⟨⟨rfl, rfl⟩, by simp [Op.talks]⟩ <|
    .step (o := Op.push (markRumor m state) (table.len + 1)) (r := ()) (by simp [Op.awaits])
      ⟨rfl, by simp [Op.talks]⟩ <|
    .refl _ _, hmerge.2, rfl, ?_⟩
  intro pending hpending hid
  rcases List.mem_append.mp hpending with hold | hnew
  · exact absurd hid (of_decide_eq_true (List.mem_filter.mp hold).2)
  · obtain rfl := List.mem_singleton.mp hnew
    rfl

/-- A mark at the entry's own state is ignored. -/
lemma path_mark_again (now : Instant) (hmembers : shared.table.members = [m])
    (hne : m.id ≠ p.node.id) (hstate : m.state.toWire = .suspect) (net : List Packet) :
    Program.Path (p.runsCutOff now) (fun o => ¬ o.awaits = true)
      (mark p.node m .suspect) ⟨shared, net⟩ (.ret false) ⟨shared, net⟩ := by
  have hget : shared.table.get m.id = some m := MemberTable.get_of_mem (by simp [hmembers])
  have hmerge : shared.table.merge now (markRumor m .suspect) p.node.id =
      (.ignored, shared.table) := by
    have hsup : supersedes (markRumor m .suspect) m = false := by
      refine decide_eq_false fun hlt => ?_
      rw [← WireMember.key_new, WireMember.key_lt_iff] at hlt
      have hrank : ¬ rank m.state.toWire < rank .suspect := by rw [hstate]; exact lt_irrefl _
      rcases hlt with hlt | ⟨_, hlt⟩
      · exact lt_irrefl _ hlt
      · exact hrank hlt
    unfold MemberTable.merge
    rw [if_neg (show (markRumor m .suspect).id ≠ p.node.id from hne),
      show shared.table.get (markRumor m .suspect).id = some m from hget]
    simp [hsup]
  refine .step (o := Op.merge (markRumor m .suspect) p.node.id) (r := .ignored)
    (by simp [Op.awaits]) (t := ⟨shared, net⟩) ⟨⟨?_, ?_⟩, by simp [Op.talks]⟩ <|
    .step (o := Op.len) (r := shared.table.len) (by simp [Op.awaits])
      ⟨⟨rfl, rfl⟩, by simp [Op.talks]⟩ <|
    .refl _ _
  · rw [hmerge]
  · rw [hmerge]

/-- The sweep finds nothing whose time is up. -/
lemma path_sweeping_none (hmembers : shared.table.members = [m])
    (hfresh : suspicionExpired now m = false) (net : List Packet) :
    Program.Path (p.runsCutOff now) (fun o => ¬ o.awaits = true) (sweepSuspects p.node)
      ⟨shared, net⟩ (.ret ()) ⟨shared, net⟩ :=
  .step (o := Op.membersWhere suspicionExpired) (r := []) (by simp [Op.awaits])
    ⟨⟨by simp [MemberTable.membersWhere, hmembers, hfresh], rfl⟩, by simp [Op.talks]⟩ (.refl _ _)

/-- The reaping finds nothing whose time is up. -/
lemma path_reaping_none (hmembers : shared.table.members = [m])
    (hfresh : deathExpired now m = false) (net : List Packet) :
    Program.Path (p.runsCutOff now) (fun o => ¬ o.awaits = true) reapDead
      ⟨shared, net⟩ (.ret ()) ⟨shared, net⟩ :=
  .step (o := Op.membersWhere deathExpired) (r := []) (by simp [Op.awaits])
    ⟨⟨by simp [MemberTable.membersWhere, hmembers, hfresh], rfl⟩, by simp [Op.talks]⟩ (.refl _ _)

/-! ## The whole turn -/

/-- A turn that picks the peer and does not reach it, as far as its last step. -/
lemma exists_turn {J K : Shared → Prop} (hrun : Run h) (hq : h.now.procs q = some p)
    (hrunning : p.stopped = false) (hloops : p.aborted = false) (hserving : p.serving = true)
    (hidle : p.tasks .detector = none) (horder : p.order = [])
    (hmembers : p.shared.table.members = [m]) (hdead : m.state.isDead = false)
    (hjudge : ∀ shared, shared.table = p.shared.table → shared.guarded = p.shared.guarded →
      ∃ shared', Program.Path (p.runsCutOff h.now.clock) (fun o => ¬ o.awaits = true)
        (handleResult p.node m false) ⟨shared, h.now.net⟩ (.ret ()) ⟨shared', h.now.net⟩ ∧
        J shared')
    (hsweep : ∀ shared, J shared →
      ∃ shared', Program.Path (p.runsCutOff h.now.clock) (fun o => ¬ o.awaits = true)
        (sweepSuspects p.node) ⟨shared, h.now.net⟩ (.ret ()) ⟨shared', h.now.net⟩ ∧ K shared')
    (hreap : ∀ shared, K shared → Program.Path (p.runsCutOff h.now.clock)
      (fun o => ¬ o.awaits = true) reapDead ⟨shared, h.now.net⟩ (.ret ()) ⟨shared, h.now.net⟩) :
    ∃ (h' : Trace) (shared : Shared), LaterBy (Label.fruitless q) h h' ∧ K shared ∧
      Step h'.now (.finish q .detector .reaping ())
        (h.now.put q { p with shared := shared } h.now.net) := by
  obtain ⟨shared₁, hprobe, htable₁, hguarded₁⟩ := path_probing p h.now.clock hmembers h.now.net
  obtain ⟨shared₂, hjudge, hJ⟩ := hjudge shared₁ htable₁ hguarded₁
  obtain ⟨shared₃, hsweep, hK⟩ := hsweep shared₂ hJ
  have hfirst := path_choosing p h.now.clock hmembers hdead h.now.net
  -- every part hands over to the next
  have hpart : ∀ {kind : Kind} {out : kind.Out} {shared shared' : Shared} (p' : Process)
      {h₁ : Trace},
      LaterBy (Label.fruitless q) h h₁ →
      h₁.now = h.now.put q (p.at .detector shared (Task.start p.node kind)) h.now.net →
      Program.Path (p.runsCutOff h.now.clock) (fun o => ¬ o.awaits = true) (kind.start p.node)
        ⟨shared, h.now.net⟩ (.ret out) ⟨shared', h.now.net⟩ →
      (Label.finish q .detector kind out).fruitless q →
      (∀ free, (p.at .detector shared' ⟨kind, .ret out⟩).finish .detector free kind out = p') →
      ∃ h', LaterBy (Label.fruitless q) h h' ∧ h'.now = h.now.put q p' h.now.net := by
    intro kind out shared shared' p' h₁ hlater hnow hpath hout hafter
    have hclock : h₁.now.clock = h.now.clock := by rw [hnow]; rfl
    have hnet : h₁.now.net = h.now.net := by rw [hnow]; rfl
    have hq₁ : h₁.now.procs q = some (p.at .detector shared (Task.start p.node kind)) := by
      rw [hnow]
      exact if_pos rfl
    rw [← hclock, ← hnet] at hpath
    obtain ⟨h', hlater', hnow'⟩ :=
      exists_part p' (hrun.extends hlater.later) hq₁ hrunning hpath hout hafter
    refine ⟨h', hlater.trans hlater', ?_⟩
    rw [hnow', hnet, hnow]
    simp
  have hbegins : Step h.now (.begins q .detector (.choosing []))
      (h.now.put q (p.at .detector p.shared (Task.start p.node (.choosing []))) h.now.net) := by
    have hstep := Step.begins h.now q p .detector (.choosing p.order) hq hrunning hloops hidle
      (.detector hserving)
    rw [horder] at hstep
    exact hstep
  obtain ⟨h₁, hlater₁, hnow₁⟩ := hpart (p.at .detector p.shared (Task.start p.node (.probing m)))
    (.single ⟨hbegins, rfl, rfl, rfl⟩) rfl hfirst ⟨rfl, rfl⟩
    (fun _ => by simp [Process.finish, Process.at, Process.set, ← horder])
  obtain ⟨h₂, hlater₂, hnow₂⟩ := hpart
    (p.at .detector shared₁ (Task.start p.node (.judging m false))) hlater₁ hnow₁ hprobe
    ⟨rfl, rfl, rfl⟩
    (fun _ => by simp [Process.finish, Process.at, Process.set])
  obtain ⟨h₃, hlater₃, hnow₃⟩ := hpart (p.at .detector shared₂ (Task.start p.node .sweeping))
    hlater₂ hnow₂ hjudge ⟨rfl, rfl⟩
    (fun _ => by simp [Process.finish, Process.at, Process.set])
  obtain ⟨h₄, hlater₄, hnow₄⟩ := hpart (p.at .detector shared₃ (Task.start p.node .reaping))
    hlater₃ hnow₃ hsweep ⟨rfl, rfl⟩
    (fun _ => by simp [Process.finish, Process.at, Process.set])
  -- the last one leaves the detector idle
  have hpath : Program.Path (fun o w r w' => p.run h₄.now.clock o w r w' ∧
      (o.talks = true → o.fails r = true)) (fun o => ¬ o.awaits = true) (Kind.reaping.start p.node)
      ⟨shared₃, h₄.now.net⟩ (.ret ()) ⟨shared₃, h₄.now.net⟩ := by
    rw [hnow₄]
    exact hreap shared₃ hK
  have hq₄ : h₄.now.procs q = some (p.at .detector shared₃ (Task.start p.node .reaping)) := by
    rw [hnow₄]
    exact if_pos rfl
  obtain ⟨h₅, hlater₅, hnow₅⟩ := LaterBy.of_path hq₄ hrunning (Process.tasks_at ..) hpath
  have hlater₅ : LaterBy (Label.fruitless q) h h₅ := hlater₄.trans (hlater₅.imp fun l hl => by
    obtain ⟨o, r, rfl, _, hfine⟩ := hl
    exact ⟨rfl, rfl, hfine⟩)
  have hq₅ : h₅.now.procs q = some (p.at .detector shared₃ ⟨.reaping, .ret ()⟩) := by
    rw [hnow₅, Process.at_at]
    exact if_pos rfl
  have hends := exists_finish { p with shared := shared₃ } (hrun.extends hlater₅.later) hq₅ hrunning
    (fun _ => by simp [Process.finish, Process.at, Process.set, ← hidle])
  refine ⟨h₅, shared₃, hlater₅, hK, ?_⟩
  have hput : h₅.now.put q { p with shared := shared₃ } h₅.now.net =
      h.now.put q { p with shared := shared₃ } h.now.net := by
    rw [hnow₅, hnow₄]
    simp
  rw [← hput]
  exact hends

/-- What a turn leaves of a process whose only entry it has moved to `state`. -/
structure Shared.Marked (shared shared' : Shared) (m : Member) (state : MemberState) : Prop where
  members : shared'.table.members = [{ m with state := state }]
  guarded : shared'.guarded = shared.guarded
  queue : ∀ pending ∈ shared'.queue, pending.rumor.id = m.id → pending.rumor.state = state.toWire

/-- A peer that is cut off is suspected within one turn. -/
theorem exists_turn_suspects (hrun : Run h) (hq : h.now.procs q = some p)
    (hrunning : p.stopped = false) (hloops : p.aborted = false) (hserving : p.serving = true)
    (hidle : p.tasks .detector = none) (horder : p.order = [])
    (hmembers : p.shared.table.members = [m]) (hne : m.id ≠ p.node.id) (hstate : m.state = .alive) :
    ∃ (h' : Trace) (shared : Shared), LaterBy (Label.fruitless q) h h' ∧
      p.shared.Marked shared m (.suspect h.now.clock) ∧
      Step h'.now (.finish q .detector .reaping ())
        (h.now.put q { p with shared := shared } h.now.net) := by
  refine exists_turn (J := fun shared => p.shared.Marked shared m (.suspect h.now.clock)) hrun hq
    hrunning hloops hserving hidle horder hmembers (by rw [hstate]; rfl) ?_ ?_ ?_
  · intro shared htable hguarded
    have hrank : rank m.state.toWire < rank .suspect := by rw [hstate]; decide
    obtain ⟨shared', hmark, hmembers', hguarded', hqueue⟩ :=
      path_mark h.now.clock (htable ▸ hmembers) hne hrank h.now.net
    exact ⟨shared', hmark.bind _, hmembers', hguarded'.trans hguarded, hqueue⟩
  · intro shared hmarked
    refine ⟨shared, path_sweeping_none hmarked.members ?_ h.now.net, hmarked⟩
    simp [suspicionExpired, SUSPICION_TIMEOUT]
  · exact fun shared hmarked => path_reaping_none hmarked.members rfl h.now.net

/-- A peer that is cut off is declared dead within one turn after its time is up. -/
theorem exists_turn_buries {since : Instant} (hrun : Run h) (hq : h.now.procs q = some p)
    (hrunning : p.stopped = false) (hloops : p.aborted = false) (hserving : p.serving = true)
    (hidle : p.tasks .detector = none) (horder : p.order = [])
    (hmembers : p.shared.table.members = [m]) (hne : m.id ≠ p.node.id)
    (hstate : m.state = .suspect since) (hdue : since + SUSPICION_TIMEOUT ≤ h.now.clock) :
    ∃ (h' : Trace) (shared : Shared), LaterBy (Label.fruitless q) h h' ∧
      p.shared.Marked shared m (.dead h.now.clock) ∧
      Step h'.now (.finish q .detector .reaping ())
        (h.now.put q { p with shared := shared } h.now.net) := by
  refine exists_turn (K := fun shared => p.shared.Marked shared m (.dead h.now.clock))
    (J := fun shared => shared.table.members = [m] ∧ shared.guarded = p.shared.guarded) hrun hq
    hrunning hloops hserving hidle horder hmembers (by rw [hstate]; rfl) ?_ ?_ ?_
  · intro shared htable hguarded
    have hmark := path_mark_again h.now.clock (htable ▸ hmembers) hne (by rw [hstate]; rfl)
      h.now.net
    exact ⟨shared, hmark.bind _, htable ▸ hmembers, hguarded⟩
  · rintro shared ⟨hmembers, hguarded⟩
    have hexpired : suspicionExpired h.now.clock m = true := by
      unfold suspicionExpired
      rw [hstate]
      refine decide_eq_true ?_
      unfold Instant at *
      omega
    have hrank : rank m.state.toWire < rank .dead := by rw [hstate]; exact Nat.one_lt_two
    obtain ⟨shared', hmark, hmembers', hguarded', hqueue⟩ :=
      path_mark h.now.clock hmembers hne hrank h.now.net
    refine ⟨shared', ?_, hmembers', hguarded'.trans hguarded, hqueue⟩
    refine .step (o := Op.membersWhere suspicionExpired) (r := [m]) (by simp [Op.awaits])
      ⟨⟨by simp [MemberTable.membersWhere, hmembers, hexpired], rfl⟩, by simp [Op.talks]⟩ ?_
    exact hmark.bind _
  · refine fun shared hmarked => path_reaping_none hmarked.members ?_ h.now.net
    simp [deathExpired, REAP_TIMEOUT]

end Dalila
