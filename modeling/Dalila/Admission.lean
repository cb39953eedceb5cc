import Dalila.Pair
import Dalila.Repair
import Dalila.Replies

/-!
# Who has joined

The file proves what a join that succeeds has led to (`joined_is_introduced`). `Process.Entering`
says of a node that is still joining that none of its tasks removes entries, so its table only
grows. `Welcomed` and `Introduced` name the moments of one join: the seed accepts the request, holds
the joiner, answers with its table, and the joiner reads the answer and takes it over.
-/

namespace Dalila

open Program

variable {h h' h₁ : Trace} {q s : NodeId} {p p' : Process} {slot : Slot} {node : LocalNode}
  {seeds : List SocketAddr}

/-! ## Before the join is over -/

/-- A process starts to serve when it has joined. -/
lemma Step.serving {c c' : Cluster} {l : Label} (hstep : Step c l c') (hp : c.procs q = some p)
    (hp' : c'.procs q = some p') : p'.serving = p.serving ∨
      p'.serving = true ∧ ∃ slot seeds, l = .finish q slot (.join seeds) true ∧
        p.tasks slot = some ⟨.join seeds, .ret true⟩ := by
  by_cases hq : l.actor = some q
  · cases hstep with
    | tick | lose | duplicate | query => exact absurd hq (by simp [Label.actor])
    | start node seeds hnew =>
      obtain rfl := Option.some.inj hq
      exact absurd (hp.symm.trans hnew) (by simp)
    | begins q₀ p₀ slot kind hp₀ | cancel q₀ p₀ slot hp₀ | stop q₀ p₀ hp₀ =>
      obtain rfl := Option.some.inj hq
      obtain rfl := Option.some.inj (hp.symm.trans hp₀)
      obtain rfl := Cluster.eq_of_procs_setProc hp'
      exact .inl rfl
    | receive q₀ p₀ src body hp₀ | accept q₀ p₀ n conn body hp₀
    | op q₀ p₀ slot kind o next r shared net hp₀ =>
      obtain rfl := Option.some.inj hq
      obtain rfl := Option.some.inj (hp.symm.trans hp₀)
      obtain rfl := Cluster.eq_of_procs_setProc (c := c) hp'
      exact .inl rfl
    | finish q₀ p₀ slot kind out free hp₀ _ htask =>
      obtain rfl := Option.some.inj hq
      obtain rfl := Option.some.inj (hp.symm.trans hp₀)
      obtain rfl := Cluster.eq_of_procs_setProc hp'
      cases kind with
      | join seeds =>
        cases out with
        | true => exact .inr ⟨rfl, slot, seeds, rfl, htask⟩
        | false => exact .inl rfl
      | datagram src body => cases out <;> exact .inl rfl
      | choosing order =>
        obtain ⟨target, rest⟩ := out
        cases target <;> exact .inl rfl
      | _ => exact .inl rfl
  · rw [hstep.procs_eq hq, hp] at hp'
    exact .inl (Option.some.inj hp' ▸ rfl)

/-- Who joins does not serve yet, and who does not serve yet detects nothing. -/
structure Process.Entering (p : Process) : Prop where
  joining : ∀ slot task seeds, p.tasks slot = some task → task.kind = .join seeds →
    p.serving = false
  detector : p.serving = false → p.tasks .detector = none

lemma Slot.eq_main (hruns : slot.Runs (.join seeds)) : slot = .main := by
  cases slot with
  | main => rfl
  | detector => exact absurd hruns (by simp [Slot.Runs, Kind.detects])
  | _ => exact hruns.elim

lemma Run.entering (hrun : Run h) (hp : h.now.procs q = some p) (halive : p.stopped = false) :
    p.Entering := by
  have hall : ∀ q p, h.now.procs q = some p → p.stopped = false → p.Entering := by
    refine hrun.invariant (P := fun c => ∀ q p, c.procs q = some p → p.stopped = false →
      p.Entering) ?_ ?_
    · exact fun q p hp => absurd hp (by simp [Cluster.empty])
    · intro h l c hrun ih hstep q p' hp' halive
      -- a process that has started to serve goes on serving
      have hback : ∀ p, h.now.procs q = some p → p'.serving = false → p.serving = false := by
        intro p hp hserving
        rcases hstep.serving hp hp' with hsame | ⟨hserves, _⟩
        · exact hsame ▸ hserving
        · exact absurd (hserves.symm.trans hserving) (by simp)
      constructor
      · intro slot task seeds htask hkind
        cases Task.arises hstep hp' halive htask with
        | kept p _ hp halive htask₀ hl hl' =>
          have hbefore := (ih q p hp halive).joining slot task seeds htask₀ hkind
          rcases hstep.serving hp hp' with hsame | ⟨_, slot₁, seeds₁, rfl, htask₁⟩
          · exact hsame.trans hbefore
          · -- it is not the one that is over: there is only one
            have hslot : slot = .main := Slot.eq_main (hkind ▸ hrun.slots hp halive htask₀)
            have hslot₁ : slot₁ = .main := Slot.eq_main (hrun.slots hp halive htask₁)
            exact absurd (hslot₁.trans hslot.symm ▸ rfl) (hl' (.join seeds₁) true)
        | moved p kind o next r net hp halive htask₀ hl hop =>
          have hbefore := (ih q p hp halive).joining slot _ seeds htask₀ hkind
          rcases hstep.serving hp hp' with hsame | ⟨_, slot₁, seeds₁, hl₁, _⟩
          · exact hsame.trans hbefore
          · exact absurd (hl.symm.trans hl₁) (by simp)
        | followed p slot₀ kind₀ out free kind _ _ _ _ hnext =>
          have hjoins : kind = .join seeds := hkind
          subst hjoins
          cases hnext
        | begun p kind _ _ _ _ hbegins =>
          have hjoins : kind = .join seeds := hkind
          subst hjoins
          cases hbegins
        | received | accepted => exact absurd hkind (by simp [Task.start])
        | joining seeds' hslot hl =>
          subst hl
          rcases hstep.proc_cases hp' with ⟨p, hp, hev⟩ | ⟨_, node, seeds₀, _, _, _, rfl⟩
          · have hid : p'.node.id = q := hev.node ▸ (hrun.sane hp).id
            cases hstep with
            | start _ _ hnew => exact absurd (hp.symm.trans (hid ▸ hnew)) (by simp)
          · simp only [Process.new, Option.ite_none_right_eq_some] at htask
            exact decide_eq_false htask.1.2
      · intro hserving
        by_contra hsome
        obtain ⟨task, htask⟩ := Option.ne_none_iff_exists'.mp hsome
        have hnone : ∀ {p task}, h.now.procs q = some p → p.stopped = false →
            p.tasks .detector = some task → False := by
          intro p task hp halive htask
          have hidle := (ih q p hp halive).detector (hback p hp hserving)
          exact absurd (hidle.symm.trans htask) (by simp)
        cases Task.arises hstep hp' halive htask with
        | kept p _ hp halive htask₀ => exact hnone hp halive htask₀
        | moved p kind o next r net hp halive htask₀ => exact hnone hp halive htask₀
        | followed p slot₀ kind₀ out free kind hp halive htask₀ hl hnext =>
          cases hnext with
          | announcing | probing | nobody | judging | sweeping | reaping =>
            exact hnone hp halive htask₀
        | begun p kind hp _ _ _ hbegins =>
          cases hbegins with
          | detector hserves => exact absurd (hserves.symm.trans (hback p hp hserving)) (by simp)
        | received p src body hp halive hslot => exact absurd hslot (by simp)
        | accepted p n conn body hp halive hslot => exact absurd hslot (by simp)
        | joining seeds hslot => exact absurd hslot (by simp)
  exact hall q p hp halive

/-- What a process has taken in it keeps, as long as it does not serve. -/
lemma Later.heeds {p₁ : Process} {r : WireMember} (hlater : Later h₁ h) (hrun : Run h₁)
    (hp₁ : h₁.now.procs q = some p₁) (hheeds : p₁.Heeds r) (hp : h.now.procs q = some p)
    (halive : p.stopped = false) (hserving : p.serving = false) : p.Heeds r := by
  induction hlater generalizing p with
  | refl => exact Option.some.inj (hp₁.symm.trans hp) ▸ hheeds
  | @push h l c hext hstep ih =>
    have hext : Later h₁ h := hext
    obtain ⟨p₂, hp₂, _⟩ := hext.exists_grows hp₁
    have hrun₂ : Run h := hrun.extends hext
    have halive₂ := (hstep.grows hp₂ hp).running halive
    have hserving₂ : p₂.serving = false := by
      rcases hstep.serving hp₂ hp with hsame | ⟨hserves, _⟩
      · exact hsame ▸ hserving
      · exact absurd (hserves.symm.trans hserving) (by simp)
    -- its detector is not there to drop anything
    have hgrows : p₂.shared.table.Grows p.shared.table := by
      obtain ⟨p₃, hp₃, hev⟩ := hstep.exists_evolves hp₂
      obtain rfl := Option.some.inj (hp₃.symm.trans hp)
      refine hrun₂.grows_of_evolves hp₂ hev ?_
      rintro o r rfl
      obtain ⟨p₄, next, _, _, hp₄, _, htask, _⟩ := hstep.of_op
      obtain rfl := Option.some.inj (hp₂.symm.trans hp₄)
      have hidle := (hrun₂.entering hp₂ halive₂).detector hserving₂
      exact absurd (hidle.symm.trans htask) (by simp)
    rcases ih hp₂ halive₂ hserving₂ with hid | hadm | ⟨m, hm, hle⟩
    · exact .inl (hid.trans (congrArg LocalNode.id (hstep.grows hp₂ hp).node.symm))
    · exact .inr (.inl hadm)
    · obtain ⟨m', hm', hle'⟩ := hgrows r.id m hm
      exact .inr (.inr ⟨m', hm', hle.trans hle'⟩)

/-! ## When the join is over -/

/-- Who has taken in a record about somebody else holds an entry for it, no lower. -/
lemma Process.Heeds.holds {r : WireMember} (hheeds : p.Heeds r) (hne : r.id ≠ p.node.id)
    (hadm : r.admissible = true) : ∃ m, p.shared.table.get r.id = some m ∧ r.key ≤ m.key := by
  rcases hheeds with hown | hnot | hm
  · exact absurd hown hne
  · exact absurd (hnot.symm.trans hadm) (by simp)
  · exact hm

/-- What a node has been told it holds, as long as it does not serve. -/
lemma Heeded.holds {a : Trace} {r : WireMember} (hheeded : Heeded p.node a h r) (hrun : Run h)
    (hp : h.now.procs q = some p) (halive : p.stopped = false) (hserving : p.serving = false)
    (hne : r.id ≠ q) (hadm : r.admissible = true) :
    ∃ m, p.shared.table.get r.id = some m ∧ r.key ≤ m.key := by
  have hid := (hrun.sane hp).id
  obtain ⟨h₀, p₀, _, hlater, hp₀, _, hheeds⟩ := hheeded
  rw [hid] at hp₀
  have hheeds : p.Heeds r :=
    hlater.heeds (hrun.of_extends hlater) hp₀ hheeds hp halive hserving
  exact hheeds.holds (hid ▸ hne) hadm

/-- An entry is under the address its subject has, then and later. -/
lemma Run.entry_addr {m : Member} (hrun : Run h₁) (hp : h₁.now.procs s = some p)
    (hm : p.shared.table.get q = some m) (hlater : Later h₁ h) (hp' : h.now.procs q = some p') :
    m.addr = p'.node.addr := by
  obtain ⟨subject, hsubject, haddr, _⟩ := hrun.exists_subject hp hm
  rw [← haddr, (hlater.grows hsubject hp').node]

/-- Who has the table of another sent and taken in holds whoever the other took for not dead. -/
lemma Listed.holds {a w : Trace} {sender : WireIdentity} {members : List WireMember}
    {seed : Process} (hlisted : Listed seed.node a w sender members) (hrun : Run w)
    (hall : ∀ r ∈ members, r.id ≠ q → r.admissible = true →
      ∃ m, p.shared.table.get r.id = some m ∧ r.key ≤ m.key) :
    ∃ h₀ seed₀, Later a h₀ ∧ Later h₀ w ∧ h₀.now.procs seed.node.id = some seed₀ ∧
      ∀ id m, id ≠ q → seed₀.shared.table.get id = some m → m.state.isDead = false →
        ∃ m', p.shared.table.get id = some m' ∧ m.key ≤ m'.key := by
  obtain ⟨h₀, seed₀, ha, hlater, hseed₀, snapshot, hperm, rfl⟩ := hlisted.members
  refine ⟨h₀, seed₀, ha, hlater, hseed₀, fun id m hne hm hdead => ?_⟩
  have hrun₀ : Run h₀ := hrun.of_extends hlater
  have hid : m.id = id := MemberTable.id_of_get hm
  have hmem : WireMember.new m ∈ snapshot.map WireMember.new :=
    List.mem_map_of_mem (hperm.mem_iff.mpr (MemberTable.mem_of_get hm))
  have haddr : m.addr.ip.isUnspecified = false :=
    hrun₀.honest.addr (by rw [Cluster.entry_of_procs hseed₀, hm])
  have hadm : (WireMember.new m).admissible = true := by
    rw [WireMember.admissible_new haddr, hdead]
    rfl
  obtain ⟨m', hm', hle⟩ := hall _ hmem (fun heq => hne (hid.symm.trans heq)) hadm
  have hm' : p.shared.table.get m.id = some m' := hm'
  exact ⟨m', hid ▸ hm', by rwa [← WireMember.key_new]⟩

/-- What a request says is about who sent it. -/
lemma Asked.joiner {conn : Conn} {joiner : WireIdentity} {a : Trace}
    (hasked : Asked a conn (.joinRequest joiner)) (hclient : conn.client = some q) (ha : Later a h)
    (hp : h.now.procs q = some p) :
    (∃ p₀, a.now.procs q = some p₀) ∧ joiner.id = p.node.id ∧ joiner.addr = p.node.addr := by
  cases hasked with
  | request id slot kind _ h₀ hclient' hbody htook =>
    obtain rfl := Option.some.inj (hclient.symm.trans hclient')
    obtain ⟨p₀, hp₀, sender, hsender, hid, haddr⟩ := hbody
    obtain rfl : joiner = sender := Option.some.inj hsender
    have hbefore : Later h₀ a := htook.before
    have hlater : Later h₀ h := hbefore.trans ha
    rw [(hlater.grows hp₀ hp).node]
    obtain ⟨p₁, hp₁, _⟩ := hbefore.exists_grows hp₀
    exact ⟨⟨p₁, hp₁⟩, hid, haddr⟩

/-- On `conn`, `q` asked one of `seeds` to be let in. `s` accepted the request in the step after `b`
and wrote its answer in the step after `w`, and `q` has read it. -/
structure Welcomed (conn : Conn) (joiner : WireIdentity) (seeds : List SocketAddr) (q s : NodeId)
    (b w h : Trace) : Prop where
  client : conn.client = some q
  server : conn.server ∈ seeds
  asked : Asked b conn (.joinRequest joiner)
  accepted : History.Took Step (.accept s conn (.joinRequest joiner)) b w
  heard : ∃ sender members r,
    WroteReply conn (.joinRequest joiner) (.joinResponse sender members) s w r ∧
      ReadReply conn (.joinResponse sender members) q (.join seeds) r h

/-- The moment lies between accepting the request, in the step after `b`, and answering it, in the
step after `w`. -/
structure Serving (conn : Conn) (joiner : WireIdentity) (s : NodeId) (b w h₀ : Trace) : Prop where
  accepted : History.Took Step (.accept s conn (.joinRequest joiner)) b h₀
  unanswered : Later h₀ w

/-- While it was serving the request the seed came to hold the node. The node holds the seed and, no
lower than the seed did at some moment of serving the request, everybody who was not dead to it. -/
structure Introduced (conn : Conn) (joiner : WireIdentity) (b w : Trace) (s : NodeId)
    (seed : Process) (q : NodeId) (p : Process) : Prop where
  known : ∃ h₀ m, Serving conn joiner s b w h₀ ∧ h₀.now.entry s q = some m ∧ m.addr = p.node.addr
  knows : ∃ m, p.shared.table.get s = some m ∧ m.addr = seed.node.addr
  told : ∃ h₀ seed₀, Serving conn joiner s b w h₀ ∧ h₀.now.procs s = some seed₀ ∧
    ∀ id m, id ≠ q → seed₀.shared.table.get id = some m → m.state.isDead = false →
      ∃ m', p.shared.table.get id = some m' ∧ m.key ≤ m'.key

/-- A node that has joined has been let in by somebody at the address of one of its seeds, who was
introduced to it while serving its request. Only who is its own seed joins alone. -/
theorem joined_is_introduced (hrun : Run h)
    (htook : History.Took Step (.finish q slot (.join seeds) true) h₁ h) :
    ∃ conn joiner b w s seed p, Welcomed conn joiner seeds q s b w h₁ ∧
      h₁.now.procs s = some seed ∧ seed.node.addr = conn.server ∧ h₁.now.procs q = some p ∧
      (s = q ∨ Introduced conn joiner b w s seed q p) := by
  have hrun₁ : Run h₁ := hrun.of_extends htook.before
  obtain ⟨c, hstep, _⟩ := htook
  obtain ⟨p, hp, halive, htask⟩ : ∃ p, h₁.now.procs q = some p ∧ p.stopped = false ∧
      p.tasks slot = some ⟨.join seeds, .ret true⟩ := by
    cases hstep with
    | finish _ p _ _ _ free hp halive htask => exact ⟨p, hp, halive, htask⟩
  have hid := (hrun₁.sane hp).id
  have hserving := (hrun₁.entering hp halive).joining slot _ seeds htask rfl
  -- the contract of the joining task says what `true` stands for
  obtain ⟨_, _, _, hprog⟩ := hrun₁.made.2 q p slot _ hp halive htask
  have hin : LetIn p.node seeds h₁ := hprog.result rfl
  rw [LetIn, hid] at hin
  obtain ⟨conn, joiner, sender, members, s, seed, b, a, w, r, hclient, hserver, hserved, hwrote,
    hread, hall⟩ := hin
  obtain ⟨hasked, haccepted, hduring, hseed, haddr, hlisted, hheeded⟩ := hserved
  have hw : Later w h₁ := hwrote.before.trans hread.before
  have hrunw : Run w := hrun₁.of_extends hw
  have hseedId := (hrunw.sane hseed).id
  obtain ⟨seed₁, hseed₁, hgrows⟩ := hw.exists_grows hseed
  refine ⟨conn, joiner, b, w, s, seed₁, p, ⟨hclient, hserver, hasked, haccepted.later hduring,
    sender, members, r, hwrote, hread⟩, hseed₁, hgrows.node ▸ haddr, hp, ?_⟩
  by_cases hsq : s = q
  · exact .inl hsq
  have hbefore : Later b h₁ := haccepted.before.trans (hduring.trans hw)
  obtain ⟨_, hjoinerId, hjoinerAddr⟩ := hasked.joiner hclient hbefore hp
  have hbetween : ∀ {h₀ : Trace}, Later a h₀ → Later h₀ w → Serving conn joiner s b w h₀ :=
    fun ha hw => ⟨haccepted.later ha, hw⟩
  have hholds : ∀ r ∈ sender.intoMember :: members, r.id ≠ q → r.admissible = true →
      ∃ m, p.shared.table.get r.id = some m ∧ r.key ≤ m.key :=
    fun r hr hne hadm => (hall r hr).holds hrun₁ hp halive hserving hne hadm
  refine .inr ⟨?_, ?_, ?_⟩
  · -- the seed merged who asked
    obtain ⟨h₀, seed₀, ha, hlater, hseed₀, hnode₀, hheeds⟩ := hheeded
    rw [hseedId] at hseed₀
    have hjoiner : joiner.intoMember.id = q := hjoinerId.trans hid
    have hmay : joiner.addr.ip.isUnspecified = false :=
      hjoinerAddr.symm ▸ (hrun₁.sane hp).mayStart.1
    obtain ⟨m, hm, _⟩ := hheeds.holds (by rw [hnode₀, hseedId, hjoiner]; exact Ne.symm hsq)
      (joiner.admissible_intoMember hmay)
    rw [hjoiner] at hm
    have hrun₀ : Run h₀ := hrunw.of_extends hlater
    exact ⟨h₀, m, hbetween ha hlater, by rw [Cluster.entry_of_procs hseed₀, hm],
      hrun₀.entry_addr hseed₀ hm (hlater.trans hw) hp⟩
  · -- what the seed says of itself is in the answer
    obtain ⟨h₀, seed₀, _, hlater, hseed₀, rfl⟩ := hlisted.sender
    have hs : (seed.node.identity seed₀.shared.guarded.current).intoMember.id = s := hseedId
    obtain ⟨m, hm, _⟩ := hholds _ List.mem_cons_self (hs ▸ hsq)
      (WireIdentity.admissible_intoMember _ (hrunw.sane hseed).mayStart.1)
    rw [hs] at hm
    refine ⟨m, hm, ?_⟩
    rw [hrun₁.entry_addr hp hm (.refl h₁) hseed₁, hgrows.node]
  · -- and so is what it held
    obtain ⟨h₀, seed₀, ha, hlater, hseed₀, hheld⟩ :=
      hlisted.holds hrunw fun r hr => hholds r (List.mem_cons_of_mem _ hr)
    rw [hseedId] at hseed₀
    exact ⟨h₀, seed₀, hbetween ha hlater, hseed₀, hheld⟩

/-- A third node joins through the first of two, and comes to hold the second as well. -/
theorem joined_is_introduced_third : ∃ (h b w : Trace) (conn : Conn) (joiner : WireIdentity)
    (seed p : Process) (m : Member), Run h ∧
    Welcomed conn joiner [alpha.addr] gamma.id alpha.id b w h ∧
    h.now.procs alpha.id = some seed ∧ h.now.procs gamma.id = some p ∧
    Introduced conn joiner b w alpha.id seed gamma.id p ∧
    p.shared.table.get beta.id = some m := by
  obtain ⟨h₀, h, seed₀, known, shared, shared', shared'', hrun₀, hnow₀, rfl, _, hadmitted, _, _, _,
    hknown, hbeta, _⟩ := exists_trio
  obtain ⟨h₁, htook⟩ := hadmitted.joined
  have hlater : Later h₀ h := hadmitted.steps.later
  have hrun : Run h := hrun₀.extends hlater
  obtain ⟨conn, joiner, b, w, s, seed, p, hwelcomed, hseed, haddr, hp, hmet⟩ :=
    joined_is_introduced hrun htook
  -- there is one node at the seed's address
  obtain rfl : s = alpha.id := by
    have hserver : conn.server = alpha.addr := List.mem_singleton.mp hwelcomed.server
    have hafter : Later h₁ h := htook.before
    obtain ⟨seed', hseed', hgrows⟩ := hafter.exists_grows hseed
    rw [hserver, ← hgrows.node] at haddr
    rw [hadmitted.now, hnow₀, Cluster.procs_put, Cluster.procs_put] at hseed'
    split_ifs at hseed' with hgamma halpha
    · rw [← Option.some.inj hseed'] at haddr
      exact absurd haddr (show gamma.addr ≠ alpha.addr by decide)
    · exact halpha
    · obtain rfl := (Cluster.eq_or_eq_of_pair hseed').resolve_left halpha
      rw [← Option.some.inj (Cluster.procs_pair_right.symm.trans hseed')] at haddr
      exact absurd haddr (show beta.addr ≠ alpha.addr by decide)
  have hintroduced := hmet.resolve_left (by decide)
  obtain ⟨h₂, seed₂, ⟨haccepted, hunanswered⟩, hseed₂, hall⟩ := hintroduced.told
  have hw : Later w h₁ := by
    obtain ⟨_, _, r, hwrote, hread⟩ := hwelcomed.heard
    exact hwrote.before.trans hread.before
  -- the request was accepted after the third node had started
  have hsince : Later h₀ b := by
    have hb : Later b h₁ := hwelcomed.accepted.before.trans hw
    obtain ⟨⟨pb, hpb⟩, _⟩ := hwelcomed.asked.joiner hwelcomed.client hb hp
    rcases hlater.total (hb.trans htook.before) with hle | hle
    · exact hle
    · obtain ⟨p₀, hp₀, _⟩ := Later.exists_grows hle hpb
      rw [hnow₀, Cluster.procs_pair_other (by decide) (by decide)] at hp₀
      exact absurd hp₀ (by simp)
  -- and all the time its seed held the second one alive
  have hkeeps := hadmitted.steps.keeps hrun₀ (q := alpha.id) (fun l hl => hl.not_reaping) beta.id
  have hfirst : h₀.now.procs alpha.id = some { Process.new alpha [] with shared := known } := by
    rw [hnow₀]
    exact Cluster.procs_pair_left alpha_ne_beta
  have hlast : h.now.procs alpha.id = some { Process.new alpha [] with shared := shared } := by
    rw [hadmitted.now, Cluster.procs_put, if_neg (by decide), Cluster.procs_put, if_pos rfl]
  obtain ⟨seed₃, m, hseed₃, hm, hkey⟩ := hkeeps.exists_between (hsince.trans haccepted.before)
    (hunanswered.trans (hw.trans htook.before)) hfirst hknown hlast hbeta rfl
  obtain rfl := Option.some.inj (hseed₂.symm.trans hseed₃)
  have halive : m.state.isDead = false := by
    have hstate : m.state.toWire = .alive := (WireMember.key_eq_iff (a := .new m)
      (b := beta.aliveRumor Guarded.new.current).mp hkey).2
    cases hcase : m.state with
    | dead => exact absurd (hcase ▸ hstate) (by simp [MemberState.toWire])
    | _ => rfl
  obtain ⟨m', hm', _⟩ := hall beta.id m (by decide) hm halive
  exact ⟨h₁, b, w, conn, joiner, seed, p, m', hrun.of_extends htook.before, hwelcomed, hseed, hp,
    hintroduced, hm'⟩

end Dalila
