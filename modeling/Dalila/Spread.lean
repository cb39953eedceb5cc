import Dalila.Tasks

/-!
# How knowledge spreads

A run is covered by a knowledge if all it holds is known: every table, every queue, every
message, and what is left to run of every task. A knowledge is sound if the operations that
make something new make it known. Then one step keeps a run covered.
-/

namespace Dalila

open Program

namespace Knowledge

variable (K : Knowledge)

def Packet (h : Trace) : Packet → Prop
  | .udp _ _ body => K.Udp h body
  | .request _ body => K.Tcp h body
  | .response _ body => K.Tcp h body

/-- Is this process's memory looked at? -/
def Minds (p : Process) : Prop := p.stopped = false ∨ K.postmortem

structure Covers (h : Trace) : Prop where
  table : ∀ {q p}, h.now.procs q = some p → K.Minds p →
    ∀ m ∈ p.shared.table.members, K.holds h m
  queue : ∀ {q p}, h.now.procs q = some p → K.Minds p →
    ∀ pending ∈ p.shared.queue, K.knows h pending.rumor
  net : ∀ packet ∈ h.now.net, K.Packet h packet
  tasks : ∀ {q p slot task}, h.now.procs q = some p → p.stopped = false →
    p.tasks slot = some task →
    K.Starts h task.kind ∧
      Follows (K.contract p.node task.kind) (K.Returns task.kind) task.prog h

/-- The steps that make something new, on the runs in `Valid`: a node speaks for itself, a
merge makes an entry, and the detector marks its target. -/
structure Sound (Valid : Trace → Prop) : Prop where
  own : ∀ {h q p}, Valid h → h.now.procs q = some p → p.stopped = false →
    K.knows h (p.node.aliveRumor p.shared.guarded.current) ∧
      K.said h (p.node.identity p.shared.guarded.current)
  leaving : ∀ {h q p slot prog}, Valid h → h.now.procs q = some p → p.stopped = false →
    p.tasks slot = some ⟨.announcing, prog⟩ →
    K.departs h (p.node.identity p.shared.guarded.current)
  fresh : ∀ {h r}, Valid h → K.knows h r → r.admissible = true →
    K.holds h (r.toMember h.now.clock)
  update : ∀ {h m r}, Valid h → K.holds h m → K.knows h r → r.id = m.id → m.key < r.key →
    K.holds h (m.update h.now.clock r)
  marked : ∀ {h c q p slot target outcome}, Valid h → h.now.procs q = some p →
    p.stopped = false → K.Covers h → K.copied h target →
    Step h.now (.op q slot (.judging target false)
      (.merge (markRumor target .suspect) p.node.id) outcome) c →
    outcome = .added ∨ outcome = .updated →
    K.knows (h.push (.op q slot (.judging target false)
      (.merge (markRumor target .suspect) p.node.id) outcome) c) (markRumor target .suspect)

variable {K} {h : Trace} {l : Label} {c : Cluster}

lemma Packet.later {h' : Trace} {packet : Dalila.Packet} (hlater : Later h h')
    (hpacket : K.Packet h packet) : K.Packet h' packet := by
  cases packet with
  | udp src dst body => exact Udp.later hlater hpacket
  | request conn body => exact Tcp.later hlater hpacket
  | response conn body => exact Tcp.later hlater hpacket

lemma Minds.of_evolves {q : NodeId} {p p' : Process} (hev : p.Evolves c l q p')
    (hp' : K.Minds p') : K.Minds p := hp'.imp_left hev.running

/-- What an operation allowed by the contract sends is known. -/
lemma packet_of_sends {node : LocalNode} {kind : Kind} {o : Op} {r : o.Res}
    {packet : Dalila.Packet} (hpre : (K.contract node kind).pre o h)
    (hsends : o.sends node r = some packet) : K.Packet h packet := by
  cases o with
  | sendUdp target body =>
    cases r with
    | true => exact Option.some.inj hsends ▸ hpre.told
    | false => exact absurd hsends (by simp [Op.sends])
  | writeRequest conn body =>
    cases r with
    | true => exact Option.some.inj hsends ▸ hpre.told
    | false => exact absurd hsends (by simp [Op.sends])
  | writeResponse conn body =>
    cases r with
    | true => exact Option.some.inj hsends ▸ hpre.told
    | false => exact absurd hsends (by simp [Op.sends])
  | _ => exact absurd hsends (by simp [Op.sends])

/-- A merge within the contract changes a table for a rumor that is known by then. -/
lemma Sound.knows_merged {Valid : Trace → Prop} (hsound : K.Sound Valid) (hvalid : Valid h)
    {q : NodeId} {p : Process} (hp : h.now.procs q = some p) (hrun : p.stopped = false)
    {slot : Slot} {kind : Kind} {rumor : WireMember} {me : NodeId} {outcome : MergeOutcome}
    (hcov : K.Covers h) (hstarts : K.Starts h kind)
    (hpre : (K.contract p.node kind).pre (.merge rumor me) h)
    (hstep : Step h.now (.op q slot kind (.merge rumor me) outcome) c)
    (hout : outcome = .added ∨ outcome = .updated) :
    K.knows (h.push (.op q slot kind (.merge rumor me) outcome) c) rumor := by
  obtain ⟨hme, hknows | hmarks⟩ := hpre
  · exact K.knows_later (.single hstep) hknows
  · cases kind with
    | judging target acked =>
      cases acked with
      | true => exact absurd hmarks (by simp [Kind.marks])
      | false =>
        obtain rfl : rumor = markRumor target .suspect := hmarks
        subst hme
        exact hsound.marked hvalid hp hrun hcov hstarts hstep hout
    | _ => exact absurd hmarks (by simp [Kind.marks])

/-- What an operation tells is known. -/
lemma Covers.post {Valid : Trace → Prop} (hcov : K.Covers h) (hsound : K.Sound Valid)
    (hvalid : Valid h) {q : NodeId} {p : Process} (hp : h.now.procs q = some p)
    (hrun : p.stopped = false) {slot : Slot} {kind : Kind} {o : Op} {next : o.Res → Prog kind.Out}
    {r : o.Res} (htask : p.tasks slot = some ⟨kind, .step o next⟩) (hstarts : K.Starts h kind)
    (hpre : (K.contract p.node kind).pre o h) {w : World}
    (hop : o.Run p.node h.now.clock ⟨p.shared, h.now.net⟩ r w)
    (hstep : Step h.now (.op q slot kind o r) c) (hclock : c.clock = h.now.clock) :
    (K.contract p.node kind).post o r (h.push (.op q slot kind o r) c) := by
  have hlater : Later h (h.push (.op q slot kind o r) c) := .single hstep
  have hmem : ∀ m ∈ p.shared.table.members, K.holds (h.push (.op q slot kind o r) c) m :=
    fun m hm => K.holds_later hlater (hcov.table hp (.inl hrun) m hm)
  -- only operations that read records can tell the task anything
  cases o with
  | merge rumor me =>
    exact fun hout => hsound.knows_merged hvalid hp hrun hcov hstarts hpre hstep hout
  | current =>
    obtain rfl := hop.1
    have hown := hsound.own hvalid hp hrun
    refine ⟨K.knows_later hlater hown.1, K.said_later hlater hown.2, ?_⟩
    rintro rfl
    exact K.departs_later hlater (hsound.leaving hvalid hp hrun htask)
  | get id =>
    intro m hm
    have hget : r = p.shared.table.get id := hop.1
    rw [hget] at hm
    exact hmem m (MemberTable.mem_of_get hm)
  | randomMember =>
    intro m hm
    obtain rfl : r = some m := hm
    have hpool : m ∈ p.shared.table.partnerPool := hop.1
    exact hmem m (List.mem_filter.mp hpool).1
  | snapshot => exact fun m hm => hmem m (hop.1.mem_iff.mp hm)
  | relayCandidates exclude count =>
    intro m hm
    obtain ⟨order, hperm, rfl⟩ := hop.1
    have hpool := hperm.mem_iff.mp (List.mem_of_mem_take hm)
    exact hmem m (List.mem_filter.mp hpool).1
  | membersWhere f =>
    intro m hm
    have hfilter := List.mem_filter.mp (hop.1.mem_iff.mp hm)
    refine ⟨hmem m hfilter.1, ?_⟩
    show f c.clock m = true
    rw [hclock]
    exact hfilter.2
  | take =>
    intro rumor hrumor
    have htake : r = p.shared.queue.take.1 := hop.1
    rw [htake] at hrumor
    obtain ⟨pending, hpending, rfl⟩ := GossipQueue.exists_mem_of_mem_take_fst hrumor
    exact K.knows_later hlater (hcov.queue hp (.inl hrun) pending hpending)
  | readFrame conn =>
    intro body hbody
    obtain rfl : r = some body := hbody
    exact Tcp.later hlater (hcov.net _ hop.1)
  | _ => trivial

/-- What an operation leaves of a table holds. -/
lemma Covers.holds_of_op {Valid : Trace → Prop} (hcov : K.Covers h) (hsound : K.Sound Valid)
    (hvalid : Valid h) (hvalid' : Valid (h.push l c)) {q : NodeId} {p : Process}
    (hp : h.now.procs q = some p) (hrun : p.stopped = false) {slot : Slot} {kind : Kind} {o : Op}
    {r : o.Res} (hl : l = .op q slot kind o r) (hstarts : K.Starts h kind)
    (hpre : (K.contract p.node kind).pre o h)
    {shared : Shared} {net : List Dalila.Packet}
    (hop : o.Run p.node h.now.clock ⟨p.shared, h.now.net⟩ r ⟨shared, net⟩)
    (hstep : Step h.now l c) (hclock : c.clock = h.now.clock) :
    ∀ m ∈ shared.table.members, K.holds (h.push l c) m := by
  have hlater : Later h (h.push l c) := .single hstep
  have hmem : ∀ m ∈ p.shared.table.members, K.holds (h.push l c) m :=
    fun m hm => K.holds_later hlater (hcov.table hp (.inl hrun) m hm)
  have htable : shared.table = o.tableAfter h.now.clock p.shared.table := hop.table
  rw [htable]
  -- a put changes one entry
  have hput : ∀ m', K.holds (h.push l c) m' →
      ∀ m ∈ (p.shared.table.put m').members, K.holds (h.push l c) m := by
    intro m' hm' m hm
    rcases List.mem_cons.mp hm with rfl | hm
    · exact hm'
    · exact hmem m (List.mem_filter.mp hm).1
  cases o with
  | merge rumor me =>
    subst hl
    have hout : r = (p.shared.table.merge h.now.clock rumor me).1 := hop.1
    have hknows : (p.shared.table.merge h.now.clock rumor me).1 = .added ∨
        (p.shared.table.merge h.now.clock rumor me).1 = .updated →
        K.knows (h.push (.op q slot kind (.merge rumor me) r) c) rumor := by
      rw [← hout]
      exact hsound.knows_merged hvalid hp hrun hcov hstarts hpre hstep
    have hspec := p.shared.table.merge_spec h.now.clock rumor me
    show ∀ m ∈ (p.shared.table.merge h.now.clock rumor me).2.members, _
    generalize (p.shared.table.merge h.now.clock rumor me).1 = outcome at hspec hknows
    generalize (p.shared.table.merge h.now.clock rumor me).2 = table at hspec ⊢
    cases hspec with
    | own | doubted | refused | stale => exact hmem
    | added hid hget hadm =>
      have hfresh := hsound.fresh hvalid' (hknows (.inl rfl)) hadm
      refine hput _ ?_
      rw [← hclock]
      exact hfresh
    | updated hid member hget hkey =>
      have hold := hmem member (MemberTable.mem_of_get hget)
      have hupdate := hsound.update hvalid' hold (hknows (.inr rfl))
        (MemberTable.id_of_get hget).symm hkey
      refine hput _ ?_
      rw [← hclock]
      exact hupdate
  | remove ids => exact fun m hm => hmem m (List.mem_filter.mp hm).1
  | _ => exact hmem

/-- What an operation leaves of a queue is known. -/
lemma Covers.knows_of_op (hcov : K.Covers h) {q : NodeId} {p : Process}
    (hp : h.now.procs q = some p) (hrun : p.stopped = false) {kind : Kind} {o : Op} {r : o.Res}
    (hpre : (K.contract p.node kind).pre o h) {shared : Shared} {net : List Dalila.Packet}
    (hop : o.Run p.node h.now.clock ⟨p.shared, h.now.net⟩ r ⟨shared, net⟩) :
    ∀ pending ∈ shared.queue, K.knows h pending.rumor := by
  have hqueue := hcov.queue hp (.inl hrun)
  have hafter : shared.queue = o.queueAfter p.shared.queue := hop.queue
  rw [hafter]
  intro pending hpending
  cases o with
  | push rumor clusterSize =>
    rcases GossipQueue.mem_push hpending with hpending | hrumor
    · exact hqueue pending hpending
    · rw [hrumor]
      exact hpre
  | take =>
    obtain ⟨pending', hpending', hsame⟩ := GossipQueue.exists_mem_of_mem_take_snd hpending
    rw [← hsame]
    exact hqueue pending' hpending'
  | _ => exact hqueue pending hpending

/-- One step keeps a run covered. -/
theorem Covers.step {Valid : Trace → Prop} (hsound : K.Sound Valid) (hcov : K.Covers h)
    (hvalid : Valid h) (hstep : Step h.now l c) (hvalid' : Valid (h.push l c)) :
    K.Covers (h.push l c) := by
  have hlater : Later h (h.push l c) := .single hstep
  have hpre : ∀ {q p slot kind o next}, h.now.procs q = some p → p.stopped = false →
      p.tasks slot = some ⟨kind, .step o next⟩ → (K.contract p.node kind).pre o h :=
    fun hp hrun htask => (hcov.tasks hp hrun htask).2.step.1
  have hclock : ∀ {q slot kind o r}, l = .op q slot kind o r → c.clock = h.now.clock := by
    rintro q slot kind o r rfl
    cases hstep
    rfl
  -- tables, queues, packets in flight, and what tasks have in hand
  refine ⟨?_, ?_, ?_, ?_⟩
  · intro q p' hp' hminds
    rcases hstep.proc_cases hp' with ⟨p, hp, hev⟩ | ⟨_, node, seeds, _, _, _, rfl⟩
    · have hminds := hminds.of_evolves hev
      cases hev with
      | quiet _ hnode hshared =>
        rw [hshared]
        exact fun m hm => K.holds_later hlater (hcov.table hp hminds m hm)
      | op slot kind o next r shared net hrun htask hl hop =>
        exact hcov.holds_of_op hsound hvalid hvalid' hp hrun hl (hcov.tasks hp hrun htask).1
          (hpre hp hrun htask) hop hstep (hclock hl)
    · exact fun m hm => absurd hm (by simp [Process.new, Shared.new, MemberTable.new])
  · intro q p' hp' hminds
    rcases hstep.proc_cases hp' with ⟨p, hp, hev⟩ | ⟨_, node, seeds, _, _, _, rfl⟩
    · have hminds := hminds.of_evolves hev
      cases hev with
      | quiet _ hnode hshared =>
        rw [hshared]
        exact fun pending hm => K.knows_later hlater (hcov.queue hp hminds pending hm)
      | op slot kind o next r shared net hrun htask hl hop =>
        exact fun pending hm => K.knows_later hlater
          (hcov.knows_of_op hp hrun (hpre hp hrun htask) hop pending hm)
    · exact fun pending hm => absurd hm (by simp [Process.new, Shared.new, GossipQueue.new])
  · intro packet hnet
    rcases hstep.mem_net hnet with hnet | ⟨conn, _, rfl, _⟩ |
      ⟨q, p, slot, kind, o, next, r, hp, hrun, htask, _, hsends⟩
    · exact Packet.later hlater (hcov.net packet hnet)
    · trivial
    · exact Packet.later hlater (packet_of_sends (hpre hp hrun htask) hsends)
  · intro q p' slot task hp' hrun htask
    cases Task.arises hstep hp' hrun htask with
    | kept p _ hp hrun' htask' hl hl' =>
      have hold := hcov.tasks hp hrun' htask'
      obtain ⟨p'', hp'', hev⟩ := hstep.exists_evolves hp
      obtain rfl : p'' = p' := Option.some.inj (hp''.symm.trans hp')
      rw [hev.node]
      exact ⟨hold.1.later hlater, hold.2.mono hlater⟩
    | moved p kind o next r net' hp hrun' htask' hl hop =>
      have hold := hcov.tasks hp hrun' htask'
      obtain ⟨p'', hp'', hev⟩ := hstep.exists_evolves hp
      obtain rfl : p'' = p' := Option.some.inj (hp''.symm.trans hp')
      rw [hev.node]
      subst hl
      refine ⟨hold.1.later hlater, hold.2.step.2 r _ hlater ?_⟩
      exact hcov.post hsound hvalid hp hrun' htask' hold.1 hold.2.step.1 hop hstep (hclock rfl)
    | followed p slot₀ kind₀ out free kind hp hrun' htask' hl hnext =>
      have hold := hcov.tasks hp hrun' htask'
      have hstarts : K.Starts (h.push l c) kind := by
        cases hnext with
        | probing order rest target => exact K.copied_later hlater (hold.2.result target rfl)
        | judging target acked => exact K.copied_later hlater hold.1
        | _ => trivial
      exact ⟨hstarts, follows_start hstarts⟩
    | begun p kind hp hrun' haborted hl hbegins =>
      have hstarts : K.Starts (h.push l c) kind := by cases hbegins <;> trivial
      exact ⟨hstarts, follows_start hstarts⟩
    | received p src body hp hrun' hslot hl hnet =>
      have hbody : K.Starts (h.push l c) (.datagram src body) :=
        Udp.later hlater (hcov.net _ hnet)
      exact ⟨hbody, follows_start hbody⟩
    | accepted p n conn body hp hrun' hslot hl hnet =>
      have hbody : K.Starts (h.push l c) (.serve conn body) := Tcp.later hlater (hcov.net _ hnet)
      exact ⟨hbody, follows_start hbody⟩
    | joining seeds hslot hl => exact ⟨trivial, follows_start trivial⟩

/-- Nothing is held before the first step. -/
lemma covers_init : K.Covers (.init .empty) where
  table hp := absurd hp (by simp [History.init, Cluster.empty])
  queue hp := absurd hp (by simp [History.init, Cluster.empty])
  net packet hnet := absurd hnet (by simp [History.init, Cluster.empty])
  tasks hp := absurd hp (by simp [History.init, Cluster.empty])

/-- A knowledge that is sound on every run covers every run. -/
theorem Sound.covers (hsound : K.Sound Run) {h : Trace} (hrun : Run h) : K.Covers h := by
  refine History.IsRun.induction (P := K.Covers) hrun ?_ ?_
  · rintro c rfl
    exact covers_init
  · intro h l c hrun hcov hstep
    exact hcov.step hsound hrun hstep (hrun.extends (.single hstep))

/-- From a covered run on, a knowledge that is sound later covers what is later. -/
theorem Sound.covers_later {h₀ : Trace} (hrun : Run h₀)
    (hsound : K.Sound fun h => Run h ∧ Later h₀ h) (hcov : K.Covers h₀) {h : Trace}
    (hlater : Later h₀ h) : K.Covers h := by
  induction hlater with
  | refl => exact hcov
  | push hext hstep ih =>
    have hrun' := hrun.extends hext
    exact ih.step hsound ⟨hrun', hext⟩ hstep ⟨hrun'.extends (.single hstep), hext.push hstep⟩

end Knowledge

end Dalila
