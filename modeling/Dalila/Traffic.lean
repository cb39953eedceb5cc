import Dalila.Conduct
import Dalila.Lib.Ledger
import Dalila.Manner
import Dalila.Pair

/-!
# What is sent is paid for

A message is worth the messages that answering it may take (`Packet.answers`): a ping one, a request
for a relayed probe three, a request over TCP one, and the rest none. The file keeps an account of
it for every task, and proves that whatever a cluster sends is paid for by what started it: a timer,
a join, a goodbye, somebody outside or the network itself (`everything_sent_is_paid`).
-/

namespace Dalila

open Program

/-! ## What a message is worth -/

/-- The messages that may come of a datagram: an ack; or a ping, its ack and the report. -/
def UdpBody.answers : UdpBody → ℕ
  | .ping _ _ _ => 1
  | .pingReq _ _ _ _ => 3
  | .ack _ _ _ | .pingReqAck _ _ _ _ | .leave _ => 0

/-- A request is answered, a response is not. -/
def TcpBody.answers : TcpBody → ℕ
  | .joinRequest _ | .membersRequest | .syncRequest _ _ => 1
  | .joinResponse _ _ | .membersResponse _ _ | .syncResponse _ _ => 0

def Packet.answers : Packet → ℕ
  | .udp _ _ body => body.answers
  | .request _ body => body.answers
  | .response _ _ => 0

/-- What an operation costs: every message it sends, and what may come of it. -/
def Op.price : (o : Op) → o.Res → ℕ
  | .sendUdp _ body, true => 1 + body.answers
  | .writeRequest _ body, true => 1 + body.answers
  | .writeResponse _ _, true => 1
  | _, _ => 0

/-- A node that leaves is given a message for everybody it knows of. -/
def Kind.earns (kind : Kind) : (o : Op) → o.Res → ℕ
  | .membersWhere _, members =>
    match kind with
    | .announcing => members.length
    | _ => 0
  | _, _ => 0

/-- What a task pays, and what it knows of its relays. -/
def Kind.tariff (kind : Kind) : Tariff Op Op.Res where
  price := Op.price
  earns := kind.earns
  gives
    | .relayCandidates _ count, relays => relays.length ≤ count
    | _, _ => True

/-- What a task of `kind` needs. -/
def Kind.budget : Kind → ℕ
  | .datagram _ body => body.answers
  | .relay _ => 3
  | .serve _ body => body.answers
  | .sync => 2
  | .join seeds => 2 * seeds.length
  | .probing _ => 14
  | _ => 0

/-- What it leaves. -/
def Kind.leaves : (kind : Kind) → kind.Out → ℕ
  | .datagram _ _, some _ => 3
  | _, _ => 0

/-! ## Programs that send nothing -/

/-- Hands a message to the network. -/
def Op.speaks : Op → Bool
  | .sendUdp _ _ | .writeRequest _ _ | .writeResponse _ _ => true
  | _ => false

lemma Op.price_of_not_speaks {o : Op} (ho : o.speaks = false) (r : o.Res) : o.price r = 0 := by
  cases o <;> first | rfl | exact absurd ho (by simp [speaks])

/-- The program uses no connection. -/
lemma offline_atWaits :
    Offline true fun _ prog => AtWaits (fun o : Op => o.online = true) (fun _ => False) prog where
  pure _ := trivial
  call_bind o f ho _ hf := AtWaits.call_bind (fun hon => absurd (ho.symm.trans hon) (by simp)) hf
  bind hp hf := AtWaits.bind hp (fun _ => False.elim) hf

section

variable {node : LocalNode} {kind : Kind} {α : Type} {prog : Prog α} {n : ℕ}

/-- What sends neither datagrams nor frames costs nothing. -/
lemma affords_of_quiet {left : α → ℕ} (hudp : Discreet prog)
    (htcp : AtWaits (fun o : Op => o.online = true) (fun _ => False) prog)
    (hleft : ∀ a, left a ≤ n) : Affords kind.tariff left prog n := by
  refine ((hudp.or htcp).affords (fun o ho r => Op.price_of_not_speaks ?_ r) n).imp hleft
  cases o <;> first | rfl | exact absurd (by simp [Op.online]) ho

/-! ## Datagrams -/

/-- A message costs itself and what may come of it. -/
lemma price_sendUdp_le (target : SocketAddr) (body : UdpBody) (ok : Bool) :
    (Op.sendUdp target body).price ok ≤ 1 + body.answers := by
  cases ok with
  | true => exact le_refl _
  | false => exact Nat.zero_le _

lemma affords_ping (target : NodeId) (addr : SocketAddr) (seq : UInt32) :
    Affords kind.tariff (fun _ => n) (ping node target addr seq) (n + 2) := by
  refine Affords.free_bind (fun _ => rfl) fun channel _ => ?_
  refine Affords.free_bind (fun _ => rfl) fun current _ => ?_
  refine Affords.free_bind (fun _ => rfl) fun gossip _ => ?_
  refine Affords.pay_bind (price_sendUdp_le addr _) fun ok _ => ?_
  cases ok with
  | true =>
    exact Affords.free_bind (fun _ => rfl) fun _ _ => Affords.free_bind (fun _ => rfl) fun _ _ =>
      Affords.free_bind (fun _ => rfl) fun _ _ => Affords.pure (le_refl n)
  | false => exact Affords.free_bind (fun _ => rfl) fun _ _ => Affords.pure (le_refl n)

lemma affords_askRelays (target : NodeId) (seq : UInt32) (relays : List Member) (sent : ℕ) :
    Affords kind.tariff (fun _ => n) (askRelays node target seq relays sent)
      (n + 4 * relays.length) := by
  induction relays generalizing sent with
  | nil => exact Affords.pure (le_refl n)
  | cons relay relays ih =>
    refine Affords.free_bind (fun _ => rfl) fun current _ => ?_
    refine Affords.free_bind (fun _ => rfl) fun gossip _ => ?_
    show Affords _ _ _ (n + 4 * relays.length + 4)
    exact Affords.pay_bind (price_sendUdp_le relay.addr _) fun _ _ => ih _

lemma affords_pingReq (target : NodeId) (relays : List Member) (seq : UInt32) :
    Affords kind.tariff (fun _ => n) (pingReq node target relays seq) (n + 4 * relays.length) := by
  refine Affords.free_bind (fun _ => rfl) fun channel _ => ?_
  refine Affords.bind (affords_askRelays target seq relays 0) fun sent => ?_
  show Affords _ _ (if sent = 0 then _ else _) n
  split_ifs
  · exact Affords.free_bind (fun _ => rfl) fun _ _ => Affords.pure (le_refl n)
  · exact Affords.free_bind (fun _ => rfl) fun _ _ => Affords.free_bind (fun _ => rfl) fun _ _ =>
      Affords.free_bind (fun _ => rfl) fun _ _ => Affords.pure (le_refl n)

lemma affords_handlePing (seq : UInt32) (addr : SocketAddr) :
    Affords kind.tariff (fun _ => n) (handlePing node seq addr) (n + 1) := by
  refine Affords.free_bind (fun _ => rfl) fun current _ => ?_
  refine Affords.free_bind (fun _ => rfl) fun gossip _ => ?_
  exact Affords.pay_bind (price_sendUdp_le addr _) fun _ _ => Affords.pure (le_refl n)

/-- A relay pings, is acked and reports. -/
lemma affords_handlePingReq (seq : UInt32) (target : NodeId) (asker : SocketAddr) :
    Affords kind.tariff (fun _ => 0) (handlePingReq node seq target asker) 3 := by
  refine Affords.free_bind (fun _ => rfl) fun member _ => ?_
  cases member with
  | none => exact Affords.pure (Nat.zero_le 3)
  | some member =>
    refine Affords.free_bind (fun _ => rfl) fun relayed _ => ?_
    refine Affords.bind (affords_ping (n := 1) target member.addr relayed) fun acked => ?_
    cases acked with
    | true =>
      refine Affords.free_bind (fun _ => rfl) fun current _ => ?_
      refine Affords.free_bind (fun _ => rfl) fun gossip _ => ?_
      show Affords _ _ _ (0 + 1)
      exact Affords.pay_bind (price_sendUdp_le asker _) fun _ _ => Affords.pure (le_refl 0)
    | false => exact Affords.pure (Nat.zero_le 1)

lemma affords_handleDatagram (src : SocketAddr) (body : UdpBody) :
    Affords kind.tariff (Kind.datagram src body).leaves (handleDatagram node src body)
      body.answers := by
  have hgossip : ∀ (n : ℕ) (gossip : List WireMember),
      Affords kind.tariff (fun _ => n) (applyAll node gossip) n := fun n gossip =>
    affords_of_quiet (discreet_applyAll gossip) (offline_atWaits.manner.applyAll gossip)
      fun _ => le_refl n
  cases body with
  | ping seq sender gossip =>
    refine Affords.bind (hgossip 1 gossip) fun _ => ?_
    exact Affords.bind (affords_handlePing (n := 0) seq src) fun _ => Affords.pure (le_refl 0)
  | ack seq sender gossip =>
    exact Affords.bind (hgossip 0 gossip) fun _ => Affords.free_bind (fun _ => rfl) fun _ _ =>
      Affords.pure (le_refl 0)
  | pingReq seq sender target gossip =>
    exact Affords.bind (hgossip 3 gossip) fun _ => Affords.pure (le_refl 3)
  | pingReqAck seq sender target gossip =>
    exact Affords.bind (hgossip 0 gossip) fun _ => Affords.free_bind (fun _ => rfl) fun _ _ =>
      Affords.pure (le_refl 0)
  | leave sender =>
    have happly : Affords kind.tariff (fun _ => 0) (handleLeave node sender) 0 :=
      affords_of_quiet ((discreet_apply _).bind fun _ => trivial)
        (offline_atWaits.bind (offline_atWaits.apply _) fun _ => trivial) fun _ => le_refl 0
    exact Affords.bind happly fun _ => Affords.pure (le_refl 0)

/-- A direct ping and its ack, and three relays with a request, a ping, an ack and a report each. -/
lemma affords_probe (target : Member) :
    Affords kind.tariff (fun _ => 0) (probe node target) 14 := by
  refine Affords.free_bind (fun _ => rfl) fun seq _ => ?_
  refine Affords.bind (affords_ping (n := 12) target.id target.addr seq) fun acked => ?_
  cases acked with
  | true => exact Affords.pure (Nat.zero_le 12)
  | false =>
    refine Affords.free_bind (fun _ => rfl) fun relays hrelays => ?_
    have hfew : relays.length ≤ 3 := hrelays
    show Affords _ _ (if relays.isEmpty = true then _ else _) 12
    split_ifs
    · exact Affords.pure (Nat.zero_le 12)
    · refine Affords.free_bind (fun _ => rfl) fun seq _ => ?_
      exact (affords_pingReq (n := 0) target.id relays seq).mono (by omega)

/-- Everybody it knows of is told once. -/
lemma affords_announceLeave :
    Affords Kind.announcing.tariff (fun _ => 0) (announceLeave node) 0 := by
  have hall : ∀ (i : WireIdentity) (members : List Member) (told : ℕ),
      Affords Kind.announcing.tariff (fun _ => 0) (sendEach (.leave i) members told)
        members.length := by
    intro i members
    induction members with
    | nil => exact fun told => Affords.pure (le_refl 0)
    | cons member members ih =>
      exact fun told => Affords.pay_bind (price_sendUdp_le member.addr _) fun _ _ => ih _
  refine Affords.free_bind (fun _ => rfl) fun current _ => Affords.call_bind fun members _ => ?_
  refine ⟨Nat.zero_le _, (hall _ members 0).mono ?_⟩
  exact (Nat.zero_add members.length).symm.le

/-! ## Frames -/

lemma TcpBody.answers_le (body : TcpBody) : body.answers ≤ 1 := by
  cases body <;> simp [answers]

lemma affords_exchange (addr : SocketAddr) {body : Prog TcpBody}
    (hbody : Affords kind.tariff (fun _ => n + 2) body (n + 2)) :
    Affords kind.tariff (fun _ => n) (exchange addr body) (n + 2) := by
  refine Affords.free_bind (fun _ => rfl) fun conn _ => ?_
  cases conn with
  | none => exact Affords.pure (Nat.le_add_right n 2)
  | some conn =>
    refine Affords.bind hbody fun body => Affords.pay_bind (fun ok => ?_) fun ok _ => ?_
    · have hanswers := body.answers_le
      cases ok with
      | true => exact Nat.add_le_add_left hanswers 1
      | false => exact Nat.zero_le 2
    · cases ok with
      | true => exact fun _ _ => ⟨Nat.zero_le n, le_refl n⟩
      | false => exact Affords.pure (le_refl n)

lemma affords_absorb {left : Unit → ℕ} (sender : WireIdentity) (members : List WireMember)
    (hleft : left () ≤ n) : Affords kind.tariff left (absorb node sender members) n :=
  affords_of_quiet (discreet_absorb sender members) (offline_atWaits.manner.absorb sender members)
    fun _ => hleft

/-- A request and its reply. -/
lemma affords_syncTurn : Affords kind.tariff (fun _ => 0) (syncTurn node) 2 := by
  refine Affords.free_bind (fun _ => rfl) fun partner _ => ?_
  cases partner with
  | none => exact Affords.pure (Nat.zero_le 2)
  | some partner =>
    refine Affords.bind (affords_exchange (n := 0) partner.addr ?_) fun reply => ?_
    · exact Affords.free_bind (fun _ => rfl) fun _ _ => Affords.free_bind (fun _ => rfl) fun _ _ =>
        Affords.pure (le_refl 2)
    · split
      · exact affords_absorb _ _ (le_refl 0)
      · exact Affords.pure (le_refl 0)

/-- A request and a reply for every seed. -/
lemma affords_join (seeds : List SocketAddr) :
    Affords kind.tariff (fun _ => 0) (join node seeds) (2 * seeds.length) := by
  have habsorb : ∀ (n : ℕ) (sender : WireIdentity) (members : List WireMember),
      Affords kind.tariff (fun _ => 0) (absorb node sender members) n :=
    fun n sender members => affords_absorb sender members (Nat.zero_le n)
  refine Affords.free_bind (fun _ => rfl) fun current _ => ?_
  induction seeds with
  | nil => exact Affords.pure (le_refl 0)
  | cons seed seeds ih =>
    refine Affords.bind (affords_exchange (n := 2 * seeds.length) seed (Affords.pure (le_refl _)))
      fun reply => ?_
    split
    · exact Affords.bind (habsorb _ _ _) fun _ => Affords.pure (le_refl 0)
    · exact ih

/-- Who is asked replies, and who is replied to does not. -/
lemma affords_serve (conn : Conn) (body : TcpBody) :
    Affords kind.tariff (fun _ => 0) (serve node conn body) body.answers := by
  have hrespond : Affords kind.tariff (fun reply => if reply.isSome then 1 else 0)
      (respond node body) body.answers := by
    cases body with
    | joinRequest | membersRequest | syncRequest =>
      refine affords_of_quiet (discreet_respond _) (offline_atWaits.manner.respond _)
        fun reply => ?_
      split_ifs
      · exact le_refl 1
      · exact Nat.zero_le 1
    | _ => exact Affords.pure (le_refl 0)
  refine Affords.bind hrespond fun reply => ?_
  cases reply with
  | none => exact Affords.pure (le_refl 0)
  | some reply =>
    show Affords _ _ _ (0 + 1)
    refine Affords.pay_bind (fun ok => ?_) fun _ _ => Affords.pure (le_refl 0)
    cases ok with
    | true => exact le_refl 1
    | false => exact Nat.zero_le 1

/-- Every task can afford what it runs. -/
lemma affords_start (kind : Kind) :
    Affords kind.tariff kind.leaves (kind.start node) kind.budget := by
  cases kind with
  | datagram src body => exact affords_handleDatagram src body
  | relay relay =>
    obtain ⟨seq, target, asker⟩ := relay
    exact affords_handlePingReq seq target asker
  | serve conn body => exact affords_serve conn body
  | sync => exact affords_syncTurn
  | join seeds => exact affords_join seeds
  | probing target => exact affords_probe target
  | announcing => exact affords_announceLeave
  | _ =>
    refine affords_of_quiet (discreet_start ?_)
      (offline_atWaits.manner.start_offline ?_ fun _ => rfl) fun _ => le_refl 0
    · simp [Kind.speaks]
    · rfl

end

/-! ## What is sent, and what pays for it -/

/-- Messages handed to the network. -/
def Op.sent : (o : Op) → o.Res → ℕ
  | .sendUdp _ _, true | .writeRequest _ _, true | .writeResponse _ _, true => 1
  | _, _ => 0

/-- A target to probe is worth fourteen messages. -/
def Kind.yields : (kind : Kind) → kind.Out → ℕ
  | .choosing _, (some _, _) => 14
  | _, _ => 0

def Label.sent : Label → ℕ
  | .op _ _ _ o r => o.sent r
  | _ => 0

/-- What starts messages: a target chosen for a probe, a turn of the sync loop, the seeds of a
join, the members a leaving node knows of, a request from outside, and what the network makes of a
message that is answered. -/
def Label.pays : Label → ℕ
  | .finish _ _ kind out => kind.yields out
  | .begins _ _ .sync => 2
  | .start _ seeds => 2 * seeds.length
  | .op _ _ kind o r => kind.earns o r
  | .query _ => 1
  | .duplicate packet => packet.answers
  | _ => 0

/-! ## The accounts -/

/-- What may come of the messages in the network. -/
def answersOf (net : List Packet) : ℕ :=
  (net.map Packet.answers).sum

lemma answersOf_erase {net : List Packet} {packet : Packet} (h : packet ∈ net) :
    packet.answers + answersOf (net.erase packet) = answersOf net :=
  List.sum_map_erase Packet.answers h

lemma answersOf_erase_le (net : List Packet) (packet : Packet) :
    answersOf (net.erase packet) ≤ answersOf net := by
  by_cases h : packet ∈ net
  · have hsum := answersOf_erase h
    omega
  · rw [List.erase_of_not_mem h]

/-- An operation pays for what it sends and for what may come of that. -/
lemma Op.Run.answersOf_le {node : LocalNode} {now : Instant} {o : Op} {w w' : World} {r : o.Res}
    (hop : o.Run node now w r w') : o.sent r + answersOf w'.net ≤ o.price r + answersOf w.net := by
  cases o with
  | sendUdp | writeRequest | writeResponse =>
    cases r with
    | false =>
      obtain rfl : w' = w := hop
      exact le_refl _
    | true =>
      obtain rfl := hop
      simp [Op.sent, Op.price, answersOf, Packet.answers, Nat.add_assoc]
  | connect addr =>
    cases r with
    | none =>
      obtain rfl : w' = w := hop
      exact le_refl _
    | some conn =>
      obtain ⟨_, rfl⟩ := hop
      exact le_refl _
  | readFrame conn =>
    cases r with
    | none =>
      obtain rfl : w' = w := hop
      exact le_refl _
    | some body =>
      obtain ⟨_, rfl⟩ := hop
      exact Nat.add_le_add_left (answersOf_erase_le w.net _) 0
  | _ => simp_all [Op.Run, Op.sent]

/-- Every task can afford the rest of its program, and there is enough for the network. The
account of the network is `none`. -/
structure Funded (c : Cluster) (ledger : Ledger (Option (NodeId × Slot))) : Prop where
  net : answersOf c.net ≤ ledger none
  tasks : ∀ {q p slot task}, c.procs q = some p → p.stopped = false → p.tasks slot = some task →
    Affords task.kind.tariff task.kind.leaves task.prog (ledger (some (q, slot)))

section

variable {c c' : Cluster} {ledger : Ledger (Option (NodeId × Slot))} {q : NodeId} {p : Process}
  {slot : Slot} {n m : ℕ}

/-- The tasks after one slot was set: that one, and those that were there. -/
lemma Cluster.tasks_of_set {net : List Packet} {p₁ p' : Process} {next : Option Task}
    {q' : NodeId} {slot' : Slot} {task : Task} (hp : c.procs q = some p)
    (hrunning : p.stopped = false) (htasks : p₁.tasks = (p.set slot next).tasks)
    (hp' : { c.setProc q p₁ with net := net }.procs q' = some p')
    (htask : p'.tasks slot' = some task) :
    (q' = q ∧ slot' = slot ∧ next = some task) ∨
      ((q', slot') ≠ (q, slot) ∧ ∃ p₀, c.procs q' = some p₀ ∧
        (p'.stopped = false → p₀.stopped = false) ∧ p₀.tasks slot' = some task) := by
  have hp' : (c.setProc q p₁).procs q' = some p' := hp'
  rw [Cluster.procs_setProc] at hp'
  by_cases hq : q' = q
  · rw [if_pos hq] at hp'
    rw [← Option.some.inj hp', htasks] at htask
    rcases Process.tasks_set_some htask with ⟨hslot, hnext⟩ | ⟨hslot, hold⟩
    · exact .inl ⟨hq, hslot, hnext⟩
    · refine .inr ⟨fun heq => hslot (Prod.mk.inj heq).2, p, ?_, fun _ => hrunning, hold⟩
      rw [hq, hp]
  · rw [if_neg hq] at hp'
    exact .inr ⟨fun heq => hq (Prod.mk.inj heq).1, p', hp', id, htask⟩

/-- One task has changed, and so have its account and that of the network. -/
lemma Funded.set {net : List Packet} {p₁ : Process} {next : Option Task} (hf : Funded c ledger)
    (hp : c.procs q = some p) (hrunning : p.stopped = false)
    (htasks : p₁.tasks = (p.set slot next).tasks)
    (hnext : ∀ task ∈ next, Affords task.kind.tariff task.kind.leaves task.prog n)
    (hnet : answersOf net ≤ m) :
    Funded { c.setProc q p₁ with net := net }
      ((ledger.update (some (q, slot)) n).update none m) where
  net := by
    rw [Ledger.update_same]
    exact hnet
  tasks := by
    intro q' p' slot' task hp' halive htask
    rw [Ledger.update_of_ne _ (by simp)]
    rcases Cluster.tasks_of_set hp hrunning htasks hp' htask with
      ⟨rfl, rfl, hmem⟩ | ⟨hne, p₀, hp₀, hstopped, hold⟩
    · rw [Ledger.update_same]
      exact hnext task hmem
    · rw [Ledger.update_of_ne _ (by simpa using hne)]
      exact hf.tasks hp₀ (hstopped halive) hold

/-- A task has started, with what it needs. -/
lemma Funded.start {net : List Packet} {p₁ : Process} {kind : Kind} {node : LocalNode}
    (hf : Funded c ledger) (hp : c.procs q = some p) (hrunning : p.stopped = false)
    (htasks : p₁.tasks = (p.set slot (some (Task.start node kind))).tasks)
    (hnet : answersOf net ≤ m) :
    Funded { c.setProc q p₁ with net := net }
      ((ledger.update (some (q, slot)) kind.budget).update none m) := by
  refine hf.set hp hrunning htasks ?_ hnet
  rintro _ ⟨⟩
  exact affords_start kind

/-- The network is as it was. -/
lemma Funded.restart {p₁ : Process} {kind : Kind} {node : LocalNode} (hf : Funded c ledger)
    (hp : c.procs q = some p) (hrunning : p.stopped = false)
    (htasks : p₁.tasks = (p.set slot (some (Task.start node kind))).tasks) :
    Funded (c.setProc q p₁)
      ((ledger.update (some (q, slot)) kind.budget).update none (ledger none)) :=
  hf.start hp hrunning htasks hf.net

/-- Nothing has been started. -/
lemma Funded.of_kept (hf : Funded c ledger) (hnet : answersOf c'.net ≤ ledger none)
    (hkept : ∀ q p' slot task, c'.procs q = some p' → p'.stopped = false →
      p'.tasks slot = some task →
      ∃ p, c.procs q = some p ∧ p.stopped = false ∧ p.tasks slot = some task) :
    Funded c' ledger where
  net := hnet
  tasks := by
    intro q p' slot task hp' halive htask
    obtain ⟨p, hp, hrunning, hold⟩ := hkept q p' slot task hp' halive htask
    exact hf.tasks hp hrunning hold

/-- The task of a slot has gone. -/
lemma Funded.clear {p₁ : Process} (hf : Funded c ledger) (hp : c.procs q = some p)
    (hrunning : p.stopped = false) (htasks : p₁.tasks = (p.set slot none).tasks) :
    Funded (c.setProc q p₁) ledger := by
  refine hf.of_kept hf.net fun q' p' slot' task hp' halive htask => ?_
  have hset : { c.setProc q p₁ with net := c.net }.procs q' = some p' := hp'
  rcases Cluster.tasks_of_set hp hrunning htasks hset htask with
    ⟨_, _, hmem⟩ | ⟨_, p₀, hp₀, hstopped, hold⟩
  · exact absurd hmem (by simp)
  · exact ⟨p₀, hp₀, hstopped halive, hold⟩

/-- A process has ended. -/
lemma Funded.stop {p₁ : Process} (hf : Funded c ledger) (hstopped : p₁.stopped = true) :
    Funded (c.setProc q p₁) ledger := by
  refine hf.of_kept hf.net fun q' p' slot' task hp' halive htask => ?_
  rw [Cluster.procs_setProc] at hp'
  by_cases hq : q' = q
  · rw [if_pos hq] at hp'
    rw [← Option.some.inj hp', hstopped] at halive
    exact absurd halive (by simp)
  · rw [if_neg hq] at hp'
    exact ⟨p', hp', halive, htask⟩

/-- What the two accounts come to together. -/
lemma degree_set (ledger : Ledger (Option (NodeId × Slot))) (i : NodeId × Slot) (n m : ℕ) :
    ((ledger.update (some i) n).update none m).degree + ledger (some i) + ledger none =
      ledger.degree + n + m := by
  have hnet := Ledger.degree_update (ledger.update (some i) n) none m
  have htask := Ledger.degree_update ledger (some i) n
  rw [Ledger.update_of_ne _ (by simp)] at hnet
  omega

lemma Cluster.setProc_setProc (c : Cluster) (q : NodeId) (p p' : Process) :
    (c.setProc q p).setProc q p' = c.setProc q p' := by
  unfold setProc
  rw [Function.update_idem]

/-- The next task of a slot has what the last one left, and what came in. -/
lemma Funded.finish {kind : Kind} {out : kind.Out} {free : ℕ} (hf : Funded c ledger)
    (hp : c.procs q = some p) (hrunning : p.stopped = false)
    (htask : p.tasks slot = some ⟨kind, .ret out⟩) :
    ∃ ledger', Funded (c.setProc q (p.finish slot free kind out)) ledger' ∧
      ledger'.degree ≤ kind.yields out + ledger.degree := by
  have hleft : kind.leaves out ≤ ledger (some (q, slot)) := hf.tasks hp hrunning htask
  -- the next task needs no more than what came in
  have hnext : ∀ (next : Kind) (p₁ : Process), next.budget ≤ kind.yields out →
      p₁.tasks = (p.set slot (some (Task.start p.node next))).tasks →
      ∃ ledger', Funded (c.setProc q p₁) ledger' ∧
        ledger'.degree ≤ kind.yields out + ledger.degree := by
    intro next p₁ hbudget htasks
    refine ⟨_, hf.restart hp hrunning htasks, ?_⟩
    have hdegree := degree_set ledger (q, slot) next.budget (ledger none)
    omega
  have hdrop : ∀ p₁ : Process, p₁.tasks = (p.set slot none).tasks →
      ∃ ledger', Funded (c.setProc q p₁) ledger' ∧
        ledger'.degree ≤ kind.yields out + ledger.degree :=
    fun p₁ htasks => ⟨ledger, hf.clear hp hrunning htasks, Nat.le_add_left _ _⟩
  cases kind with
  | datagram src body =>
    cases out with
    | none => exact hdrop _ rfl
    | some relay =>
      have hleft : 3 ≤ ledger (some (q, slot)) := hleft
      -- what the handler left is put aside for the relay
      set cleared := (ledger.update (some (q, slot)) 0).update none (ledger none)
      have hcleared : Funded (c.setProc q (p.set slot none)) cleared :=
        hf.set hp hrunning rfl (fun task hmem => absurd hmem (by simp)) hf.net
      have hrelay : Funded ((c.setProc q (p.set slot none)).setProc q
          ((p.set slot none).set (.spawned free) (some (Task.start p.node (.relay relay))))) _ :=
        hcleared.restart (if_pos rfl) hrunning rfl
      refine ⟨_, Cluster.setProc_setProc c q _ _ ▸ hrelay, ?_⟩
      have hfirst : cleared.degree + _ + _ = _ := degree_set ledger (q, slot) 0 (ledger none)
      have hsecond := degree_set cleared (q, .spawned free) (Kind.relay relay).budget (cleared none)
      have hbudget : (Kind.relay relay).budget = 3 := rfl
      omega
  | join seeds =>
    cases out with
    | true => exact hdrop _ rfl
    | false => exact ⟨ledger, hf.stop rfl, Nat.le_add_left _ _⟩
  | leaving => exact hnext .announcing _ (Nat.zero_le _) rfl
  | announcing => exact ⟨ledger, hf.stop rfl, Nat.le_add_left _ _⟩
  | choosing order =>
    obtain ⟨target, rest⟩ := out
    cases target with
    | some target => exact hnext (.probing target) _ (le_refl 14) rfl
    | none => exact hnext .sweeping _ (Nat.zero_le _) rfl
  | probing target => exact hnext (.judging target out) _ (Nat.zero_le _) rfl
  | judging target acked => exact hnext .sweeping _ (Nat.zero_le _) rfl
  | sweeping => exact hnext .reaping _ (Nat.zero_le _) rfl
  | _ => exact hdrop _ rfl

/-- A new process joins, or does nothing yet. -/
lemma Process.tasks_new_some {node : LocalNode} {seeds : List SocketAddr} {task : Task}
    (h : (Process.new node seeds).tasks slot = some task) :
    slot = .main ∧ task = Task.start node (.join seeds) := by
  have h : (if slot = .main ∧ seeds ≠ [] then some (Task.start node (.join seeds)) else none) =
      some task := h
  split_ifs at h with hmain
  exact ⟨hmain.1, (Option.some.inj h).symm⟩

/-- Every step pays for what it sends. -/
lemma Funded.step {l : Label} (hf : Funded c ledger) (hstep : Step c l c') :
    ∃ ledger', Funded c' ledger' ∧ l.sent + ledger'.degree ≤ l.pays + ledger.degree := by
  have hnet := hf.net
  cases hstep with
  | tick elapsed =>
    exact ⟨ledger, hf.of_kept hnet fun q p slot task hp halive htask => ⟨p, hp, halive, htask⟩,
      le_refl _⟩
  | lose packet hmem =>
    exact ⟨ledger, hf.of_kept ((answersOf_erase_le c.net packet).trans hnet)
      fun q p slot task hp halive htask => ⟨p, hp, halive, htask⟩, le_refl _⟩
  -- what goes into the network on its own account is paid for at once
  | duplicate packet hmem =>
    refine ⟨ledger.update none (ledger none + packet.answers), ⟨?_, ?_⟩, ?_⟩
    · rw [Ledger.update_same]
      show (List.map _ (packet :: c.net)).sum ≤ _
      rw [List.map_cons, List.sum_cons]
      show packet.answers + answersOf c.net ≤ _
      omega
    · intro q p slot task hp halive htask
      rw [Ledger.update_of_ne _ (by simp)]
      exact hf.tasks hp halive htask
    · have hdegree := Ledger.degree_update ledger none (ledger none + packet.answers)
      show 0 + _ ≤ packet.answers + _
      omega
  | query conn hconn =>
    refine ⟨ledger.update none (ledger none + 1), ⟨?_, ?_⟩, ?_⟩
    · rw [Ledger.update_same]
      show (List.map _ (_ :: c.net)).sum ≤ _
      rw [List.map_cons, List.sum_cons]
      show 1 + answersOf c.net ≤ _
      omega
    · intro q p slot task hp halive htask
      rw [Ledger.update_of_ne _ (by simp)]
      exact hf.tasks hp halive htask
    · have hdegree := Ledger.degree_update ledger none (ledger none + 1)
      show 0 + _ ≤ 1 + _
      omega
  | start node seeds hnew hmay =>
    refine ⟨ledger.update (some (node.id, .main)) (2 * seeds.length), ⟨?_, ?_⟩, ?_⟩
    · rw [Ledger.update_of_ne _ (by simp)]
      exact hnet
    · intro q p slot task hp halive htask
      rw [Cluster.procs_setProc] at hp
      by_cases hq : q = node.id
      · rw [if_pos hq] at hp
        obtain ⟨hslot, hjoin⟩ := Process.tasks_new_some (Option.some.inj hp ▸ htask)
        rw [hq, hslot, Ledger.update_same, hjoin]
        exact affords_start (.join seeds)
      · rw [if_neg hq] at hp
        rw [Ledger.update_of_ne _ (by simp [hq])]
        exact hf.tasks hp halive htask
    · have hdegree := Ledger.degree_update ledger (some (node.id, .main)) (2 * seeds.length)
      show 0 + _ ≤ 2 * seeds.length + _
      omega
  | begins q p slot kind hp hstopped haborted hidle hbegins =>
    refine ⟨_, hf.restart hp hstopped rfl, ?_⟩
    have hdegree := degree_set ledger (q, slot) kind.budget (ledger none)
    have hbudget : kind.budget ≤ (Label.begins q slot kind).pays := by
      cases hbegins with
      | sync => exact le_refl 2
      | _ => exact Nat.zero_le _
    show 0 + _ ≤ _
    omega
  -- what was set aside for the answers to a message passes to the task that handles it
  | receive q p src body hp hstopped haborted hidle hmem =>
    have herase : body.answers + _ = _ := answersOf_erase hmem
    refine ⟨_, hf.start (m := ledger none - body.answers) hp hstopped rfl (by omega), ?_⟩
    have hdegree := degree_set ledger (q, .udp) (Kind.datagram src body).budget
      (ledger none - body.answers)
    have hbudget : (Kind.datagram src body).budget = body.answers := rfl
    show 0 + _ ≤ 0 + _
    omega
  | accept q p n conn body hp hstopped haborted hidle hserver hmem =>
    have herase : body.answers + _ = _ := answersOf_erase hmem
    refine ⟨_, hf.start (m := ledger none - body.answers) hp hstopped rfl (by omega), ?_⟩
    have hdegree := degree_set ledger (q, .spawned n) (Kind.serve conn body).budget
      (ledger none - body.answers)
    have hbudget : (Kind.serve conn body).budget = body.answers := rfl
    show 0 + _ ≤ 0 + _
    omega
  | op q p slot kind o next r shared net hp hstopped htask hop =>
    -- no more relays are named than were asked for, which is what the turn has paid for
    have hgives : kind.tariff.gives o r := by
      cases o with
      | relayCandidates exclude count =>
        obtain ⟨⟨order, _, hrelays⟩, _⟩ := hop
        show r.length ≤ count
        rw [hrelays]
        exact List.length_take_le count order
      | _ => trivial
    obtain ⟨hprice, hrest⟩ := hf.tasks hp hstopped htask r hgives
    have hprice : o.price r ≤ ledger (some (q, slot)) := hprice
    have hsent : o.sent r + answersOf net ≤ o.price r + answersOf c.net := hop.answersOf_le
    refine ⟨_, hf.set (n := ledger (some (q, slot)) - o.price r + kind.earns o r)
      (m := ledger none + o.price r - o.sent r) hp hstopped rfl ?_ (by omega), ?_⟩
    · rintro _ ⟨⟩
      exact hrest
    · have hdegree := degree_set ledger (q, slot)
        (ledger (some (q, slot)) - o.price r + kind.earns o r) (ledger none + o.price r - o.sent r)
      show o.sent r + _ ≤ kind.earns o r + _
      omega
  | finish q p slot kind out free hp hstopped htask hfree =>
    have hfinish : ∃ ledger', Funded (c.setProc q (p.finish slot free kind out)) ledger' ∧
        ledger'.degree ≤ kind.yields out + ledger.degree := hf.finish hp hstopped htask
    obtain ⟨ledger', hf', hle⟩ := hfinish
    refine ⟨ledger', hf', ?_⟩
    show 0 + _ ≤ _
    rw [Nat.zero_add]
    exact hle
  | cancel q p slot hp hstopped haborted hslot =>
    exact ⟨ledger, hf.clear hp hstopped rfl, le_refl _⟩
  | stop q p hp => exact ⟨ledger, hf.stop rfl, le_refl _⟩

end

lemma funded_empty : Funded .empty 0 where
  net := le_refl 0
  tasks hp _ _ := absurd hp (by simp [Cluster.empty])

/-- Gossip does not feed on itself: in every run the messages sent are covered by what started
them, fourteen for a target that is probed, two for a turn of the sync loop or a seed of a join,
one for each member a leaving node knows of and for each request from outside, and for a duplicate
what it is worth. -/
theorem everything_sent_is_paid {h : Trace} (hrun : Run h) :
    h.total Label.sent ≤ h.total Label.pays := by
  have hinit : ∀ c : Cluster, c = .empty → Funded c 0 := fun c hc => hc ▸ funded_empty
  obtain ⟨ledger, _, hpaid⟩ := hrun.exists_ledger hinit
    fun h l c ledger _ hfunded hstep => hfunded.step hstep
  exact (Nat.le_add_right _ _).trans hpaid

/-- One node joins another. -/
theorem everything_sent_is_paid_pair : ∃ (h : Trace) (p : Process), Run h ∧
    h.now.procs alpha.id = some p ∧ p.shared.table.len = 1 ∧
    h.total Label.sent ≤ h.total Label.pays := by
  obtain ⟨h, shared, shared', hrun, hnow, _, _, hmembers, _⟩ :=
    exists_pair alpha_ne_beta alpha_mayStart beta_mayStart
  refine ⟨h, _, hrun, hnow ▸ Cluster.procs_pair_left alpha_ne_beta, ?_,
    everything_sent_is_paid hrun⟩
  show shared.table.members.length = 1
  rw [hmembers, List.length_singleton]

end Dalila
