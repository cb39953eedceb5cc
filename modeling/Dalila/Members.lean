import Dalila.Frames
import Dalila.Pair
import Dalila.Proxy
import Dalila.Replies

/-!
# `dalila members`

A client with the key asks a node for its table and prints it: `fetchMembers` is the end of
`fetch_members`, and `rows` the lines `execute` prints below the header. The file proves that the
rows come in order of their addresses (`pairwise_rows`), that each is about a process of the cluster
(`rows_hold`), and that together they are what the node believed while it was being asked
(`members_prints_what_is_believed`).
-/

namespace Dalila

/-! ## Fetching -/

/-- What `fetch_members` gives up with. -/
inductive FetchError where
  | timedOut
  | frame (err : FrameError)
  | notMembers
  | closed
deriving DecidableEq, Repr

/-- The end of `fetch_members`: `none` if nothing came in time. -/
def fetchMembers : Option (Except FrameError (Option TcpBody)) →
    Except FetchError (WireIdentity × List WireMember)
  | none => .error .timedOut
  | some (.error err) => .error (.frame err)
  | some (.ok (some (.membersResponse sender members))) => .ok (sender, members)
  | some (.ok (some _)) => .error .notMembers
  | some (.ok none) => .error .closed

/-! ## Printing -/

/-- What `print_row` is given, the id, the address and the incarnation not yet as text. -/
structure Row where
  id : NodeId
  addr : SocketAddr
  incarnation : Incarnation
  tags : String
  state : String
deriving DecidableEq, Repr

/-- `tags_label` -/
def tagsLabel (tags : List String) : String :=
  if tags.isEmpty then "-" else ",".intercalate tags

/-- `state_label` -/
def stateLabel (state : WireMemberState) (ready : Bool) : String :=
  let state :=
    match state with
    | .alive => "alive"
    | .suspect => "suspect"
    | .dead => "dead"
  -- only worth saying when it's news: nearly every member is ready
  if ready then state else state ++ ", app down"

/-- The node we asked isn't in its own table, so it gets a row of its own. -/
def queriedRow (sender : WireIdentity) : Row where
  id := sender.id
  addr := sender.addr
  incarnation := sender.incarnation
  tags := tagsLabel sender.tags
  state := stateLabel .alive sender.ready ++ " (queried)"

/-- The line of a member of the table. -/
def memberRow (m : WireMember) : Row where
  id := m.id
  addr := m.addr
  incarnation := m.incarnation
  tags := tagsLabel m.tags
  state := stateLabel m.state m.ready

/-- The rows `execute` prints below the header. -/
def rows (sender : WireIdentity) (members : List WireMember) : List Row :=
  queriedRow sender :: (members.mergeSort fun a b => a.addr ≤ b.addr).map memberRow

/-! ## What is printed -/

/-- Below the queried node the rows come in order of their addresses. -/
lemma pairwise_rows (sender : WireIdentity) (members : List WireMember) :
    (rows sender members).tail.Pairwise fun a b => a.addr ≤ b.addr := by
  have hpairs : (members.mergeSort fun a b => a.addr ≤ b.addr).Pairwise
      fun a b => decide (a.addr ≤ b.addr) = true :=
    List.pairwise_mergeSort
      (fun a b c hab hbc =>
        decide_eq_true ((of_decide_eq_true hab).trans (of_decide_eq_true hbc)))
      (fun a b => by
        rw [Bool.or_eq_true, decide_eq_true_eq, decide_eq_true_eq]
        exact le_total a.addr b.addr) members
  show (List.map memberRow _).Pairwise _
  exact List.pairwise_map.mpr (hpairs.imp fun hab => of_decide_eq_true hab)

lemma tail_rows_perm (sender : WireIdentity) (members : List WireMember) :
    (rows sender members).tail.Perm (members.map memberRow) :=
  (List.mergeSort_perm members _).map memberRow

variable {h : Trace} {q : NodeId} {p : Process} {conn : Conn} {reply : TcpBody}

/-- What shows in a row is so: it is about a process of the cluster, and gives its address, its
tags and an incarnation that it had at some point of the history. -/
def Row.Holds (h : Trace) (row : Row) : Prop :=
  ∃ subject, h.now.procs row.id = some subject ∧ row.addr = subject.node.addr ∧
    row.tags = tagsLabel subject.node.tags ∧
    ∃ c ∈ h.states, ∃ p, c.procs row.id = some p ∧ row.incarnation = p.shared.guarded.incarnation

lemma Authored.row_holds (hrun : Run h) {r : WireMember} (hr : Authored h r) :
    (memberRow r).Holds h := by
  obtain ⟨subject, hsubject, haddr, htags, _⟩ := hr.exists_process hrun
  obtain ⟨c, hc, p, hp, _, _, hi, _⟩ := hr
  exact ⟨subject, hsubject, haddr.symm, congrArg tagsLabel htags.symm, c, hc, p, hp, hi.symm⟩

/-- Every row is about a process of the cluster. -/
lemma rows_hold (hrun : Run h) {sender : WireIdentity} {members : List WireMember}
    (hnet : .response conn (.membersResponse sender members) ∈ h.now.net) :
    ∀ row ∈ rows sender members, row.Holds h := by
  obtain ⟨hsender, hmembers⟩ : Authored h sender.intoMember ∧ ∀ r ∈ members, Vouched h r :=
    (sound_vouching.covers hrun).net _ hnet
  intro row hrow
  rcases List.mem_cons.mp hrow with rfl | hrow
  · obtain ⟨subject, hrest⟩ := hsender.row_holds hrun
    exact ⟨subject, hrest⟩
  · obtain ⟨r, hr, rfl⟩ := List.mem_map.mp ((tail_rows_perm sender members).mem_iff.mp hrow)
    exact (hmembers r hr).authored.row_holds hrun

/-- Nobody is listed twice, and the node that was asked only in its own row. -/
lemma nodup_rows {sender : WireIdentity} {snapshot : List Member} {table : MemberTable}
    (hsnapshot : snapshot.Perm table.members) (hown : table.get sender.id = none) :
    ((rows sender (snapshot.map WireMember.new)).map Row.id).Nodup := by
  have hids : ((rows sender (snapshot.map WireMember.new)).tail.map Row.id).Perm table.ids := by
    have hmap := (tail_rows_perm sender (snapshot.map WireMember.new)).map Row.id
    rw [List.map_map, List.map_map] at hmap
    exact hmap.trans (hsnapshot.map Member.id)
  refine List.nodup_cons.mpr ⟨fun hmem => ?_, hids.nodup_iff.mpr table.nodup⟩
  have hmem : sender.id ∈ table.ids := hids.mem_iff.mp hmem
  rw [MemberTable.mem_ids_iff, hown] at hmem
  exact absurd hmem (by simp)

/-- A running node answers whoever has the key, with what it holds. -/
lemma exists_listing (hrun : Run h) (hp : h.now.procs q = some p) (hrunning : p.stopped = false)
    (hloops : p.aborted = false) :
    ∃ h' p', Later h h' ∧
      .accept q ⟨none, 0, p.node.addr⟩ .membersRequest ∈ h'.past.map Moment.label ∧
      h'.now.procs q = some p' ∧ p'.shared = p.shared ∧
      .response ⟨none, 0, p.node.addr⟩
        (.membersResponse (p.node.identity p.shared.guarded.current)
          (p.shared.table.members.map .new)) ∈ h'.now.net := by
  let conn : Conn := ⟨none, 0, p.node.addr⟩
  let reply : TcpBody := .membersResponse (p.node.identity p.shared.guarded.current)
    (p.shared.table.members.map .new)
  set asked := h.push (.query conn) { h.now with net := .request conn .membersRequest :: h.now.net }
    with hasked
  have hasks : Later h asked := .single (.query h.now conn rfl)
  have hp' : asked.now.procs q = some p := hp
  obtain ⟨n, _, haccept⟩ := exists_accept h.now.net (hrun.extends hasks) hp' hrunning hloops
    (show conn.server = p.node.addr from rfl) rfl
  set accepted := asked.push (.accept q conn .membersRequest)
    (asked.now.put q (p.at (.spawned n) p.shared (Task.start p.node (.serve conn .membersRequest)))
      h.now.net) with haccepted
  have hpath : Program.Path (p.runs accepted.now.clock) (fun o => ¬ o.awaits = true)
      (serve p.node conn .membersRequest) ⟨p.shared, h.now.net⟩ (.ret ())
      ⟨p.shared, .response conn reply :: h.now.net⟩ :=
    .step (r := p.shared.guarded.current) (by simp [Op.awaits]) ⟨⟨rfl, rfl⟩, rfl⟩ <|
    .step (r := p.shared.table.members) (by simp [Op.awaits]) ⟨⟨.refl _, rfl⟩, rfl⟩ <|
    .step (r := true) (by simp [Op.awaits]) ⟨rfl, rfl⟩ <|
    .refl _ _
  obtain ⟨h', hlater, hnow⟩ := LaterBy.of_path (h := accepted) (if_pos rfl) hrunning
    (Process.tasks_at ..) hpath
  have htook : History.Took Step (.accept q conn .membersRequest) asked h' :=
    (History.Took.of_step haccept).later hlater.later
  rw [Process.at_at] at hnow
  refine ⟨h', p.at (.spawned n) p.shared ⟨.serve conn .membersRequest, .ret ()⟩,
    (hasks.push haccept).trans hlater.later, List.mem_map.mpr ⟨_, htook.mem_past, rfl⟩, ?_, rfl, ?_⟩
  · rw [hnow]
    exact if_pos rfl
  · rw [hnow]
    exact List.mem_cons_self

/-- What `dalila members` prints is what the node it asked believed while it was being asked. Below
the row of that node itself, as it was at some moment after the request had been made, stand its
members as they were at some such moment, nobody twice and in order of their addresses; and of
every node listed it gives the address and the tags it really has. -/
theorem members_prints_what_is_believed (hrun : Run h) (hclient : conn.client = none)
    (hnet : .response conn reply ∈ h.now.net) :
    ∃ sender members, fetchMembers (some (.ok (some reply))) = .ok (sender, members) ∧
      (∃ h₀ h₁ p, History.Took Step (.query conn) h₀ h₁ ∧ Later h₁ h ∧
        h₁.now.procs sender.id = some p ∧ p.node.addr = conn.server ∧
        (rows sender members).head? = some (queriedRow (p.node.identity p.shared.guarded.current))) ∧
      (∃ h₀ h₁ p, History.Took Step (.query conn) h₀ h₁ ∧ Later h₁ h ∧
        h₁.now.procs sender.id = some p ∧ (rows sender members).tail.Perm
          (p.shared.table.members.map fun m => memberRow (.new m))) ∧
      ((rows sender members).tail.Pairwise fun a b => a.addr ≤ b.addr) ∧
      ((rows sender members).map Row.id).Nodup ∧
      ∀ row ∈ rows sender members, row.Holds h := by
  obtain ⟨q, server, body, b, a, w, hserved, hwrote⟩ := hrun.made.1 _ hnet
  obtain ⟨hasked, haccepted, _, hserver, haddr, hreplies⟩ := hserved
  have hw : Later w h := hwrote.before
  have hid : server.node.id = q := (Run.sane (hrun.of_extends hw) hserver).id
  -- only a client outside has a connection without a node of its own
  cases hasked with
  | request id _ _ _ _ hclient' => exact absurd (hclient.symm.trans hclient') (by simp)
  | query h₀ _ htook =>
    cases reply with
    | membersResponse sender members =>
      have hlisted : Listed server.node a w sender members := hreplies
      obtain ⟨h₁, p₁, ha₁, hh₁, hp₁, hsender⟩ := hlisted.sender
      obtain ⟨h₂, p₂, ha₂, hh₂, hp₂, snapshot, hsnapshot, hmembers⟩ := hlisted.members
      have hsame : server.node = p₁.node := by
        rw [hid] at hp₁
        exact (hh₁.grows hp₁ hserver).node
      have hsenderId : sender.id = server.node.id := by
        rw [hsender]
        rfl
      have hrun₂ : Run h₂ := hrun.of_extends (hh₂.trans hw)
      have hasked : History.Took Step (.query conn) h₀ a := htook.later haccepted.before
      refine ⟨sender, members, rfl, ⟨h₀, h₁, p₁, hasked.later ha₁, hh₁.trans hw, ?_, ?_, ?_⟩,
        ⟨h₀, h₂, p₂, hasked.later ha₂, hh₂.trans hw, ?_, ?_⟩, pairwise_rows sender members, ?_,
        rows_hold hrun hnet⟩
      · rw [hsenderId]
        exact hp₁
      · rw [← hsame]
        exact haddr
      · rw [← hsame, ← hsender]
        rfl
      · rw [hsenderId]
        exact hp₂
      · rw [hmembers]
        have hperm := (tail_rows_perm sender (snapshot.map WireMember.new)).trans
          ((hsnapshot.map WireMember.new).map memberRow)
        rwa [List.map_map] at hperm
      · rw [hmembers]
        refine nodup_rows hsnapshot ?_
        rw [hsenderId]
        exact (hrun₂.sane hp₂).own
    | _ => exact hreplies.elim

theorem members_prints_what_is_believed_pair : ∃ (h : Trace) (reply : TcpBody)
    (sender : WireIdentity) (members : List WireMember), Run h ∧
    .response ⟨none, 0, alpha.addr⟩ reply ∈ h.now.net ∧
    fetchMembers (some (.ok (some reply))) = .ok (sender, members) ∧
    ((rows sender members).map Row.id).Nodup ∧
    ∀ row ∈ rows sender members, row.Holds h := by
  obtain ⟨h, shared, _, hrun, hnow, _⟩ := exists_pair alpha_ne_beta alpha_mayStart beta_mayStart
  have hp : h.now.procs alpha.id = some { Process.new alpha [] with shared := shared } := by
    rw [hnow]
    exact Cluster.procs_pair_left alpha_ne_beta
  obtain ⟨h', _, hlater, _, _, _, hnet⟩ := exists_listing hrun hp rfl rfl
  have hrun' := hrun.extends hlater
  obtain ⟨sender, members, hfetch, _, _, _, hnodup, hholds⟩ :=
    members_prints_what_is_believed hrun' rfl hnet
  exact ⟨h', _, sender, members, hrun', hnet, hfetch, hnodup, hholds⟩

end Dalila
