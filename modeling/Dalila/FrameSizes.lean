import Dalila.Datagram
import Dalila.Manner
import Dalila.Storm
import Dalila.Transport

/-!
# How long a frame gets

A frame carries at most one table (`TcpBody.Tidy`), and a table has one entry for each other
process. The file proves that every frame of a run is tidy, and from it that in a cluster of `N`
processes it takes at most `156 + 113 * N` bytes.
-/

namespace Dalila

open Codec Program

/-! ## One table -/

/-- It says nothing about anybody twice. -/
def TcpBody.Tidy (body : TcpBody) : Prop :=
  (body.members.map WireMember.id).Nodup

/-- A snapshot names nobody twice. -/
lemma nodup_ids_new {members : List Member} (h : (members.map Member.id).Nodup) :
    ((members.map WireMember.new).map WireMember.id).Nodup := by
  rw [List.map_map]
  exact h

/-- A snapshot has nobody twice, and what is written is to have nobody twice. -/
def tidiness : Contract Op Op.Res Unit where
  later _ _ := True
  later_refl _ := trivial
  later_trans _ _ := trivial
  pre o _ :=
    match o with
    | .writeRequest _ body | .writeResponse _ body => body.Tidy
    | _ => True
  post o r _ :=
    match o, r with
    | .snapshot, members => (members.map Member.id).Nodup
    | _, _ => True

/-- The program writes one table at most into a frame. -/
abbrev Tidies {α : Type} (prog : Prog α) : Prop :=
  Follows tidiness (fun _ _ => True) prog ()

lemma offline_tidies : Offline true fun _ prog => Tidies prog where
  pure _ := Follows.pure fun _ _ => trivial
  call_bind o f ho _ hf := by
    refine Follows.call_bind (fun _ _ => ?_) fun r _ _ _ => hf r
    cases o <;> trivial
  bind hp hf := Follows.bind hp fun a _ _ _ => hf a

section

variable {node : LocalNode}

lemma tidies_exchange (addr : SocketAddr) {body : Prog TcpBody}
    (hbody : Follows tidiness (fun body _ => body.Tidy) body ()) :
    Tidies (exchange addr body) := by
  refine Follows.call_bind (fun _ _ => trivial) fun conn _ _ _ => ?_
  cases conn with
  | none => exact Follows.pure fun _ _ => trivial
  | some conn =>
    refine Follows.bind hbody fun body _ _ htidy => ?_
    refine Follows.call_bind (fun _ _ => htidy) fun ok _ _ _ => ?_
    cases ok with
    | true => exact Follows.call (fun _ _ => trivial) fun _ _ _ _ _ _ => trivial
    | false => exact Follows.pure fun _ _ => trivial

/-- A sync request carries a snapshot. -/
lemma tidies_syncTurn : Tidies (syncTurn node) := by
  refine Follows.call_bind (fun _ _ => trivial) fun partner _ _ _ => ?_
  cases partner with
  | none => exact Follows.pure fun _ _ => trivial
  | some partner =>
    refine Follows.bind (tidies_exchange partner.addr ?_) fun reply _ _ _ => ?_
    · refine Follows.call_bind (fun _ _ => trivial) fun current _ _ _ => ?_
      refine Follows.call_bind (fun _ _ => trivial) fun members _ _ hmembers => ?_
      exact Follows.pure fun _ _ => nodup_ids_new hmembers
    · split
      · exact offline_tidies.manner.absorb _ _
      · exact Follows.pure fun _ _ => trivial

/-- A join request carries no table at all. -/
lemma tidies_join (seeds : List SocketAddr) : Tidies (join node seeds) := by
  refine Follows.call_bind (fun _ _ => trivial) fun current _ _ _ => ?_
  induction seeds with
  | nil => exact Follows.pure fun _ _ => trivial
  | cons seed seeds ih =>
    refine Follows.bind (tidies_exchange seed ?_) fun reply _ _ _ => ?_
    · exact Follows.pure fun _ _ => List.nodup_nil
    · split
      · exact Follows.bind (offline_tidies.manner.absorb _ _) fun _ _ _ _ =>
          Follows.pure fun _ _ => trivial
      · exact ih

/-- A reply carries the server's own snapshot. -/
lemma follows_respond (body : TcpBody) :
    Follows tidiness (fun reply _ => ∀ body ∈ reply, body.Tidy) (respond node body) () := by
  cases body with
  | joinRequest sender =>
    refine Follows.bind (Q := fun reply _ => reply.Tidy) ?_ fun reply _ _ htidy => ?_
    · refine Follows.call_bind (fun _ _ => trivial) fun members _ _ hmembers => ?_
      refine Follows.bind (offline_tidies.apply sender.intoMember) fun _ _ _ _ => ?_
      refine Follows.call_bind (fun _ _ => trivial) fun current _ _ _ => ?_
      exact Follows.pure fun _ _ => nodup_ids_new hmembers
    · refine Follows.pure fun _ _ body hbody => ?_
      rwa [← Option.some.inj hbody]
  | membersRequest =>
    refine Follows.call_bind (fun _ _ => trivial) fun current _ _ _ => ?_
    refine Follows.call_bind (fun _ _ => trivial) fun members _ _ hmembers => ?_
    refine Follows.pure fun _ _ body hbody => ?_
    rw [← Option.some.inj hbody]
    exact nodup_ids_new hmembers
  | syncRequest sender members =>
    refine Follows.call_bind (fun _ _ => trivial) fun current _ _ _ => ?_
    refine Follows.call_bind (fun _ _ => trivial) fun ours _ _ hours => ?_
    refine Follows.bind (offline_tidies.manner.absorb sender members) fun _ _ _ _ => ?_
    refine Follows.pure fun _ _ body hbody => ?_
    rw [← Option.some.inj hbody]
    exact nodup_ids_new hours
  | _ => exact Follows.pure fun _ _ body hbody => absurd hbody (by simp)

lemma tidies_serve (conn : Conn) (body : TcpBody) : Tidies (serve node conn body) := by
  refine Follows.bind (follows_respond body) fun reply _ _ htidy => ?_
  cases reply with
  | none => exact Follows.pure fun _ _ => trivial
  | some reply =>
    exact Follows.call_bind (fun _ _ => htidy reply rfl) fun _ _ _ _ => Follows.pure fun _ _ => trivial

lemma tidies_start (kind : Kind) : Tidies (kind.start node) := by
  cases kind with
  | serve conn body => exact tidies_serve conn body
  | sync => exact tidies_syncTurn
  | join seeds => exact tidies_join seeds
  | _ => exact offline_tidies.manner.start_offline rfl fun _ => rfl

end

variable {h : Trace} {q : NodeId} {p : Process} {slot : Slot} {kind : Kind} {N : ℕ}

/-- Nobody writes two records of one node into a frame. -/
lemma Run.tidies (hrun : Run h) (hp : h.now.procs q = some p) (halive : p.stopped = false)
    {task : Task} (htask : p.tasks slot = some task) : Tidies task.prog := by
  have hall : ∀ q p slot task, h.now.procs q = some p → p.stopped = false →
      p.tasks slot = some task → Tidies task.prog := by
    refine hrun.invariant (P := fun c => ∀ q p slot task, c.procs q = some p →
      p.stopped = false → p.tasks slot = some task → Tidies task.prog) ?_ ?_
    · exact fun q p slot task hp => absurd hp (by simp [Cluster.empty])
    · intro h l c hrun ih hstep q p' slot task hp' halive htask
      cases Task.arises hstep hp' halive htask with
      | kept p _ hp halive htask₀ => exact ih q p slot task hp halive htask₀
      | moved p kind o next r net hp halive htask₀ _ hop =>
        refine (ih q p slot _ hp halive htask₀).step.2 r () trivial ?_
        cases o with
        | snapshot =>
          obtain ⟨hperm, _⟩ := hop
          exact (hperm.map Member.id).nodup_iff.mpr p.shared.table.nodup
        | _ => trivial
      | _ => exact tidies_start _
  exact hall q p slot task hp halive htask

/-! ## And not too long -/

variable {W : Wiring}

/-- Records of at most so many processes. -/
lemma length_le_of_atMost (hrun : Run h) (hsize : h.now.AtMost N) {records : List WireMember}
    (hnodup : (records.map WireMember.id).Nodup) (hrecords : ∀ r ∈ records, Authored h r) :
    records.length ≤ N := by
  obtain ⟨ids, hcard, hids⟩ := hsize
  have hsub : (records.map WireMember.id).toFinset ⊆ ids := by
    intro id hid
    obtain ⟨r, hr, rfl⟩ := List.mem_map.mp (List.mem_toFinset.mp hid)
    obtain ⟨subject, hsubject, _⟩ := (hrecords r hr).exists_process hrun
    exact hids r.id subject hsubject
  have hle := Finset.card_le_card hsub
  rw [List.toFinset_card_of_nodup hnodup, List.length_map] at hle
  exact hle.trans hcard

/-- The bounds of a body: what its sender, its records and the case's index come to. -/
lemma TcpBody.spans {body : TcpBody}
    (hsender : ∀ sender ∈ body.sender, checkTags sender.tags = .ok ())
    (hlen : body.members.length ≤ N) (hN : N < 2 ^ 64)
    (htags : ∀ r ∈ body.members, checkTags r.tags = .ok ()) :
    TcpBody.codec.Spans 1 (123 + N * 113) body := by
  have htable : recordsCodec.Spans 1 (10 + N * 113) body.members := by
    have hspans : recordsCodec.Spans (1 + body.members.length * 27)
        (10 + body.members.length * 113) body.members :=
      Spans.seq (spans_varint (by omega)) fun r hr => WireMember.spans (htags r hr)
    have hle : body.members.length * 113 ≤ N * 113 := Nat.mul_le_mul_right 113 hlen
    exact hspans.mono (by omega) (by omega)
  cases body with
  | membersRequest =>
    have hnone : TcpBody.codec.Spans 1 1 .membersRequest := ⟨[2], rfl, le_refl _, le_refl _⟩
    exact hnone.mono (le_refl _) (by omega)
  | joinRequest sender =>
    have hspeaker : WireIdentity.codec.Spans 26 112 sender := WireIdentity.spans (hsender sender rfl)
    exact (Spans.variant (show 0 < 128 by omega) rfl hspeaker).mono (by omega) (by omega)
  | joinResponse sender members =>
    have hspeaker : WireIdentity.codec.Spans 26 112 sender := WireIdentity.spans (hsender sender rfl)
    exact (Spans.variant (show 1 < 128 by omega) rfl (hspeaker.pair htable)).mono (by omega)
      (by omega)
  | membersResponse sender members =>
    have hspeaker : WireIdentity.codec.Spans 26 112 sender := WireIdentity.spans (hsender sender rfl)
    exact (Spans.variant (show 3 < 128 by omega) rfl (hspeaker.pair htable)).mono (by omega)
      (by omega)
  | syncRequest sender members =>
    have hspeaker : WireIdentity.codec.Spans 26 112 sender := WireIdentity.spans (hsender sender rfl)
    exact (Spans.variant (show 4 < 128 by omega) rfl (hspeaker.pair htable)).mono (by omega)
      (by omega)
  | syncResponse sender members =>
    have hspeaker : WireIdentity.codec.Spans 26 112 sender := WireIdentity.spans (hsender sender rfl)
    exact (Spans.variant (show 5 < 128 by omega) rfl (hspeaker.pair htable)).mono (by omega)
      (by omega)

/-- With the version and the tag, 33 bytes come on top of a body. -/
lemma Wiring.takes_of_spans (htcp : W.tcp.Documented TcpBody.codec) {body : TcpBody} {lo hi : ℕ}
    (hspans : TcpBody.codec.Spans lo hi body) (hfits : hi + 33 ≤ MAX_FRAME_LEN) : W.Takes body := by
  obtain ⟨back, hback, _, hle⟩ := hspans
  have htag : TAG_LEN = 32 := rfl
  have hmax : MAX_FRAME_LEN = 4194304 := rfl
  have hlen := W.key.length_seal (PROTOCOL_VERSION :: back)
  rw [List.length_cons] at hlen
  have hsealed : sealBody W.tcp W.key body = some (W.key.seal (PROTOCOL_VERSION :: back)) := by
    rw [htcp]
    exact sealBody_documented.mpr ⟨_, hback, rfl⟩
  refine ⟨_, writeFrame_eq_some.mpr ⟨_, hsealed, by omega, rfl⟩, ?_⟩
  rw [length_frame]
  omega

/-- Whatever is behind a frame has tags that `check_tags` lets through. -/
lemma checkTags_of_tcp (hrun : Run h) {body : TcpBody} (hbody : vouching.Tcp h body) :
    (∀ sender ∈ body.sender, checkTags sender.tags = .ok ()) ∧
      ∀ r ∈ body.records, checkTags r.tags = .ok () := by
  have hrecords : ∀ r ∈ body.records, checkTags r.tags = .ok () :=
    fun r hr => (vouched_of_tcp hbody hr).authored.checkTags hrun
  refine ⟨fun sender hsender => ?_, hrecords⟩
  have hown : sender.intoMember ∈ body.records := by
    cases body with
    | membersRequest => exact absurd hsender (by simp [TcpBody.sender])
    | _ =>
      obtain rfl := Option.some.inj hsender
      exact List.mem_cons_self
  exact hrecords sender.intoMember hown

lemma TcpBody.mem_records_of_members {body : TcpBody} {r : WireMember} (hr : r ∈ body.members) :
    r ∈ body.records := by
  cases body with
  | joinRequest | membersRequest => exact absurd hr List.not_mem_nil
  | _ => exact List.mem_cons_of_mem _ hr

/-- In a cluster that is not too large, what a node has to say fits a frame. -/
lemma TcpBody.takes_of_atMost (htcp : W.tcp.Documented TcpBody.codec) (hrun : Run h)
    (hsize : h.now.AtMost N) (hN : 156 + N * 113 ≤ MAX_FRAME_LEN) {body : TcpBody}
    (htidy : body.Tidy) (hbody : vouching.Tcp h body) : W.Takes body := by
  obtain ⟨hsender, htags⟩ := checkTags_of_tcp hrun hbody
  have hmax : MAX_FRAME_LEN = 4194304 := rfl
  have hlen := length_le_of_atMost hrun hsize htidy fun r hr =>
    (vouched_of_tcp hbody (TcpBody.mem_records_of_members hr)).authored
  exact Wiring.takes_of_spans htcp (TcpBody.spans hsender hlen (by omega)
    fun r hr => htags r (TcpBody.mem_records_of_members hr)) (by omega)

lemma Cluster.AtMost.of_later {h' : Trace} (hsize : h'.now.AtMost N) (hlater : Later h h') :
    h.now.AtMost N := by
  induction hlater with
  | refl => exact hsize
  | push _ hstep ih => exact ih (hsize.of_step hstep)

/-- In every run of a cluster that is not too large, every frame is taken. -/
lemma Run.taken (htcp : W.tcp.Documented TcpBody.codec) (hrun : Run h) (hsize : h.now.AtMost N)
    (hN : 156 + N * 113 ≤ MAX_FRAME_LEN) : ∀ m ∈ h.past, m.label.Taken W := by
  intro m hm
  obtain ⟨h₁, htook⟩ := hrun.exists_took hm
  have hrun₁ : Run h₁ := hrun.of_extends htook.before
  have hsize₁ : h₁.now.AtMost N := hsize.of_later htook.before
  obtain ⟨state, l⟩ := m
  obtain ⟨c, hstep, _⟩ := htook
  cases l with
  | op q slot kind o r =>
    obtain ⟨p, next, shared, net, hp, halive, htask, _⟩ := hstep.of_op
    have hcov := sound_vouching.covers hrun₁
    have htidy := (hrun₁.tidies hp halive htask).step.1
    have htold := (hcov.tasks hp halive htask).2.step.1
    cases o with
    | writeRequest conn body | writeResponse conn body =>
      cases r with
      | false => trivial
      | true => exact TcpBody.takes_of_atMost htcp hrun₁ hsize₁ hN htidy htold.told
    | _ => trivial
  | _ => trivial

end Dalila
