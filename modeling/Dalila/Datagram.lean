import Dalila.Conduct
import Dalila.Crossing
import Dalila.Pair
import Dalila.Vouching

/-!
# Every datagram fits

The file bounds the bytes of each kind of datagram, and proves that whatever a node is about to send
is within `MAX_DATAGRAM_LEN` (`datagram_fits`): it carries at most ten records, each of a process
that started with tags `check_tags` lets through.
-/

namespace Dalila

open Codec

/-! ## How long a datagram gets -/

/-- Gossip of so few records, each with tags like that. -/
lemma spans_gossip {gossip : List WireMember} (hlen : gossip.length ≤ MAX_PIGGYBACK)
    (htags : ∀ r ∈ gossip, checkTags r.tags = .ok ()) : recordsCodec.Spans 1 1131 gossip := by
  have hlen : gossip.length ≤ 10 := hlen
  have hspans : recordsCodec.Spans (1 + gossip.length * 27) (1 + gossip.length * 113) gossip := by
    refine Spans.seq (spans_varint_of_lt ?_ ?_) fun r hr => WireMember.spans (htags r hr)
    · omega
    · omega
  exact hspans.mono (by omega) (by omega)

lemma UdpBody.spans {body : UdpBody} (hsender : checkTags body.sender.tags = .ok ())
    (hlen : body.gossip.length ≤ MAX_PIGGYBACK)
    (htags : ∀ r ∈ body.gossip, checkTags r.tags = .ok ()) :
    UdpBody.codec.Spans 1 1266 body := by
  have hspeaker : WireIdentity.codec.Spans 26 112 body.sender := WireIdentity.spans hsender
  have hgossip := spans_gossip hlen htags
  cases body with
  | ping seq sender gossip =>
    have hfields := (spans_u32 seq).pair (hspeaker.pair hgossip)
    exact (Spans.variant (show 0 < 128 by omega) rfl hfields).mono (by omega) (by omega)
  | ack seq sender gossip =>
    have hfields := (spans_u32 seq).pair (hspeaker.pair hgossip)
    exact (Spans.variant (show 1 < 128 by omega) rfl hfields).mono (by omega) (by omega)
  | pingReq seq sender target gossip =>
    have hfields := (spans_u32 seq).pair (hspeaker.pair (target.spans.pair hgossip))
    exact (Spans.variant (show 2 < 128 by omega) rfl hfields).mono (by omega) (by omega)
  | pingReqAck seq sender target gossip =>
    have hfields := (spans_u32 seq).pair (hspeaker.pair (target.spans.pair hgossip))
    exact (Spans.variant (show 3 < 128 by omega) rfl hfields).mono (by omega) (by omega)
  | leave sender =>
    exact (Spans.variant (show 4 < 128 by omega) rfl hspeaker).mono (by omega) (by omega)

/-- The sender's tags are those of a record of its own. -/
lemma UdpBody.exists_own_record (body : UdpBody) :
    ∃ r ∈ body.records, r.tags = body.sender.tags := by
  cases body <;> exact ⟨_, List.mem_cons_self, rfl⟩

lemma UdpBody.mem_records_of_gossip {body : UdpBody} {r : WireMember} (hr : r ∈ body.gossip) :
    r ∈ body.records := by
  cases body with
  | leave sender => exact absurd hr (by simp [gossip])
  | _ => exact List.mem_cons_of_mem _ hr

/-- `body` can be sent, and `start_udp_loop`'s buffer holds it. -/
def UdpBody.Fits (postcard : Postcard UdpBody) (key : ClusterKey) (body : UdpBody) : Prop :=
  ∃ datagram, body.encodeFrame postcard key = some datagram ∧ datagram.length ≤ MAX_DATAGRAM_LEN

lemma UdpBody.fits {postcard : Postcard UdpBody} (hpost : postcard.Documented UdpBody.codec)
    (key : ClusterKey) {body : UdpBody} (hsender : checkTags body.sender.tags = .ok ())
    (hlen : body.gossip.length ≤ MAX_PIGGYBACK)
    (htags : ∀ r ∈ body.gossip, checkTags r.tags = .ok ()) : body.Fits postcard key := by
  subst hpost
  obtain ⟨back, hback, _, hle⟩ := UdpBody.spans hsender hlen htags
  refine ⟨_, sealBody_documented.mpr ⟨back, hback, rfl⟩, ?_⟩
  have htag : TAG_LEN = 32 := rfl
  have hmax : MAX_DATAGRAM_LEN = 1400 := rfl
  rw [ClusterKey.length_seal, List.length_cons]
  omega

/-! ## What nodes put on it -/

variable {h : Trace} {q : NodeId} {p : Process}

/-- A record has the tags its process started with. -/
lemma Authored.checkTags {r : WireMember} (hr : Authored h r) (hrun : Run h) :
    Dalila.checkTags r.tags = .ok () := by
  obtain ⟨p, hp, _, htags, _⟩ := hr.exists_process hrun
  rw [← htags]
  exact (hrun.sane hp).mayStart.2

/-- Whatever a running cluster sends over UDP fits: what a node could send with the gossip it
has now, and what its tasks are about to send. -/
theorem datagram_fits {postcard : Postcard UdpBody} (hpost : postcard.Documented UdpBody.codec)
    (key : ClusterKey) (hrun : Run h) (hp : h.now.procs q = some p) :
    (∀ (body : UdpBody) current, body.sender = p.node.identity current →
      (body.gossip = p.shared.queue.take.1 ∨ body.gossip = []) → body.Fits postcard key) ∧
    (∀ slot kind target body next, p.stopped = false →
      p.tasks slot = some ⟨kind, .step (.sendUdp target body) next⟩ →
      body.Fits postcard key) := by
  have hcov := sound_vouching.covers hrun
  have htags : checkTags p.node.tags = .ok () := (hrun.sane hp).mayStart.2
  constructor
  · intro body current hsender hgossip
    have hown : checkTags body.sender.tags = .ok () := by
      rw [hsender]
      exact htags
    rcases hgossip with htake | hnone
    · apply UdpBody.fits hpost key hown
      · rw [htake]
        exact GossipQueue.length_take_le _
      · intro r hr
        rw [htake] at hr
        obtain ⟨pending, hpending, rfl⟩ := GossipQueue.exists_mem_of_mem_take_fst hr
        exact (hcov.queue hp (.inr trivial) pending hpending).authored.checkTags hrun
    · apply UdpBody.fits hpost key hown
      · rw [hnone]
        exact Nat.zero_le _
      · simp [hnone]
  · intro slot kind target body next halive htask
    obtain ⟨h₀, _, hkeeps⟩ := hrun.conduct hp halive htask
    have hspeaks : Speaks h₀ q slot kind target body h := hkeeps.step.1
    have htold : vouching.Udp h body := (hcov.tasks hp halive htask).2.step.1.told
    have hvouched : ∀ r ∈ body.records, Authored h r :=
      fun r hr => (vouched_of_udp htold hr).authored
    apply UdpBody.fits hpost key
    · obtain ⟨r, hr, hsame⟩ := body.exists_own_record
      rw [← hsame]
      exact (hvouched r hr).checkTags hrun
    · exact hspeaks.gossip
    · exact fun r hr => (hvouched r (UdpBody.mem_records_of_gossip hr)).checkTags hrun

/-- The next ping of one of two nodes. -/
theorem datagram_fits_pair : ∃ h p, Run h ∧ h.now.procs alpha.id = some p ∧
    (UdpBody.ping 0 (p.node.identity p.shared.guarded.current) p.shared.queue.take.1).Fits
      (.documented UdpBody.codec) .sample := by
  obtain ⟨h, shared, shared', hrun, hnow, _⟩ :=
    exists_pair alpha_ne_beta alpha_mayStart beta_mayStart
  have hp : h.now.procs alpha.id = some { Process.new alpha [] with shared := shared } := by
    rw [hnow]
    exact Cluster.procs_pair_left alpha_ne_beta
  have hpost : (Postcard.documented UdpBody.codec).Documented UdpBody.codec := rfl
  have hfits := (datagram_fits hpost .sample hrun hp).1
  exact ⟨h, _, hrun, hp, hfits _ _ rfl (.inl rfl)⟩

end Dalila
