import Dalila.Lib.Codec
import Dalila.Udp

/-!
# How messages are laid out

`postcard`'s wire format for the types that cross the wire, as `serde` derives it: fields in
their order, an enumeration's cases behind their index.
-/

namespace Dalila

open Codec

/-- A `Uuid` is written as bytes, so with their number. -/
def NodeId.codec : Codec NodeId :=
  (sized 16).refine NodeId.uuid (fun uuid => some ⟨uuid⟩) fun _ => rfl

/-- The compact form: the version of the address, its octets and the port. -/
def SocketAddr.codec : Codec SocketAddr where
  encode addr :=
    match addr.ip with
    | .v4 octets => variant 0 (((fixed 4).pair u16).encode (octets, addr.port))
    | .v6 octets => variant 1 (((fixed 16).pair u16).encode (octets, addr.port))
  decode bytes :=
    ((varint 32).decode bytes).bind fun x =>
      match x.1 with
      | 0 => (((fixed 4).pair u16).decode x.2).map fun y => (⟨.v4 y.1.1, y.1.2⟩, y.2)
      | 1 => (((fixed 16).pair u16).decode x.2).map fun y => (⟨.v6 y.1.1, y.1.2⟩, y.2)
      | _ => none
  decode_append := by
    rintro ⟨ip, port⟩ bytes h rest
    cases ip with
    | v4 octets =>
      obtain ⟨back, hback, rfl⟩ := (variant_eq_some (by omega)).mp h
      rw [List.cons_append, decode_varint_cons (by omega) (by decide)]
      show (((fixed 4).pair u16).decode (back ++ rest)).map _ = _
      rw [decode_append _ hback]
      rfl
    | v6 octets =>
      obtain ⟨back, hback, rfl⟩ := (variant_eq_some (by omega)).mp h
      rw [List.cons_append, decode_varint_cons (by omega) (by decide)]
      show (((fixed 16).pair u16).decode (back ++ rest)).map _ = _
      rw [decode_append _ hback]
      rfl

def Incarnation.codec : Codec Incarnation :=
  (varint 32).refine Fin.val (fun n => if h : n < 2 ^ 32 then some ⟨n, h⟩ else none) (by simp)

def WireMemberState.codec : Codec WireMemberState :=
  (varint 32).refine
    (fun
      | .alive => 0
      | .suspect => 1
      | .dead => 2)
    (fun
      | 0 => some .alive
      | 1 => some .suspect
      | 2 => some .dead
      | _ => none)
    (by intro state; cases state <;> rfl)

def tagsCodec : Codec (List String) := text.seq

def WireIdentity.codec : Codec WireIdentity :=
  (NodeId.codec.pair (SocketAddr.codec.pair (Incarnation.codec.pair (bool.pair tagsCodec)))).refine
    (fun i => (i.id, i.addr, i.incarnation, i.ready, i.tags))
    (fun x => some ⟨x.1, x.2.1, x.2.2.1, x.2.2.2.1, x.2.2.2.2⟩)
    fun _ => rfl

/-- The fields of a record, in their order. -/
def WireMember.codec : Codec WireMember :=
  (NodeId.codec.pair (SocketAddr.codec.pair (Incarnation.codec.pair
    (WireMemberState.codec.pair (bool.pair tagsCodec))))).refine
    (fun r => (r.id, r.addr, r.incarnation, r.state, r.ready, r.tags))
    (fun x => some ⟨x.1, x.2.1, x.2.2.1, x.2.2.2.1, x.2.2.2.2.1, x.2.2.2.2.2⟩)
    fun _ => rfl

/-- A list of records: gossip, or a table. -/
def recordsCodec : Codec (List WireMember) := WireMember.codec.seq

/-- A sender's identity, and records from it. -/
def speechCodec : Codec (WireIdentity × List WireMember) := WireIdentity.codec.pair recordsCodec

/-- The index of the case, then its fields. -/
def TcpBody.codec : Codec TcpBody where
  encode
    | .joinRequest sender => variant 0 (WireIdentity.codec.encode sender)
    | .joinResponse sender members => variant 1 (speechCodec.encode (sender, members))
    | .membersRequest => variant 2 (some [])
    | .membersResponse sender members => variant 3 (speechCodec.encode (sender, members))
    | .syncRequest sender members => variant 4 (speechCodec.encode (sender, members))
    | .syncResponse sender members => variant 5 (speechCodec.encode (sender, members))
  decode bytes :=
    ((varint 32).decode bytes).bind fun x =>
      match x.1 with
      | 0 => (WireIdentity.codec.decode x.2).map fun y => (.joinRequest y.1, y.2)
      | 1 => (speechCodec.decode x.2).map fun y => (.joinResponse y.1.1 y.1.2, y.2)
      | 2 => some (.membersRequest, x.2)
      | 3 => (speechCodec.decode x.2).map fun y => (.membersResponse y.1.1 y.1.2, y.2)
      | 4 => (speechCodec.decode x.2).map fun y => (.syncRequest y.1.1 y.1.2, y.2)
      | 5 => (speechCodec.decode x.2).map fun y => (.syncResponse y.1.1 y.1.2, y.2)
      | _ => none
  decode_append := by
    intro body bytes h rest
    cases body with
    | membersRequest =>
      obtain ⟨back, hback, rfl⟩ := (variant_eq_some (by omega)).mp h
      obtain rfl := Option.some.inj hback
      rw [List.cons_append, decode_varint_cons (by omega) (by decide)]
      rfl
    | joinRequest sender =>
      obtain ⟨back, hback, rfl⟩ := (variant_eq_some (by omega)).mp h
      rw [List.cons_append, decode_varint_cons (by omega) (by decide)]
      show (WireIdentity.codec.decode (back ++ rest)).map _ = _
      rw [decode_append _ hback]
      rfl
    | _ =>
      obtain ⟨back, hback, rfl⟩ := (variant_eq_some (by omega)).mp h
      rw [List.cons_append, decode_varint_cons (by omega) (by decide)]
      show (speechCodec.decode (back ++ rest)).map _ = _
      rw [decode_append _ hback]
      rfl

/-- A probe's number, and who asks or answers with which gossip. -/
def signalCodec : Codec (UInt32 × WireIdentity × List WireMember) := u32.pair speechCodec

/-- A signal with the node the probe is about. -/
def relayCodec : Codec (UInt32 × WireIdentity × NodeId × List WireMember) :=
  u32.pair (WireIdentity.codec.pair (NodeId.codec.pair recordsCodec))

/-- The index of the case, then its fields. The indices start at 0 again. -/
def UdpBody.codec : Codec UdpBody where
  encode
    | .ping seq sender gossip => variant 0 (signalCodec.encode (seq, sender, gossip))
    | .ack seq sender gossip => variant 1 (signalCodec.encode (seq, sender, gossip))
    | .pingReq seq sender target gossip =>
      variant 2 (relayCodec.encode (seq, sender, target, gossip))
    | .pingReqAck seq sender target gossip =>
      variant 3 (relayCodec.encode (seq, sender, target, gossip))
    | .leave sender => variant 4 (WireIdentity.codec.encode sender)
  decode bytes :=
    ((varint 32).decode bytes).bind fun x =>
      match x.1 with
      | 0 => (signalCodec.decode x.2).map fun y => (.ping y.1.1 y.1.2.1 y.1.2.2, y.2)
      | 1 => (signalCodec.decode x.2).map fun y => (.ack y.1.1 y.1.2.1 y.1.2.2, y.2)
      | 2 => (relayCodec.decode x.2).map fun y =>
        (.pingReq y.1.1 y.1.2.1 y.1.2.2.1 y.1.2.2.2, y.2)
      | 3 => (relayCodec.decode x.2).map fun y =>
        (.pingReqAck y.1.1 y.1.2.1 y.1.2.2.1 y.1.2.2.2, y.2)
      | 4 => (WireIdentity.codec.decode x.2).map fun y => (.leave y.1, y.2)
      | _ => none
  decode_append := by
    intro body bytes h rest
    cases body with
    | leave sender =>
      obtain ⟨back, hback, rfl⟩ := (variant_eq_some (by omega)).mp h
      rw [List.cons_append, decode_varint_cons (by omega) (by decide)]
      show (WireIdentity.codec.decode (back ++ rest)).map _ = _
      rw [decode_append _ hback]
      rfl
    | ping seq sender gossip | ack seq sender gossip =>
      obtain ⟨back, hback, rfl⟩ := (variant_eq_some (by omega)).mp h
      rw [List.cons_append, decode_varint_cons (by omega) (by decide)]
      show (signalCodec.decode (back ++ rest)).map _ = _
      rw [decode_append _ hback]
      rfl
    | pingReq seq sender target gossip | pingReqAck seq sender target gossip =>
      obtain ⟨back, hback, rfl⟩ := (variant_eq_some (by omega)).mp h
      rw [List.cons_append, decode_varint_cons (by omega) (by decide)]
      show (relayCodec.decode (back ++ rest)).map _ = _
      rw [decode_append _ hback]
      rfl

/-! ## How long it gets -/

lemma NodeId.spans (id : NodeId) : NodeId.codec.Spans 17 17 id :=
  Spans.refine (spans_sized (by omega) id.uuid)

lemma SocketAddr.spans (addr : SocketAddr) : SocketAddr.codec.Spans 6 20 addr := by
  obtain ⟨ip, port⟩ := addr
  cases ip with
  | v4 octets =>
    have hspans := (spans_fixed octets).pair (spans_u16 port)
    exact (Spans.variant (show 0 < 128 by omega) rfl hspans).mono (by omega) (by omega)
  | v6 octets =>
    have hspans := (spans_fixed octets).pair (spans_u16 port)
    exact (Spans.variant (show 1 < 128 by omega) rfl hspans).mono (by omega) (by omega)

lemma Incarnation.spans (i : Incarnation) : Incarnation.codec.Spans 1 5 i :=
  Spans.refine (spans_varint i.isLt)

lemma WireMemberState.spans (state : WireMemberState) : WireMemberState.codec.Spans 1 1 state := by
  refine Spans.refine (spans_varint_of_lt ?_ ?_)
  · cases state <;> decide
  · cases state <;> decide

/-- What `check_tags` lets through. -/
lemma checkTags_eq_ok {tags : List String} (h : checkTags tags = .ok ()) :
    tags.length ≤ MAX_TAGS ∧ ∀ tag ∈ tags, tag.utf8ByteSize ≤ MAX_TAG_LEN := by
  unfold checkTags at h
  split_ifs at h with hmany
  refine ⟨le_of_not_gt hmany, fun tag htag => ?_⟩
  cases hfind : tags.find? fun tag => !tagAllowed tag with
  | some _ => exact absurd (hfind ▸ h) (by simp)
  | none =>
    have hallowed : tagAllowed tag = true := by
      simpa using List.find?_eq_none.mp hfind tag htag
    simp only [tagAllowed, Bool.and_eq_true, decide_eq_true_eq] at hallowed
    exact hallowed.1.2

/-- At most four tags of at most 16 bytes, each behind its length. -/
lemma spans_tags {tags : List String} (h : checkTags tags = .ok ()) :
    tagsCodec.Spans 1 69 tags := by
  obtain ⟨hlen, hsize⟩ := checkTags_eq_ok h
  have hlen : tags.length ≤ 4 := hlen
  have hspans : text.seq.Spans (1 + tags.length * 0) (1 + tags.length * 17) tags := by
    refine Spans.seq (spans_varint_of_lt (by omega) (by omega)) fun tag htag => ?_
    have hle : tag.utf8ByteSize ≤ 16 := hsize tag htag
    exact (spans_text (by omega)).mono (by omega) (by omega)
  exact hspans.mono (by omega) (by omega)

/-- Tags that `check_tags` lets through bound a node's identity. -/
lemma WireIdentity.spans {i : WireIdentity} (h : checkTags i.tags = .ok ()) :
    WireIdentity.codec.Spans 26 112 i :=
  Spans.refine <| (i.id.spans.pair <| i.addr.spans.pair <| i.incarnation.spans.pair <|
    (spans_bool i.ready).pair (spans_tags h)).mono (by omega) (by omega)

lemma WireMember.spans {r : WireMember} (h : checkTags r.tags = .ok ()) :
    WireMember.codec.Spans 27 113 r :=
  Spans.refine <| (r.id.spans.pair <| r.addr.spans.pair <| r.incarnation.spans.pair <|
    r.state.spans.pair <| (spans_bool r.ready).pair (spans_tags h)).mono (by omega) (by omega)

end Dalila
