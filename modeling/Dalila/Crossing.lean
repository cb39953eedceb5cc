import Dalila.Framing

/-!
# A message on the other transport

Datagrams and frames have the same key, version and tag, so only the layout of a body keeps one from
being taken for the other. `TcpBody.RefusedByUdp` and `UdpBody.RefusedByTcp` say of which bodies it
does, in terms of the bodies' own bytes, and `crossing_refused_iff` that it does of no others.
`sync_request_is_leave` is a frame that is taken for the goodbye of its sender.
-/

namespace Dalila

open Codec

/-! ## How layouts begin -/

/-- An id begins with its length. -/
lemma NodeId.encode_eq_some {id : NodeId} {bytes : Bytes}
    (h : NodeId.codec.encode id = some bytes) :
    bytes = 16 :: id.uuid.toList :=
  Option.some.inj (h.symm.trans (encode_sized (by omega) id.uuid))

/-- An identity begins with the length of its id. -/
lemma WireIdentity.encode_eq_some {i : WireIdentity} {bytes : Bytes}
    (h : WireIdentity.codec.encode i = some bytes) :
    ∃ back, bytes = 16 :: (i.id.uuid.toList ++ back) := by
  obtain ⟨front, back, hfront, _, rfl⟩ := encode_pair_eq_some.mp h
  rw [NodeId.encode_eq_some hfront]
  exact ⟨back, rfl⟩

lemma encode_pair_identity {α : Type} {c : Codec α} {i : WireIdentity} {a : α} {bytes : Bytes}
    (h : (WireIdentity.codec.pair c).encode (i, a) = some bytes) :
    ∃ back, bytes = 16 :: (i.id.uuid.toList ++ back) := by
  obtain ⟨front, back, hfront, _, rfl⟩ := encode_pair_eq_some.mp h
  obtain ⟨tail, rfl⟩ := WireIdentity.encode_eq_some hfront
  exact ⟨tail ++ back, by simp⟩

/-- Where a number is read, the length of an id is the number 16. -/
lemma decode_u32_pair {α : Type} (c : Codec α) (back : Bytes) :
    (u32.pair c).decode (16 :: back) = (c.decode back).map fun x => ((16, x.1), x.2) := by
  have hnumber : u32.decode (16 :: back) = some (16, back) := by
    rw [u32, decode_refine, decode_varint_cons (by omega) (by decide)]
    rfl
  rw [decode_pair, hnumber, Option.bind_some]

lemma decode_u32_nil {α : Type} (c : Codec α) : (u32.pair c).decode [] = none := rfl

/-- Where an id is read, a number is its length. -/
lemma decode_id_of_ne {seq : UInt32} (h : seq ≠ 16) {front : Bytes}
    (henc : u32.encode seq = some front) (back : Bytes) :
    NodeId.codec.decode (front ++ back) = none := by
  have hseq : seq.toNat ≠ 16 := fun heq => h (UInt32.toNat_inj.mp heq)
  have hbound : seq.toNat < 2 ^ 32 := seq.toNat_lt
  rw [u32, encode_refine, encode_varint hbound] at henc
  obtain rfl := Option.some.inj henc
  have hlong : (varint 64).encode seq.toNat = some (putVarint 5 seq.toNat) := by
    rw [encode_varint (by omega)]
    exact congrArg some (putVarint_add 5 5 (by omega) (by omega))
  have hlen := (varint 64).decode_append hlong back
  rw [NodeId.codec, decode_refine, decode_sized_of_ne hseq hlen, Option.bind_none]

lemma decode_identity_of_id {bytes : Bytes} (h : NodeId.codec.decode bytes = none) :
    WireIdentity.codec.decode bytes = none := by
  rw [WireIdentity.codec, decode_refine, decode_pair, h]
  rfl

lemma decode_speech_of_id {bytes : Bytes} (h : NodeId.codec.decode bytes = none) :
    speechCodec.decode bytes = none := by
  rw [speechCodec, decode_pair, decode_identity_of_id h]
  rfl

/-! ## Frames as datagrams -/

/-- What follows the first byte of a sender's identity, and of what it says, does not read as the
identity and the gossip of another. -/
def TcpBody.RefusedByUdp : TcpBody → Prop
  | .joinRequest sender => ∀ bytes, WireIdentity.codec.encode sender = some (16 :: bytes) →
      speechCodec.decode bytes = none
  | .joinResponse sender members => ∀ bytes, speechCodec.encode (sender, members) =
      some (16 :: bytes) → speechCodec.decode bytes = none
  | .membersRequest => True
  | .membersResponse sender members => ∀ bytes, speechCodec.encode (sender, members) =
      some (16 :: bytes) →
      (WireIdentity.codec.pair (NodeId.codec.pair recordsCodec)).decode bytes = none
  -- a leave of the sender, and bytes that are not read
  | .syncRequest _ _ => False
  | .syncResponse _ _ => True

/-- The number is not the length of an id, or what follows it does not read as the rest of an
identity and what goes with it. -/
def UdpBody.RefusedByTcp : UdpBody → Prop
  | .ping seq sender gossip => seq = 16 → ∀ bytes, speechCodec.encode (sender, gossip) =
      some bytes → WireIdentity.codec.decode (16 :: bytes) = none
  | .ack seq sender gossip => seq = 16 → ∀ bytes, speechCodec.encode (sender, gossip) =
      some bytes → speechCodec.decode (16 :: bytes) = none
  -- a request for the members, and bytes that are not read
  | .pingReq _ _ _ _ => False
  | .pingReqAck seq sender target gossip => seq = 16 → ∀ bytes,
      (WireIdentity.codec.pair (NodeId.codec.pair recordsCodec)).encode (sender, target, gossip) =
        some bytes → speechCodec.decode (16 :: bytes) = none
  | .leave _ => True

/-- For an encoding that is there, all encodings are that one. -/
lemma forall_encoding {α : Type} {c : Codec α} {a : α} {back : Bytes} {P : Bytes → Prop}
    (h : c.encode a = some (16 :: back)) :
    (∀ bytes, c.encode a = some (16 :: bytes) → P bytes) ↔ P back := by
  constructor
  · intro hall
    exact hall back h
  · intro hback bytes hbytes
    rw [h] at hbytes
    rwa [← (List.cons.inj (Option.some.inj hbytes)).2]

/-- What the index of a case leaves to be read of a datagram. -/
lemma UdpBody.decode_eq_none_iff {index : ℕ} {bytes : Bytes} : index < 128 →
    (UdpBody.codec.decode (UInt8.ofNat index :: bytes) = none ↔
      match index with
      | 0 | 1 => signalCodec.decode bytes = none
      | 2 | 3 => relayCodec.decode bytes = none
      | 4 => WireIdentity.codec.decode bytes = none
      | _ => True) := by
  intro h
  have hindex : (UInt8.ofNat index).toNat = index := toNat_ofNat_of_lt (by omega)
  have hread := decode_varint_cons (w := 32) (by omega) (hindex ▸ h) bytes
  rw [hindex] at hread
  show ((varint 32).decode (UInt8.ofNat index :: bytes)).bind _ = none ↔ _
  rw [hread, Option.bind_some]
  match index with
  | 0 | 1 | 2 | 3 | 4 => exact Option.map_eq_none_iff
  | _ + 5 => exact iff_of_true rfl trivial

lemma decode_signal_iff (bytes : Bytes) :
    signalCodec.decode (16 :: bytes) = none ↔ speechCodec.decode bytes = none := by
  rw [signalCodec, decode_u32_pair, Option.map_eq_none_iff]

/-- A frame's body, read as a datagram's. -/
lemma TcpBody.decode_udp {b : TcpBody} {back : Bytes} (h : TcpBody.codec.encode b = some back) :
    UdpBody.codec.decode back = none ↔ b.RefusedByUdp := by
  cases b with
  | joinRequest sender =>
    obtain ⟨tail, htail, rfl⟩ := (variant_eq_some (show 0 < 128 by omega)).mp h
    obtain ⟨bytes, rfl⟩ := WireIdentity.encode_eq_some htail
    refine Iff.trans ?_ (forall_encoding htail).symm
    rw [UdpBody.decode_eq_none_iff (by omega)]
    exact decode_signal_iff _
  | joinResponse sender members =>
    obtain ⟨tail, htail, rfl⟩ := (variant_eq_some (show 1 < 128 by omega)).mp h
    obtain ⟨bytes, rfl⟩ := encode_pair_identity htail
    refine Iff.trans ?_ (forall_encoding htail).symm
    rw [UdpBody.decode_eq_none_iff (by omega)]
    exact decode_signal_iff _
  | membersRequest =>
    have h : variant 2 (some []) = some back := h
    obtain ⟨tail, htail, rfl⟩ := (variant_eq_some (by omega)).mp h
    obtain rfl := Option.some.inj htail
    rw [UdpBody.decode_eq_none_iff (by omega)]
    exact iff_of_true (decode_u32_nil _) trivial
  | membersResponse sender members =>
    obtain ⟨tail, htail, rfl⟩ := (variant_eq_some (show 3 < 128 by omega)).mp h
    obtain ⟨bytes, rfl⟩ := encode_pair_identity htail
    refine Iff.trans ?_ (forall_encoding htail).symm
    rw [UdpBody.decode_eq_none_iff (by omega)]
    show relayCodec.decode (16 :: _) = none ↔ _
    rw [relayCodec, decode_u32_pair, Option.map_eq_none_iff]
  | syncRequest sender members =>
    obtain ⟨tail, htail, rfl⟩ := (variant_eq_some (show 4 < 128 by omega)).mp h
    obtain ⟨front, _, hfront, _, rfl⟩ := encode_pair_eq_some.mp htail
    rw [UdpBody.decode_eq_none_iff (by omega)]
    show WireIdentity.codec.decode _ = none ↔ False
    rw [WireIdentity.codec.decode_append hfront]
    simp
  | syncResponse sender members =>
    obtain ⟨tail, _, rfl⟩ := (variant_eq_some (show 5 < 128 by omega)).mp h
    rw [UdpBody.decode_eq_none_iff (by omega)]
    exact Iff.rfl

/-- Where an id is read, its length is found in the low bits of the first byte. -/
lemma decode_id_of_head {id : NodeId} (h : id.uuid[0].toNat % 128 ≠ 16) (rest : Bytes) :
    NodeId.codec.decode (id.uuid.toList ++ rest) = none := by
  have hlist : id.uuid.toList = id.uuid[0] :: id.uuid.toList.tail := by
    have hlen : id.uuid.toList.length = 16 := id.uuid.length_toList
    cases huuid : id.uuid.toList with
    | nil => rw [huuid] at hlen; exact absurd hlen (by simp)
    | cons b tail => simp [← Vector.getElem_toList, huuid]
  rw [hlist, List.cons_append]
  generalize id.uuid[0] = b at h
  generalize id.uuid.toList.tail ++ rest = rest
  cases hlen : (varint 64).decode (b :: rest) with
  | none =>
    rw [NodeId.codec, decode_refine, sized, decode_refine, decode_seq, hlen]
    rfl
  | some x =>
    have hmod := takeVarint_mod hlen
    have hne : x.1 ≠ 16 := by omega
    rw [NodeId.codec, decode_refine, decode_sized_of_ne hne hlen, Option.bind_none]

/-- Most ids keep what their node says on TCP, syncs apart, from being taken for a datagram. -/
lemma TcpBody.refusedByUdp_of_head {sender : WireIdentity} (members : List WireMember)
    (h : sender.id.uuid[0].toNat % 128 ≠ 16) :
    (joinRequest sender).RefusedByUdp ∧ (joinResponse sender members).RefusedByUdp ∧
      (membersResponse sender members).RefusedByUdp := by
  have hcons : ∀ {c : Codec (List WireMember)} {bytes : Bytes},
      (WireIdentity.codec.pair c).encode (sender, members) = some (16 :: bytes) →
        NodeId.codec.decode bytes = none := by
    intro c bytes henc
    obtain ⟨back, heq⟩ := encode_pair_identity henc
    rw [(List.cons.inj heq).2]
    exact decode_id_of_head h back
  refine ⟨?_, ?_, ?_⟩
  · intro bytes henc
    obtain ⟨back, heq⟩ := WireIdentity.encode_eq_some henc
    rw [(List.cons.inj heq).2]
    exact decode_speech_of_id (decode_id_of_head h back)
  · intro bytes henc
    exact decode_speech_of_id (hcons henc)
  · intro bytes henc
    rw [decode_pair, decode_identity_of_id (hcons henc)]
    rfl

/-! ## Datagrams as frames -/

/-- What the index of a case leaves to be read of a frame. -/
lemma TcpBody.decode_eq_none_iff {index : ℕ} {bytes : Bytes} : index < 128 →
    (TcpBody.codec.decode (UInt8.ofNat index :: bytes) = none ↔
      match index with
      | 0 => WireIdentity.codec.decode bytes = none
      | 2 => False
      | 1 | 3 | 4 | 5 => speechCodec.decode bytes = none
      | _ => True) := by
  intro h
  have hindex : (UInt8.ofNat index).toNat = index := toNat_ofNat_of_lt (by omega)
  have hread := decode_varint_cons (w := 32) (by omega) (hindex ▸ h) bytes
  rw [hindex] at hread
  show ((varint 32).decode (UInt8.ofNat index :: bytes)).bind _ = none ↔ _
  rw [hread, Option.bind_some]
  match index with
  | 0 | 1 | 3 | 4 | 5 => exact Option.map_eq_none_iff
  | 2 => exact iff_of_false (by simp) not_false
  | _ + 6 => exact iff_of_true rfl trivial

/-- Where an id is read and a number is found, the number has to be its length. -/
lemma decode_number_iff {α β : Type} {c : Codec α} {d : Codec β}
    (hid : ∀ bytes, NodeId.codec.decode bytes = none → d.decode bytes = none)
    {seq : UInt32} {a : α} {tail : Bytes} (h : (u32.pair c).encode (seq, a) = some tail) :
    d.decode tail = none ↔
      (seq = 16 → ∀ bytes, c.encode a = some bytes → d.decode (16 :: bytes) = none) := by
  obtain ⟨front, back, hfront, hback, rfl⟩ := encode_pair_eq_some.mp h
  by_cases hseq : seq = 16
  · subst hseq
    obtain rfl : [16] = front := Option.some.inj hfront
    constructor
    · intro hnone _ bytes hbytes
      rw [hback] at hbytes
      rwa [← Option.some.inj hbytes]
    · intro hall
      exact hall rfl back hback
  · have hnone := hid _ (decode_id_of_ne hseq hfront back)
    exact iff_of_true hnone fun heq => absurd heq hseq

/-- A datagram's body, read as a frame's. -/
lemma UdpBody.decode_tcp {u : UdpBody} {back : Bytes} (h : UdpBody.codec.encode u = some back) :
    TcpBody.codec.decode back = none ↔ u.RefusedByTcp := by
  cases u with
  | ping seq sender gossip =>
    obtain ⟨tail, htail, rfl⟩ := (variant_eq_some (show 0 < 128 by omega)).mp h
    rw [TcpBody.decode_eq_none_iff (by omega)]
    exact decode_number_iff (fun _ => decode_identity_of_id) htail
  | ack seq sender gossip =>
    obtain ⟨tail, htail, rfl⟩ := (variant_eq_some (show 1 < 128 by omega)).mp h
    rw [TcpBody.decode_eq_none_iff (by omega)]
    exact decode_number_iff (fun _ => decode_speech_of_id) htail
  | pingReq seq sender target gossip =>
    obtain ⟨tail, htail, rfl⟩ := (variant_eq_some (show 2 < 128 by omega)).mp h
    rw [TcpBody.decode_eq_none_iff (by omega)]
    exact Iff.rfl
  | pingReqAck seq sender target gossip =>
    obtain ⟨tail, htail, rfl⟩ := (variant_eq_some (show 3 < 128 by omega)).mp h
    rw [TcpBody.decode_eq_none_iff (by omega)]
    exact decode_number_iff (fun _ => decode_speech_of_id) htail
  | leave sender =>
    obtain ⟨tail, htail, rfl⟩ := (variant_eq_some (show 4 < 128 by omega)).mp h
    have hread := WireIdentity.codec.decode_append htail []
    rw [List.append_nil] at hread
    rw [TcpBody.decode_eq_none_iff (by omega)]
    refine iff_of_true ?_ trivial
    show (WireIdentity.codec.pair recordsCodec).decode tail = none
    rw [decode_pair, hread, Option.bind_some, recordsCodec, decode_seq_nil]
    rfl

/-! ## Sealed -/

variable {key : ClusterKey}

lemma sealBody_documented {β : Type} {c : Codec β} {body : β} {payload : Bytes} :
    sealBody (.documented c) key body = some payload ↔
      ∃ back, c.encode body = some back ∧ payload = key.seal (PROTOCOL_VERSION :: back) := by
  unfold sealBody
  rw [Option.map_eq_some_iff]
  constructor
  · rintro ⟨message, hmessage, rfl⟩
    obtain ⟨back, hback, rfl⟩ := Postcard.toAllocvec_documented.mp hmessage
    exact ⟨back, hback, rfl⟩
  · rintro ⟨back, hback, rfl⟩
    exact ⟨_, Postcard.toAllocvec_documented.mpr ⟨back, hback, rfl⟩, rfl⟩

/-- What is sealed right is refused only for what is in it. -/
lemma openBody_seal {β : Type} (c : Codec β) (back : Bytes) :
    openBody (.documented c) key (key.seal (PROTOCOL_VERSION :: back)) =
      match c.decode back with
      | none => .error .malformed
      | some x => .ok x.1 := by
  have hhead : (key.seal (PROTOCOL_VERSION :: back)).head? = some PROTOCOL_VERSION := rfl
  unfold openBody
  simp only [hhead, if_true, ClusterKey.open_seal, Postcard.fromBytes_documented]
  cases c.decode back <;> rfl

lemma openBody_seal_error_iff {β : Type} (c : Codec β) (back : Bytes) :
    (∃ e, openBody (.documented c) key (key.seal (PROTOCOL_VERSION :: back)) = .error e) ↔
      c.decode back = none := by
  rw [openBody_seal]
  cases c.decode back <;> simp

lemma open_of_openBody {β : Type} {postcard : Postcard β} {payload : Bytes} {body : β}
    (h : openBody postcard key payload = .ok body) : ∃ message, key.open payload = .ok message := by
  cases hopen : key.open payload with
  | ok message => exact ⟨message, rfl⟩
  | error e =>
    unfold openBody at h
    cases hhead : payload.head? with
    | none => simp [hhead] at h
    | some version =>
      by_cases hversion : version = PROTOCOL_VERSION
      · simp [hhead, hversion, hopen] at h
      · simp [hhead, hversion] at h

/-- `payload` is what a holder of the key sealed: one of these datagrams, or what is in one of
these frames. -/
def Sealed (tcp : Postcard TcpBody) (udp : Postcard UdpBody) (key : ClusterKey)
    (datagrams : Set UdpBody) (frames : Set TcpBody) (payload : Bytes) : Prop :=
  (∃ u ∈ datagrams, u.encodeFrame udp key = some payload) ∨
    ∃ b ∈ frames, ∃ frame, writeFrame tcp key b = some frame ∧ frame.drop 4 = payload

/-- Where one transport takes the other's messages: exactly where what is in them reads as
something else, which the sender's id rules out for most of what is said on TCP, syncs apart. Nobody
can pass off a frame for a datagram if and only if that is so for none of the frames that were
written. -/
theorem crossing_refused_iff {tcp : Postcard TcpBody} {udp : Postcard UdpBody}
    (htcp : tcp.Documented TcpBody.codec) (hudp : udp.Documented UdpBody.codec)
    (key : ClusterKey) :
    (∀ b frame, writeFrame tcp key b = some frame →
      ((∃ e, decodeFrame udp key (frame.drop 4) = .error e) ↔ b.RefusedByUdp)) ∧
    (∀ (u : UdpBody) datagram, u.encodeFrame udp key = some datagram → datagram.length < 2 ^ 32 →
      ((∃ e, (parseFrame tcp key (toBeBytes datagram.length ++ datagram)).1 = .error e) ↔
        u.RefusedByTcp ∨ MAX_FRAME_LEN < datagram.length)) ∧
    (∀ frames : Set TcpBody,
      ((∀ datagrams payload,
          ((∃ message, key.open payload = .ok message) →
            Sealed tcp udp key datagrams frames payload) →
          ∀ u, decodeFrame udp key payload = .ok u → u ∈ datagrams) ↔
        ∀ b ∈ frames, (∃ frame, writeFrame tcp key b = some frame) → b.RefusedByUdp)) ∧
    ∀ (sender : WireIdentity) members, sender.id.uuid[0].toNat % 128 ≠ 16 →
      (TcpBody.joinRequest sender).RefusedByUdp ∧
      (TcpBody.joinResponse sender members).RefusedByUdp ∧
      (TcpBody.membersResponse sender members).RefusedByUdp := by
  subst htcp hudp
  -- behind its prefix a frame is sealed as a datagram is, so only what it reads as decides
  have hframe : ∀ b frame, writeFrame (.documented TcpBody.codec) key b = some frame →
      ((∃ e, decodeFrame (.documented UdpBody.codec) key (frame.drop 4) = .error e) ↔
        b.RefusedByUdp) := by
    intro b frame hwrite
    obtain ⟨payload, hpayload, _, rfl⟩ := writeFrame_eq_some.mp hwrite
    obtain ⟨back, hback, rfl⟩ := sealBody_documented.mp hpayload
    rw [← TcpBody.decode_udp hback]
    exact openBody_seal_error_iff UdpBody.codec back
  refine ⟨hframe, ?_, ?_, fun sender members => TcpBody.refusedByUdp_of_head members⟩
  · intro u datagram hsend hlen
    obtain ⟨back, hback, hdatagram⟩ := sealBody_documented.mp hsend
    have hsize := fromBeBytes_toBeBytes hlen
    rw [← UdpBody.decode_tcp hback]
    -- a length over the limit ends the connection before the payload is looked at
    rcases Nat.lt_or_ge MAX_FRAME_LEN datagram.length with hlong | hfits
    · refine iff_of_true ⟨.announced datagram.length, ?_⟩ (.inr hlong)
      show (parseFrame _ key (_ :: _ :: _ :: _ :: datagram)).1 = _
      rw [parseFrame_cons, hsize, if_pos hlong]
    · have hparse : parseFrame (.documented TcpBody.codec) key
          (_ :: _ :: _ :: _ :: (datagram ++ [])) = _ := parseFrame_whole hfits hsize.symm []
      rw [List.append_nil] at hparse
      have herror : (∃ e, openBody _ key (key.seal (PROTOCOL_VERSION :: back)) = .error e) ↔ _ :=
        openBody_seal_error_iff TcpBody.codec back
      rw [← hdatagram] at herror
      rw [or_iff_left (not_lt_of_ge hfits), ← herror]
      show (∃ e, (parseFrame _ key (_ :: _ :: _ :: _ :: datagram)).1 = .error e) ↔ _
      rw [hparse]
      cases openBody (.documented TcpBody.codec) key datagram <;> simp [Except.map]
  · intro frames
    constructor
    · -- with no datagram sent at all, nothing a frame carries may read as one
      intro hall b hb hwritten
      obtain ⟨frame, hwrite⟩ := hwritten
      rw [← hframe b frame hwrite]
      cases hread : decodeFrame (.documented UdpBody.codec) key (frame.drop 4) with
      | error e => exact ⟨e, rfl⟩
      | ok u => exact absurd (hall ∅ _ (fun _ => .inr ⟨b, hb, frame, hwrite, rfl⟩) u hread) (by simp)
    · intro hrefused datagrams payload hsealed u hread
      rcases hsealed (open_of_openBody hread) with ⟨u', hu', hsend⟩ | ⟨b, hb, frame, hwrite, rfl⟩
      · have hsame := openBody_sealBody (Postcard.faithful_documented UdpBody.codec) hsend
        obtain rfl := Except.ok.inj (hsame.symm.trans hread)
        exact hu'
      · obtain ⟨e, herror⟩ := (hframe b frame hwrite).mpr (hrefused b hb ⟨frame, hwrite⟩)
        exact absurd (herror.symm.trans hread) (by simp)

/-- The welcome of a seed that knows two members is no datagram, and a ping with what a seed might
say is no frame. -/
theorem crossing_refused_iff_welcome :
    let members := (crowd 2 (by omega)).members.map WireMember.new
    let sender := crowdNode.identity (0, true)
    (∃ frame, writeFrame (.documented TcpBody.codec) .sample (.joinResponse sender members) =
        some frame ∧
      ∃ e, decodeFrame (.documented UdpBody.codec) .sample (frame.drop 4) = .error e) ∧
    ∃ datagram, (UdpBody.ping 7 sender members).encodeFrame (.documented UdpBody.codec) .sample =
        some datagram ∧
      ∃ e, (parseFrame (.documented TcpBody.codec) .sample
        (toBeBytes datagram.length ++ datagram)).1 = .error e := by
  intro members sender
  have htcp : (Postcard.documented TcpBody.codec).Documented TcpBody.codec := rfl
  have hudp : (Postcard.documented UdpBody.codec).Documented UdpBody.codec := rfl
  have hspeech := spans_crowdSpeech (show 2 ≤ 2 ^ 32 by omega)
  constructor
  · have hspans : TcpBody.codec.Spans _ _ (.joinResponse sender members) :=
      Codec.Spans.variant (show 1 < 128 by omega) rfl hspeech
    obtain ⟨_, frame, _, hwrite, _⟩ := exists_writeFrame hspans (by omega)
    obtain ⟨hframe, _, _, hhead⟩ := crossing_refused_iff htcp hudp .sample
    exact ⟨frame, hwrite, (hframe _ frame hwrite).mpr (hhead sender members (by decide)).2.1⟩
  · have hspans : UdpBody.codec.Spans _ _ (.ping 7 sender members) :=
      Codec.Spans.variant (show 0 < 128 by omega) rfl ((Codec.spans_u32 7).pair hspeech)
    obtain ⟨back, hback, _, hshort⟩ := hspans
    have hsend : (UdpBody.ping 7 sender members).encodeFrame (.documented UdpBody.codec) .sample =
        some (ClusterKey.sample.seal (PROTOCOL_VERSION :: back)) :=
      sealBody_documented.mpr ⟨back, hback, rfl⟩
    have hlen : (ClusterKey.sample.seal (PROTOCOL_VERSION :: back)).length < 2 ^ 32 := by
      have htag : TAG_LEN = 32 := rfl
      rw [ClusterKey.length_seal, List.length_cons]
      omega
    refine ⟨_, hsend, ((crossing_refused_iff htcp hudp .sample).2.1 _ _ hsend hlen).mpr (.inl ?_)⟩
    exact fun h => absurd h (by decide)

/-- Whatever the key is, whoever has seen a node sync has seen a datagram in which it leaves. -/
lemma exists_sync_taken_for_leave (key : ClusterKey) : ∃ frame,
    writeFrame (.documented TcpBody.codec) key
      (.syncRequest (crowdNode.identity (0, true)) []) = some frame ∧
    decodeFrame (.documented UdpBody.codec) key (frame.drop 4) =
      .ok (.leave (crowdNode.identity (0, true))) := by
  have hsender : WireIdentity.codec.Spans 26 112 (crowdNode.identity (0, true)) :=
    WireIdentity.spans rfl
  obtain ⟨front, hfront, _, hlen⟩ := hsender
  have hspeech : speechCodec.encode (crowdNode.identity (0, true), []) = some (front ++ [0]) :=
    encode_pair_eq_some.mpr ⟨front, [0], hfront, rfl, rfl⟩
  have hbody : TcpBody.codec.encode (.syncRequest (crowdNode.identity (0, true)) []) =
      some (4 :: (front ++ [0])) :=
    (variant_eq_some (show 4 < 128 by omega)).mpr ⟨_, hspeech, rfl⟩
  have hleave : UdpBody.codec.encode (.leave (crowdNode.identity (0, true))) = some (4 :: front) :=
    (variant_eq_some (show 4 < 128 by omega)).mpr ⟨_, hfront, rfl⟩
  have hread : UdpBody.codec.decode (4 :: (front ++ [0])) = _ :=
    UdpBody.codec.decode_append hleave [0]
  have hsealed : sealBody (.documented TcpBody.codec) key _ =
      some (key.seal (PROTOCOL_VERSION :: 4 :: (front ++ [0]))) :=
    sealBody_documented.mpr ⟨_, hbody, rfl⟩
  have hfits : (key.seal (PROTOCOL_VERSION :: 4 :: (front ++ [0]))).length < 2 ^ 32 := by
    have htag : TAG_LEN = 32 := rfl
    rw [ClusterKey.length_seal, List.length_cons, List.length_cons, List.length_append,
      List.length_singleton]
    omega
  refine ⟨_, writeFrame_eq_some.mpr ⟨_, hsealed, hfits, rfl⟩, ?_⟩
  have hopen : openBody _ key (key.seal (PROTOCOL_VERSION :: 4 :: (front ++ [0]))) = _ :=
    openBody_seal UdpBody.codec (4 :: (front ++ [0]))
  rwa [hread] at hopen

theorem sync_request_is_leave : ∃ frame,
    writeFrame (.documented TcpBody.codec) .sample
      (.syncRequest (crowdNode.identity (0, true)) []) = some frame ∧
    decodeFrame (.documented UdpBody.codec) .sample (frame.drop 4) =
      .ok (.leave (crowdNode.identity (0, true))) :=
  exists_sync_taken_for_leave .sample

end Dalila
