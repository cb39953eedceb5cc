import Dalila.Auth
import Dalila.Encoding

/-!
# Datagrams and frames

How a body becomes the bytes of a datagram or of a TCP frame, and back. `postcard` comes as a
parameter: what it writes for a version and a body, and what it reads.
-/

namespace Dalila

/-- A datagram is kept well under a typical MTU. -/
def MAX_DATAGRAM_LEN : ℕ := 1400

/-- Largest payload we accept. -/
def MAX_FRAME_LEN : ℕ := 4 * 1024 * 1024

/-- `postcard::to_allocvec` and `postcard::from_bytes` for a version and a body. -/
structure Postcard (β : Type) where
  toAllocvec : UInt8 × β → Option Bytes
  fromBytes : Bytes → Option (UInt8 × β)

namespace Postcard

variable {β : Type}

/-- The documented wire format, of which `from_bytes` leaves trailing bytes unread. -/
def documented (body : Codec β) : Postcard β where
  toAllocvec := (Codec.byte.pair body).encode
  fromBytes bytes := ((Codec.byte.pair body).decode bytes).map Prod.fst

/-- It writes and reads the documented wire format. -/
def Documented (postcard : Postcard β) (body : Codec β) : Prop :=
  postcard = documented body

/-- What is relied on where the format does not matter: `from_bytes` undoes `to_allocvec`, and
the version is the first byte. -/
structure Faithful (postcard : Postcard β) : Prop where
  fromBytes_toAllocvec : ∀ {x bytes}, postcard.toAllocvec x = some bytes →
    postcard.fromBytes bytes = some x
  version_first : ∀ {x bytes}, postcard.toAllocvec x = some bytes → bytes.head? = some x.1

lemma toAllocvec_documented {body : Codec β} {version : UInt8} {b : β} {bytes : Bytes} :
    (documented body).toAllocvec (version, b) = some bytes ↔
      ∃ back, body.encode b = some back ∧ bytes = version :: back := by
  show (Codec.byte.pair body).encode (version, b) = some bytes ↔ _
  rw [Codec.encode_pair_eq_some]
  constructor
  · rintro ⟨front, back, hfront, hback, rfl⟩
    obtain rfl := Option.some.inj hfront
    exact ⟨back, hback, rfl⟩
  · rintro ⟨back, hback, rfl⟩
    exact ⟨[version], back, rfl, hback, rfl⟩

lemma faithful_documented (body : Codec β) : (documented body).Faithful where
  fromBytes_toAllocvec := by
    intro x bytes h
    have hdecode := (Codec.byte.pair body).decode_append h []
    rw [List.append_nil] at hdecode
    show ((Codec.byte.pair body).decode bytes).map Prod.fst = some x
    rw [hdecode]
    rfl
  version_first := by
    rintro ⟨version, body'⟩ bytes h
    obtain ⟨back, _, rfl⟩ := toAllocvec_documented.mp h
    rfl

lemma fromBytes_documented (body : Codec β) (version : UInt8) (bytes : Bytes) :
    (documented body).fromBytes (version :: bytes) =
      (body.decode bytes).map fun x => (version, x.1) := by
  show ((Codec.byte.pair body).decode (version :: bytes)).map Prod.fst = _
  rw [Codec.decode_pair, Codec.decode_byte_cons, Option.bind_some, Option.map_map]
  rfl

end Postcard

/-- Why a datagram or a frame is refused. -/
inductive FrameError where
  /-- The length it announces is over the limit. -/
  | announced (len : ℕ)
  | version (other : UInt8)
  | empty
  | sealing (error : SealError)
  /-- `postcard` cannot read it. -/
  | malformed
  /-- The connection was closed in the middle of a frame. -/
  | incomplete
deriving DecidableEq, Repr

section

variable {β : Type} (postcard : Postcard β) (key : ClusterKey)

/-- A version, a body and the tag of both: what datagrams and frames have in common. -/
def sealBody (body : β) : Option Bytes :=
  (postcard.toAllocvec (PROTOCOL_VERSION, body)).map key.seal

/-- The version is checked before the tag, and the tag before anything is decoded. -/
def openBody (payload : Bytes) : Except FrameError β :=
  match payload.head? with
  | none => .error .empty
  | some version =>
    if version = PROTOCOL_VERSION then
      match key.open payload with
      | .error error => .error (.sealing error)
      | .ok message =>
        match postcard.fromBytes message with
        | none => .error .malformed
        | some (_, body) => .ok body
    else
      .error (.version version)

end

/-! ## Datagrams -/

/-- `UdpBody::encode_frame` -/
def UdpBody.encodeFrame (postcard : Postcard UdpBody) (key : ClusterKey) (body : UdpBody) :
    Option Bytes :=
  sealBody postcard key body

def decodeFrame (postcard : Postcard UdpBody) (key : ClusterKey) (payload : Bytes) :
    Except FrameError UdpBody :=
  openBody postcard key payload

/-! ## Frames -/

/-- `u32::to_be_bytes` -/
def toBeBytes (n : ℕ) : Bytes :=
  [UInt8.ofNat (n / 2 ^ 24), UInt8.ofNat (n / 2 ^ 16), UInt8.ofNat (n / 2 ^ 8), UInt8.ofNat n]

/-- `u32::from_be_bytes` -/
def fromBeBytes (a b c d : UInt8) : ℕ :=
  2 ^ 24 * a.toNat + 2 ^ 16 * b.toNat + 2 ^ 8 * c.toNat + d.toNat

/-- The bytes `write_frame` puts on the stream. It fails where the length does not fit a
`u32`. -/
def writeFrame (postcard : Postcard TcpBody) (key : ClusterKey) (body : TcpBody) : Option Bytes :=
  (sealBody postcard key body).bind fun payload =>
    if payload.length < 2 ^ 32 then some (toBeBytes payload.length ++ payload) else none

/-- One attempt of `parse_frame`, and the buffer it leaves. -/
def parseFrame (postcard : Postcard TcpBody) (key : ClusterKey) (buffer : Bytes) :
    Except FrameError (Option TcpBody) × Bytes :=
  match buffer with
  | a :: b :: c :: d :: rest =>
    let len := fromBeBytes a b c d
    if MAX_FRAME_LEN < len then
      (.error (.announced len), buffer)
    else if rest.length < len then
      (.ok none, buffer)
    else
      ((openBody postcard key (rest.take len)).map some, rest.drop len)
  | _ => (.ok none, buffer)

end Dalila
