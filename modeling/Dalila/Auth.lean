import Dalila.Lib.Codec

/-!
# The cluster's key

Every message ends with a tag computed from the key and the message's own bytes.
-/

namespace Dalila

/-- Bytes of tag at the end of every message. -/
def TAG_LEN : ℕ := 32

/-- The secret every member of a cluster shares: the tags HMAC-SHA256 makes with it. -/
structure ClusterKey where
  mac : Bytes → Vector UInt8 TAG_LEN

/-- Why `open` refuses a message. -/
inductive SealError where
  | tooShort
  | forged
deriving DecidableEq, Repr

namespace ClusterKey

/-- `message` with its tag on the end. -/
def «seal» (key : ClusterKey) (message : Bytes) : Bytes :=
  message ++ (key.mac message).toList

/-- The message inside `sealed`, if its tag is right. -/
def «open» (key : ClusterKey) (sealed : Bytes) : Except SealError Bytes :=
  if sealed.length < TAG_LEN then
    .error .tooShort
  else
    let split := sealed.length - TAG_LEN
    let message := sealed.take split
    if (key.mac message).toList = sealed.drop split then
      .ok message
    else
      .error .forged

variable (key : ClusterKey)

lemma length_seal (message : Bytes) : (key.seal message).length = message.length + TAG_LEN := by
  rw [«seal», List.length_append, Vector.length_toList]

/-- What was sealed is opened again. -/
@[simp] lemma open_seal (message : Bytes) : key.open (key.seal message) = .ok message := by
  have hlen := key.length_seal message
  have hsplit : (key.seal message).length - TAG_LEN = message.length := by omega
  unfold «open»
  rw [if_neg (by omega), hsplit]
  have htake : (key.seal message).take message.length = message := List.take_left' rfl
  have hdrop : (key.seal message).drop message.length = (key.mac message).toList :=
    List.drop_left' rfl
  simp [htake, hdrop]

/-- Nothing else is opened. -/
lemma eq_seal_of_open {sealed message : Bytes} (h : key.open sealed = .ok message) :
    sealed = key.seal message := by
  unfold «open» at h
  simp only at h
  split_ifs at h with hshort htag
  obtain rfl := Except.ok.inj h
  rw [«seal», htag, List.take_append_drop]

end ClusterKey

end Dalila
