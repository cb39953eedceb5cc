import Dalila.Frames
import Dalila.LocalNode
import Dalila.State
import Dalila.Lib.Stream

/-!
# Reading frames off a connection

`readFrames` reads the frames of a connection, and `referenceParse` parses the whole stream at once.
The file proves that the one is the other however the bytes arrive (`framing_exact`), and that a
frame that was written is taken exactly if it is no longer than `MAX_FRAME_LEN` (`frame_taken_iff`).
-/

namespace Dalila

variable {postcard : Postcard TcpBody} {key : ClusterKey}

/-! ## One attempt -/

lemma parseFrame_cons (a b c d : UInt8) (rest : Bytes) :
    parseFrame postcard key (a :: b :: c :: d :: rest) =
      if MAX_FRAME_LEN < fromBeBytes a b c d then
        (.error (.announced (fromBeBytes a b c d)), a :: b :: c :: d :: rest)
      else if rest.length < fromBeBytes a b c d then
        (.ok none, a :: b :: c :: d :: rest)
      else
        ((openBody postcard key (rest.take (fromBeBytes a b c d))).map some,
          rest.drop (fromBeBytes a b c d)) := rfl

lemma parseFrame_short {buffer : Bytes} (h : buffer.length < 4) :
    parseFrame postcard key buffer = (.ok none, buffer) := by
  match buffer with
  | [] | [_] | [_, _] | [_, _, _] => rfl
  | _ :: _ :: _ :: _ :: _ =>
    simp only [List.length_cons] at h
    omega

/-- Either the length is still missing, or it is there. -/
lemma short_or_cons (buffer : Bytes) :
    buffer.length < 4 ∨ ∃ a b c d rest, buffer = a :: b :: c :: d :: rest := by
  match buffer with
  | [] | [_] | [_, _] | [_, _, _] => simp
  | a :: b :: c :: d :: rest => exact .inr ⟨a, b, c, d, rest, rfl⟩

/-- What `parse_frame` finds, case by case. -/
inductive Parsed (postcard : Postcard TcpBody) (key : ClusterKey) (buffer : Bytes) :
    Except FrameError (Option TcpBody) → Bytes → Prop where
  | short (hlen : buffer.length < 4) : Parsed postcard key buffer (.ok none) buffer
  | announced (a b c d : UInt8) (rest : Bytes) (hbuffer : buffer = a :: b :: c :: d :: rest)
      (hlong : MAX_FRAME_LEN < fromBeBytes a b c d) :
      Parsed postcard key buffer (.error (.announced (fromBeBytes a b c d))) buffer
  | pending (a b c d : UInt8) (rest : Bytes) (hbuffer : buffer = a :: b :: c :: d :: rest)
      (hfits : fromBeBytes a b c d ≤ MAX_FRAME_LEN) (hmore : rest.length < fromBeBytes a b c d) :
      Parsed postcard key buffer (.ok none) buffer
  | whole (a b c d : UInt8) (payload left : Bytes)
      (hbuffer : buffer = a :: b :: c :: d :: (payload ++ left))
      (hfits : payload.length ≤ MAX_FRAME_LEN) (hlen : payload.length = fromBeBytes a b c d) :
      Parsed postcard key buffer ((openBody postcard key payload).map some) left

/-- The four things `parse_frame` can come to. -/
lemma parseFrame_spec (postcard : Postcard TcpBody) (key : ClusterKey) (buffer : Bytes) :
    Parsed postcard key buffer (parseFrame postcard key buffer).1
      (parseFrame postcard key buffer).2 := by
  rcases short_or_cons buffer with hshort | ⟨a, b, c, d, rest, rfl⟩
  · rw [parseFrame_short hshort]
    exact .short hshort
  · rw [parseFrame_cons]
    split_ifs with hlong hmore
    · exact .announced a b c d rest rfl hlong
    · exact .pending a b c d rest rfl (le_of_not_gt hlong) hmore
    · have hlen : (rest.take (fromBeBytes a b c d)).length = fromBeBytes a b c d := by
        rw [List.length_take]
        omega
      refine .whole a b c d (rest.take _) (rest.drop _) ?_ ?_ hlen
      · rw [List.take_append_drop]
      · rw [hlen]
        omega

lemma parseFrame_whole {a b c d : UInt8} {payload : Bytes} (hfits : payload.length ≤ MAX_FRAME_LEN)
    (hlen : payload.length = fromBeBytes a b c d) (left : Bytes) :
    parseFrame postcard key (a :: b :: c :: d :: (payload ++ left)) =
      ((openBody postcard key payload).map some, left) := by
  have hnot : ¬ MAX_FRAME_LEN < fromBeBytes a b c d := by omega
  have hall : ¬ (payload ++ left).length < fromBeBytes a b c d := by
    rw [List.length_append]
    omega
  rw [parseFrame_cons, if_neg hnot, if_neg hall, List.take_left' hlen, List.drop_left' hlen]

/-! ## The reader -/

/-- A connection's reader: `parse_frame` on what `read_frame` has buffered. -/
def tcpReader (postcard : Postcard TcpBody) (key : ClusterKey) :
    FrameReader TcpBody FrameError where
  attempt := parseFrame postcard key
  closed := .incomplete
  buffer_of_more := by
    intro buffer left h
    have hspec := parseFrame_spec postcard key buffer
    rw [h] at hspec
    generalize hresult : (Except.ok none : Except FrameError (Option TcpBody)) = result at hspec
    cases hspec with
    | short | pending => rfl
    | announced => exact absurd hresult (by simp)
    | whole a b c d payload =>
      cases hopen : openBody postcard key payload with
      | error e => exact absurd (hopen ▸ hresult) (by simp)
      | ok body => exact absurd (hopen ▸ hresult) (by simp)
  attempt_append := by
    intro buffer body left h more
    have hspec := parseFrame_spec postcard key buffer
    rw [h] at hspec
    generalize hresult : (Except.ok (some body) : Except FrameError (Option TcpBody)) = result
      at hspec
    cases hspec with
    | short | pending => exact absurd hresult (by simp)
    | announced => exact absurd hresult (by simp)
    | whole a b c d payload _ hbuffer hfits hlen =>
      rw [hbuffer]
      simp only [List.cons_append, List.append_assoc]
      exact parseFrame_whole hfits hlen (left ++ more)
  error_append := by
    intro buffer e h more
    have hspec := parseFrame_spec postcard key buffer
    rw [h] at hspec
    generalize hresult : (Except.error e : Except FrameError (Option TcpBody)) = result at hspec
    generalize (parseFrame postcard key buffer).2 = left at hspec
    cases hspec with
    | short | pending => exact absurd hresult (by simp)
    | announced a b c d rest hbuffer hlong =>
      rw [hbuffer]
      simp only [List.cons_append]
      rw [parseFrame_cons, if_pos hlong]
    | whole a b c d payload left hbuffer hfits hlen =>
      rw [hbuffer]
      simp only [List.cons_append, List.append_assoc]
      rw [parseFrame_whole hfits hlen (left ++ more)]
  length_lt := by
    intro buffer body left h
    have hspec := parseFrame_spec postcard key buffer
    rw [h] at hspec
    generalize hresult : (Except.ok (some body) : Except FrameError (Option TcpBody)) = result
      at hspec
    cases hspec with
    | short | pending => exact absurd hresult (by simp)
    | announced => exact absurd hresult (by simp)
    | whole a b c d payload _ hbuffer =>
      rw [hbuffer]
      simp only [List.length_cons, List.length_append]
      omega

/-- `read_frame` on a connection with so many reads to come and so much in its buffer. -/
def readFrame (postcard : Postcard TcpBody) (key : ClusterKey) :
    List Bytes → Bytes → Except FrameError (Option TcpBody) × List Bytes × Bytes :=
  (tcpReader postcard key).next

/-- Every call of `read_frame` on a new connection, up to the first error or `None`. -/
def readFrames (postcard : Postcard TcpBody) (key : ClusterKey) (chunks : List Bytes) :
    List TcpBody × Except FrameError Unit :=
  (tcpReader postcard key).all chunks []

lemma length_drop_lt (a b c d : UInt8) (rest : Bytes) (n : ℕ) :
    (rest.drop n).length < (a :: b :: c :: d :: rest).length := by
  simp only [List.length_drop, List.length_cons]
  omega

/-- What a stream means, by the layout of frames alone. -/
def referenceParse (postcard : Postcard TcpBody) (key : ClusterKey) (stream : Bytes) :
    List TcpBody × Except FrameError Unit :=
  match stream with
  | [] => ([], .ok ())
  | a :: b :: c :: d :: rest =>
    let len := fromBeBytes a b c d
    -- as soon as the length is there, whatever else is
    if MAX_FRAME_LEN < len then
      ([], .error (.announced len))
    else if rest.length < len then
      ([], .error .incomplete)
    else
      match openBody postcard key (rest.take len) with
      | .error error => ([], .error error)
      | .ok body =>
        let tail := referenceParse postcard key (rest.drop len)
        (body :: tail.1, tail.2)
  | _ => ([], .error .incomplete)
termination_by stream.length
decreasing_by exact length_drop_lt a b c d rest _

/-! ## Reading is parsing -/

lemma referenceParse_nil : referenceParse postcard key [] = ([], .ok ()) := by
  rw [referenceParse]

lemma referenceParse_short {stream : Bytes} (hne : stream ≠ []) (h : stream.length < 4) :
    referenceParse postcard key stream = ([], .error .incomplete) := by
  match stream with
  | [] => exact absurd rfl hne
  | [_] | [_, _] | [_, _, _] =>
    rw [referenceParse]
    all_goals simp
  | _ :: _ :: _ :: _ :: _ =>
    simp only [List.length_cons] at h
    omega

lemma referenceParse_cons (a b c d : UInt8) (rest : Bytes) :
    referenceParse postcard key (a :: b :: c :: d :: rest) =
      if MAX_FRAME_LEN < fromBeBytes a b c d then
        ([], .error (.announced (fromBeBytes a b c d)))
      else if rest.length < fromBeBytes a b c d then
        ([], .error .incomplete)
      else
        match openBody postcard key (rest.take (fromBeBytes a b c d)) with
        | .error error => ([], .error error)
        | .ok body =>
          (body :: (referenceParse postcard key (rest.drop (fromBeBytes a b c d))).1,
            (referenceParse postcard key (rest.drop (fromBeBytes a b c d))).2) := by
  rw [referenceParse]

lemma tcpReader_parse (stream : Bytes) :
    (tcpReader postcard key).parse stream = referenceParse postcard key stream := by
  induction hlen : stream.length using Nat.strongRecOn generalizing stream with
  | ind n ih =>
    rcases short_or_cons stream with hshort | ⟨a, b, c, d, rest, rfl⟩
    · have hattempt : (tcpReader postcard key).attempt stream = (.ok none, stream) :=
        parseFrame_short hshort
      rw [FrameReader.parse_of_more hattempt]
      by_cases hempty : stream = []
      · rw [if_pos hempty, hempty, referenceParse_nil]
      · rw [if_neg hempty, referenceParse_short hempty hshort]
        rfl
    · have hattempt : (tcpReader postcard key).attempt (a :: b :: c :: d :: rest) = _ :=
        parseFrame_cons a b c d rest
      rw [referenceParse_cons]
      split_ifs at hattempt ⊢ with hlong hmore
      · rw [FrameReader.parse_of_error hattempt]
      · rw [FrameReader.parse_of_more hattempt, if_neg (by simp)]
        rfl
      · cases hopen : openBody postcard key (rest.take (fromBeBytes a b c d)) with
        | error e =>
          rw [hopen] at hattempt
          rw [FrameReader.parse_of_error hattempt]
        | ok body =>
          rw [hopen] at hattempt
          have hshorter : (rest.drop (fromBeBytes a b c d)).length < n := by
            rw [← hlen]
            exact length_drop_lt a b c d rest _
          rw [FrameReader.parse_of_frame hattempt, ih _ hshorter _ rfl]

/-! ## What was written -/

/-- The length prefix is read back. -/
lemma fromBeBytes_toBeBytes {n : ℕ} (h : n < 2 ^ 32) :
    fromBeBytes (UInt8.ofNat (n / 2 ^ 24)) (UInt8.ofNat (n / 2 ^ 16)) (UInt8.ofNat (n / 2 ^ 8))
      (UInt8.ofNat n) = n := by
  simp only [fromBeBytes, UInt8.toNat_ofNat']
  omega

/-- What was sealed is opened. -/
lemma openBody_sealBody {β : Type} {postcard : Postcard β} (hpost : postcard.Faithful) {body : β}
    {payload : Bytes} (h : sealBody postcard key body = some payload) :
    openBody postcard key payload = .ok body := by
  obtain ⟨message, hmessage, rfl⟩ := Option.map_eq_some_iff.mp h
  have hhead : (key.seal message).head? = some PROTOCOL_VERSION := by
    have hversion := hpost.version_first hmessage
    cases message with
    | nil => exact absurd hversion (by simp)
    | cons b message => exact hversion
  unfold openBody
  simp only [hhead, if_true, ClusterKey.open_seal, hpost.fromBytes_toAllocvec hmessage]

/-- A frame is written if its length fits the prefix. -/
lemma writeFrame_eq_some {body : TcpBody} {frame : Bytes} :
    writeFrame postcard key body = some frame ↔
      ∃ payload, sealBody postcard key body = some payload ∧ payload.length < 2 ^ 32 ∧
        frame = toBeBytes payload.length ++ payload := by
  unfold writeFrame
  rw [Option.bind_eq_some_iff]
  constructor
  · rintro ⟨payload, hpayload, h⟩
    split_ifs at h with hlen
    exact ⟨payload, hpayload, hlen, (Option.some.inj h).symm⟩
  · rintro ⟨payload, hpayload, hlen, rfl⟩
    exact ⟨payload, hpayload, if_pos hlen⟩

lemma length_frame {payload : Bytes} :
    (toBeBytes payload.length ++ payload).length = payload.length + 4 := by
  rw [List.length_append, Nat.add_comm]
  rfl

/-- A frame that is not too long is taken for what it is. -/
lemma parseFrame_writeFrame (hpost : postcard.Faithful) {body : TcpBody} {frame : Bytes}
    (h : writeFrame postcard key body = some frame) (hfits : frame.length ≤ MAX_FRAME_LEN + 4)
    (more : Bytes) : parseFrame postcard key (frame ++ more) = (.ok (some body), more) := by
  obtain ⟨payload, hpayload, hlen, rfl⟩ := writeFrame_eq_some.mp h
  rw [length_frame] at hfits
  have hparse : parseFrame postcard key (_ :: _ :: _ :: _ :: (payload ++ more)) = _ :=
    parseFrame_whole (by omega) (fromBeBytes_toBeBytes hlen).symm more
  rw [openBody_sealBody hpost hpayload] at hparse
  exact hparse

/-- A frame that is too long is refused by its length. -/
lemma parseFrame_of_long {body : TcpBody} {frame : Bytes}
    (h : writeFrame postcard key body = some frame) (hlong : MAX_FRAME_LEN + 4 < frame.length) :
    (parseFrame postcard key frame).1 = .error (.announced (frame.length - 4)) := by
  obtain ⟨payload, hpayload, hlen, rfl⟩ := writeFrame_eq_some.mp h
  have hsize := fromBeBytes_toBeBytes hlen
  rw [length_frame] at hlong ⊢
  show (parseFrame postcard key (_ :: _ :: _ :: _ :: payload)).1 = _
  rw [parseFrame_cons, hsize, if_pos (by omega)]
  rfl

/-- A frame in front of more bytes is read, and the rest after it. -/
lemma referenceParse_frame (hpost : postcard.Faithful) {body : TcpBody} {frame : Bytes}
    (h : writeFrame postcard key body = some frame) (hfits : frame.length ≤ MAX_FRAME_LEN + 4)
    (more : Bytes) :
    referenceParse postcard key (frame ++ more) =
      (body :: (referenceParse postcard key more).1, (referenceParse postcard key more).2) := by
  have hattempt : (tcpReader postcard key).attempt (frame ++ more) = (.ok (some body), more) :=
    parseFrame_writeFrame hpost h hfits more
  rw [← tcpReader_parse, FrameReader.parse_of_frame hattempt, tcpReader_parse]

/-- Part of a frame is nothing yet. -/
lemma referenceParse_take_frame {body : TcpBody} {frame : Bytes}
    (h : writeFrame postcard key body = some frame) (hfits : frame.length ≤ MAX_FRAME_LEN + 4)
    {n : ℕ} (hn : n < frame.length) :
    referenceParse postcard key (frame.take n) =
      ([], if n = 0 then .ok () else .error .incomplete) := by
  obtain ⟨payload, hpayload, hlen, rfl⟩ := writeFrame_eq_some.mp h
  rw [length_frame] at hfits hn
  rcases Nat.eq_zero_or_pos n with rfl | hpos
  · rw [List.take_zero, referenceParse_nil, if_pos rfl]
  rw [if_neg (by omega)]
  rcases Nat.lt_or_ge n 4 with hshort | hlong
  · have hlength : ((toBeBytes payload.length ++ payload).take n).length = n := by
      rw [List.length_take, length_frame]
      omega
    refine referenceParse_short ?_ ?_
    · intro hnil
      rw [hnil] at hlength
      exact absurd hlength (by simp; omega)
    · omega
  · obtain ⟨m, rfl⟩ := Nat.exists_eq_add_of_le' hlong
    have hsize := fromBeBytes_toBeBytes hlen
    have hpart : (payload.take m).length < payload.length := by
      rw [List.length_take]
      omega
    show referenceParse postcard key (_ :: _ :: _ :: _ :: payload.take m) = _
    rw [referenceParse_cons, hsize, if_neg (by omega), if_pos hpart]

/-- Frames that are not too long, one after another. -/
inductive Written (postcard : Postcard TcpBody) (key : ClusterKey) :
    List TcpBody → List Bytes → Prop where
  | nil : Written postcard key [] []
  | cons {body : TcpBody} {frame : Bytes} {bodies : List TcpBody} {frames : List Bytes}
      (h : writeFrame postcard key body = some frame) (hfits : frame.length ≤ MAX_FRAME_LEN + 4)
      (hrest : Written postcard key bodies frames) :
      Written postcard key (body :: bodies) (frame :: frames)

lemma Written.referenceParse (hpost : postcard.Faithful) {bodies : List TcpBody}
    {frames : List Bytes} (h : Written postcard key bodies frames) :
    referenceParse postcard key frames.flatten = (bodies, .ok ()) := by
  induction h with
  | nil => exact referenceParse_nil
  | cons hbody hfits _ ih =>
    rw [List.flatten_cons, referenceParse_frame hpost hbody hfits, ih]

/-- Of frames that were cut off, those before the cut are read. -/
lemma Written.referenceParse_take (hpost : postcard.Faithful) {bodies : List TcpBody}
    {frames : List Bytes} (h : Written postcard key bodies frames) {n : ℕ}
    (hn : n < frames.flatten.length) :
    ∃ k, (frames.take k).flatten.length ≤ n ∧ n < (frames.take (k + 1)).flatten.length ∧
      Dalila.referenceParse postcard key (frames.flatten.take n) =
        (bodies.take k,
          if (frames.take k).flatten.length = n then .ok () else .error .incomplete) := by
  induction h generalizing n with
  | nil => exact absurd hn (by simp)
  | @cons body frame bodies frames hbody hfits _ ih =>
    rw [List.flatten_cons, List.length_append] at hn
    rcases Nat.lt_or_ge n frame.length with hcut | hwhole
    · refine ⟨0, Nat.zero_le _, by simpa using hcut, ?_⟩
      have htake : (frame :: frames).flatten.take n = frame.take n := by
        rw [List.flatten_cons, List.take_append_of_le_length (by omega)]
      rw [htake, referenceParse_take_frame hbody hfits hcut]
      by_cases hzero : n = 0
      · rw [if_pos hzero, hzero]
        rfl
      · rw [if_neg hzero, if_neg (by simp; omega)]
        rfl
    · obtain ⟨m, rfl⟩ := Nat.exists_eq_add_of_le hwhole
      obtain ⟨k, hle, hlt, hparse⟩ := ih (n := m) (by omega)
      have htake : (frame :: frames).flatten.take (frame.length + m) =
          frame ++ frames.flatten.take m := by
        rw [List.flatten_cons, List.take_length_add_append]
      refine ⟨k + 1, ?_, ?_, ?_⟩
      · rw [List.take_succ_cons, List.flatten_cons, List.length_append]
        omega
      · rw [List.take_succ_cons, List.flatten_cons, List.length_append]
        omega
      · rw [htake, referenceParse_frame hpost hbody hfits, hparse]
        simp

/-- Reading is exact: what is read depends on the bytes and not on where they were cut, it is
what the layout of frames says, and of frames that were written it is their bodies. A stream
that was cut off gives the bodies before the cut, and shows whether a frame is missing. -/
theorem framing_exact (hpost : postcard.Faithful) (key : ClusterKey) :
    (∀ chunks, readFrames postcard key chunks = referenceParse postcard key chunks.flatten) ∧
    (∀ chunks chunks', chunks.flatten = chunks'.flatten →
      readFrames postcard key chunks = readFrames postcard key chunks') ∧
    ∀ bodies frames, Written postcard key bodies frames →
      (∀ chunks, chunks.flatten = frames.flatten →
        readFrames postcard key chunks = (bodies, .ok ())) ∧
      ∀ chunks n, n < frames.flatten.length → chunks.flatten = frames.flatten.take n →
        ∃ k, (frames.take k).flatten.length ≤ n ∧ n < (frames.take (k + 1)).flatten.length ∧
          readFrames postcard key chunks =
            (bodies.take k,
              if (frames.take k).flatten.length = n then .ok () else .error .incomplete) := by
  have hread : ∀ chunks,
      readFrames postcard key chunks = referenceParse postcard key chunks.flatten := by
    intro chunks
    rw [← tcpReader_parse]
    exact FrameReader.all_eq_parse chunks []
  refine ⟨hread, ?_, ?_⟩
  · intro chunks chunks' heq
    rw [hread, hread, heq]
  · intro bodies frames hwritten
    refine ⟨?_, ?_⟩
    · intro chunks heq
      rw [hread, heq, hwritten.referenceParse hpost]
    · intro chunks n hn heq
      obtain ⟨k, hle, hlt, hparse⟩ := hwritten.referenceParse_take hpost hn
      exact ⟨k, hle, hlt, by rw [hread, heq, hparse]⟩

/-- A key with which a request for the members has the tag that HMAC-SHA256 gives it with the
empty key. -/
def ClusterKey.sample : ClusterKey where
  mac _ := #v[14, 58, 176, 250, 207, 120, 251, 33, 133, 205, 110, 132, 218, 250, 103, 53, 97, 196,
    236, 72, 133, 165, 96, 236, 162, 45, 39, 44, 70, 99, 102, 14]

/-- A request for the members, as `sample` seals it. -/
def requestFrame : Bytes :=
  toBeBytes 34 ++ [6, 2] ++ (ClusterKey.sample.mac [6, 2]).toList

lemma writeFrame_request :
    writeFrame (.documented TcpBody.codec) .sample .membersRequest = some requestFrame := rfl

/-- Two requests for the members, the second of which was cut off after its first byte. -/
theorem framing_exact_requests :
    readFrames (.documented TcpBody.codec) .sample [requestFrame, [0]] =
      ([.membersRequest], .error .incomplete) := by
  have hwritten : Written (.documented TcpBody.codec) .sample [.membersRequest, .membersRequest]
      [requestFrame, requestFrame] :=
    .cons writeFrame_request (by decide) (.cons writeFrame_request (by decide) .nil)
  obtain ⟨k, hle, hlt, hread⟩ :=
    ((framing_exact (Postcard.faithful_documented TcpBody.codec) .sample).2.2 _ _ hwritten).2
      [requestFrame, [0]] 39 (by decide) rfl
  match k with
  | 0 => exact absurd hlt (by decide)
  | 1 => exact hread
  | k + 2 =>
    have hlen : ([requestFrame, requestFrame].take (k + 2)).flatten.length = 76 := by
      simp only [List.take_succ_cons, List.take_nil]
      rfl
    omega

/-! ## What is written and what is taken -/

/-- The writer's limit is the length of a `u32` and the reader's is `MAX_FRAME_LEN`: what is
written is taken exactly when it is within the reader's. -/
theorem frame_taken_iff (hpost : postcard.Faithful) {body : TcpBody} {message frame : Bytes}
    (hmessage : postcard.toAllocvec (PROTOCOL_VERSION, body) = some message)
    (hwrite : writeFrame postcard key body = some frame) :
    parseFrame postcard key frame = (.ok (some body), []) ↔
      message.length + TAG_LEN ≤ MAX_FRAME_LEN := by
  have hlen : frame.length = message.length + TAG_LEN + 4 := by
    obtain ⟨payload, hpayload, _, rfl⟩ := writeFrame_eq_some.mp hwrite
    obtain ⟨message', hmessage', rfl⟩ := Option.map_eq_some_iff.mp hpayload
    rw [Option.some.inj (hmessage.symm.trans hmessage'), length_frame, ClusterKey.length_seal]
  constructor
  · intro hparse
    by_contra hlong
    have hrefused := parseFrame_of_long hwrite (by omega)
    rw [hparse] at hrefused
    exact absurd hrefused (by simp)
  · intro hfits
    have hparse := parseFrame_writeFrame hpost hwrite (by omega) []
    rwa [List.append_nil] at hparse

lemma size_crowdIp : (#[10, 0, 0, 1] : Array UInt8).size = 4 := rfl

/-- The `n`-th member of a crowd. -/
def crowdMember (n : ℕ) : Member where
  id := ⟨⟨(toBeBytes n ++ List.replicate 12 0).toArray, by simp [toBeBytes]⟩⟩
  addr := ⟨.v4 ⟨#[10, 0, 0, 1], size_crowdIp⟩, 7946⟩
  incarnation := 0
  state := .alive
  ready := true
  tags := []

lemma toBeBytes_injOn {m n : ℕ} (hm : m < 2 ^ 32) (hn : n < 2 ^ 32)
    (h : toBeBytes m = toBeBytes n) : m = n := by
  simp only [toBeBytes, List.cons.injEq] at h
  obtain ⟨ha, hb, hc, hd, -⟩ := h
  rw [← fromBeBytes_toBeBytes hm, ← fromBeBytes_toBeBytes hn, ha, hb, hc, hd]

/-- A table with so many members. -/
def crowd (size : ℕ) (h : size ≤ 2 ^ 32) : MemberTable where
  members := (List.range size).map crowdMember
  nodup := by
    rw [List.map_map]
    refine List.Nodup.map_on ?_ List.nodup_range
    intro m hm n hn heq
    have hm := List.mem_range.mp hm
    have hn := List.mem_range.mp hn
    refine toBeBytes_injOn (by omega) (by omega) ?_
    simpa [crowdMember] using heq

/-- The node that sends the table of a crowd. -/
def crowdNode : LocalNode where
  id := ⟨Vector.replicate 16 1⟩
  addr := ⟨.v4 #v[10, 0, 0, 2], 7946⟩
  tags := []

/-- The sync a node of a crowd sends. -/
def crowdSync (size : ℕ) (h : size ≤ 2 ^ 32) : TcpBody :=
  .syncRequest (crowdNode.identity (0, true)) ((crowd size h).members.map WireMember.new)

lemma spans_crowdSpeech {size : ℕ} (h : size ≤ 2 ^ 32) :
    speechCodec.Spans (27 + size * 27) (122 + size * 113)
      (crowdNode.identity (0, true), (crowd size h).members.map WireMember.new) := by
  have hlen : ((crowd size h).members.map WireMember.new).length = size := by
    show (((List.range size).map crowdMember).map WireMember.new).length = size
    rw [List.length_map, List.length_map, List.length_range]
  have hrecord : ∀ r ∈ (crowd size h).members.map WireMember.new,
      WireMember.codec.Spans 27 113 r := by
    intro r hr
    obtain ⟨m, hm, rfl⟩ := List.mem_map.mp hr
    obtain ⟨n, _, rfl⟩ := List.mem_map.mp hm
    exact WireMember.spans rfl
  have hsender : WireIdentity.codec.Spans 26 112 (crowdNode.identity (0, true)) :=
    WireIdentity.spans rfl
  have hcount : (Codec.varint 64).Spans 1 10 ((crowd size h).members.map WireMember.new).length := by
    rw [hlen]
    exact Codec.spans_varint (by omega)
  have hspeech := hsender.pair (Codec.Spans.seq hcount hrecord)
  rw [hlen] at hspeech
  exact hspeech.mono (by omega) (by omega)

/-- A body of moderate size can be written. -/
lemma exists_writeFrame {body : TcpBody} {lo hi : ℕ} (h : TcpBody.codec.Spans lo hi body)
    (hhi : hi < 2 ^ 31) : ∃ message frame,
      (Postcard.documented TcpBody.codec).toAllocvec (PROTOCOL_VERSION, body) = some message ∧
      writeFrame (.documented TcpBody.codec) .sample body = some frame ∧
      frame.length = message.length + TAG_LEN + 4 ∧ lo < message.length ∧
      message.length ≤ hi + 1 := by
  obtain ⟨back, hback, hlo, hhi⟩ := h
  have hmessage : (Postcard.documented TcpBody.codec).toAllocvec (PROTOCOL_VERSION, body) =
      some (PROTOCOL_VERSION :: back) := Postcard.toAllocvec_documented.mpr ⟨back, hback, rfl⟩
  have htag : TAG_LEN = 32 := rfl
  have hsize : (ClusterKey.sample.seal (PROTOCOL_VERSION :: back)).length =
      (PROTOCOL_VERSION :: back).length + TAG_LEN := ClusterKey.length_seal ..
  rw [List.length_cons] at hsize
  refine ⟨_, _, hmessage, writeFrame_eq_some.mpr ⟨_, Option.map_eq_some_iff.mpr ⟨_, hmessage, rfl⟩,
    by omega, rfl⟩, ?_, ?_, ?_⟩
  · rw [length_frame, hsize, List.length_cons]
  · rw [List.length_cons]
    omega
  · rw [List.length_cons]
    omega

lemma spans_crowdSync {size : ℕ} (h : size ≤ 2 ^ 32) :
    TcpBody.codec.Spans (28 + size * 27) (123 + size * 113) (crowdSync size h) :=
  (Codec.Spans.variant (d := TcpBody.codec) (b := crowdSync size h) (show 4 < 128 by omega) rfl
    (spans_crowdSpeech h)).mono (by omega) (by omega)

/-- A sync of three members is written, and the peer reads it. -/
theorem frame_taken_iff_sync : ∃ frame,
    writeFrame (.documented TcpBody.codec) .sample (crowdSync 3 (by omega)) = some frame ∧
      parseFrame (.documented TcpBody.codec) .sample frame =
        (.ok (some (crowdSync 3 (by omega))), []) := by
  obtain ⟨message, frame, hmessage, hwrite, _, _, hshort⟩ :=
    exists_writeFrame (spans_crowdSync (show 3 ≤ 2 ^ 32 by omega)) (by omega)
  have htag : TAG_LEN = 32 := rfl
  have hlimit : MAX_FRAME_LEN = 4194304 := rfl
  exact ⟨frame, hwrite, (frame_taken_iff (Postcard.faithful_documented TcpBody.codec) hmessage
    hwrite).mpr (by omega)⟩

/-- A sync of two hundred thousand members is written, and no peer takes it. -/
theorem frame_not_always_taken : ∃ frame,
    writeFrame (.documented TcpBody.codec) .sample (crowdSync 200000 (by omega)) = some frame ∧
      (parseFrame (.documented TcpBody.codec) .sample frame).1 =
        .error (.announced (frame.length - 4)) := by
  obtain ⟨message, frame, hmessage, hwrite, hlen, hlong, _⟩ :=
    exists_writeFrame (spans_crowdSync (show 200000 ≤ 2 ^ 32 by omega)) (by omega)
  have htag : TAG_LEN = 32 := rfl
  have hlimit : MAX_FRAME_LEN = 4194304 := rfl
  exact ⟨frame, hwrite, parseFrame_of_long hwrite (by omega)⟩

end Dalila
