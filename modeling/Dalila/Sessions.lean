import Dalila.Framing
import Dalila.Lib.Transcript
import Dalila.Manner
import Dalila.Pair

/-!
# One connection

`serveConnection` is the task behind an accepted connection: it reads a request, replies, and reads
the next one, until its peer hangs up. `connection_is_a_conversation` says which requests it replies
to and that the peer reads the replies as they were written. On a connection that carries one request
the task is the one the cluster runs for it (`start_serve_eq`).
-/

namespace Dalila

open Program

variable {postcard : Postcard TcpBody} {key : ClusterKey} {node : LocalNode} {conn : Conn}

/-! ## The task -/

/-- The task that `start_tcp_accept_loop` spawns for a connection: what it does with the reads to
come and what is in the buffer. -/
def serveConnection (postcard : Postcard TcpBody) (key : ClusterKey) (node : LocalNode)
    (conn : Conn) (chunks : List Bytes) (buffer : Bytes) : Prog Unit :=
  match _h : readFrame postcard key chunks buffer with
  -- dropped
  | (.error _, _, _) => pure ()
  -- the peer hung up
  | (.ok none, _, _) => pure ()
  | (.ok (some frame), chunks', buffer') => do
    match ← respond node frame with
    | some reply => do
      let ok ← Op.call (.writeResponse conn reply)
      if ok then serveConnection postcard key node conn chunks' buffer' else pure ()
    -- a response where a request was expected
    | none => pure ()
termination_by (buffer ++ chunks.flatten).length
decreasing_by exact (tcpReader postcard key).length_next _h

/-- What the task does with frames that have been read. -/
def serveFrames (node : LocalNode) (conn : Conn) : List TcpBody → Prog Unit
  | [] => pure ()
  | frame :: frames => do
    match ← respond node frame with
    | some reply => do
      let ok ← Op.call (.writeResponse conn reply)
      if ok then serveFrames node conn frames else pure ()
    | none => pure ()

/-- What a task does depends on the bytes alone, not on how they arrive. -/
lemma serveConnection_eq (chunks : List Bytes) (buffer : Bytes) :
    serveConnection postcard key node conn chunks buffer =
      serveFrames node conn (referenceParse postcard key (buffer ++ chunks.flatten)).1 := by
  induction hlen : (buffer ++ chunks.flatten).length using Nat.strongRecOn
    generalizing chunks buffer with
  | ind n ih =>
    have hparse := FrameReader.parse_eq_next (R := tcpReader postcard key) chunks buffer
    rw [tcpReader_parse] at hparse
    rw [serveConnection, hparse]
    unfold readFrame
    split
    · next heq =>
      rw [heq]
      rfl
    · next heq =>
      rw [heq]
      rfl
    · next frame chunks' buffer' heq =>
      have hshorter := (tcpReader postcard key).length_next heq
      rw [heq, ih _ (hlen ▸ hshorter) chunks' buffer' rfl, ← tcpReader_parse]
      rfl

/-- After the reply to the only request there is nothing more to do. -/
lemma serveFrames_single (frame : TcpBody) :
    serveFrames node conn [frame] = serve node conn frame := by
  show respond node frame >>= _ = respond node frame >>= _
  congr 1
  funext reply
  cases reply with
  | none => rfl
  | some reply =>
    show Op.call _ >>= _ = Op.call _ >>= _
    congr 1
    funext ok
    cases ok <;> rfl

/-- The connections of a cluster carry one request each. What the cluster runs for one of them is
this task, whatever pieces the request has arrived in. -/
theorem start_serve_eq (hpost : postcard.Faithful) {body : TcpBody} {frame : Bytes}
    (hwrite : writeFrame postcard key body = some frame) (hfits : frame.length ≤ MAX_FRAME_LEN + 4)
    {chunks : List Bytes} (harrived : chunks.flatten = frame) :
    (Kind.serve conn body).start node = serveConnection postcard key node conn chunks [] := by
  have hwritten : Written postcard key [body] [frame] := .cons hwrite hfits .nil
  have hparse := hwritten.referenceParse hpost
  rw [List.flatten_singleton] at hparse
  rw [serveConnection_eq, List.nil_append, harrived, hparse]
  exact (serveFrames_single body).symm

/-! ## What it replies -/

def TcpBody.isRequest : TcpBody → Bool
  | .joinRequest _ | .membersRequest | .syncRequest _ _ => true
  | .joinResponse _ _ | .membersResponse _ _ | .syncResponse _ _ => false

/-- The kind of reply a request gets. -/
def TcpBody.RepliedBy : TcpBody → TcpBody → Prop
  | .joinRequest _, .joinResponse _ _ => True
  | .membersRequest, .membersResponse _ _ => True
  | .syncRequest _ _, .syncResponse _ _ => True
  | _, _ => False

/-- What a task has written, of all it did. -/
def written (es : List (Interaction Op Op.Res)) : List TcpBody :=
  es.filterMap fun
    | ⟨.writeResponse _ reply, true⟩ => some reply
    | _ => none

/-- The last thing it did was a write that failed. -/
def CutOff (conn : Conn) (es : List (Interaction Op Op.Res)) : Prop :=
  ∃ reply, es.getLast? = some ⟨.writeResponse conn reply, false⟩

lemma written_append (es es' : List (Interaction Op Op.Res)) :
    written (es ++ es') = written es ++ written es' :=
  List.filterMap_append

lemma offline_written : Offline true fun α prog =>
    ∀ (es : List (Interaction Op Op.Res)) (a : α), Transcript prog es a → written es = [] where
  pure a es b h := by
    obtain ⟨rfl, _⟩ := transcript_pure h
    rfl
  call_bind o f ho _ hf es b h := by
    obtain ⟨r, es', rfl, hrest⟩ := transcript_call_bind h
    have hes' := hf r es' b hrest
    cases o with
    | connect | writeRequest | readFrame | writeResponse => exact absurd ho (by simp [Op.online])
    | _ => exact hes'
  bind hp hf es b h := by
    obtain ⟨es₁, es₂, a, rfl, h₁, h₂⟩ := transcript_bind h
    rw [written_append, hp es₁ a h₁, hf a es₂ b h₂]
    rfl

/-- A request gets a reply of its kind, and a response gets none. -/
lemma transcript_respond {body : TcpBody} {es : List (Interaction Op Op.Res)} {reply : Option TcpBody}
    (h : Transcript (respond node body) es reply) :
    match reply with
    | some reply => body.RepliedBy reply
    | none => body.isRequest = false := by
  cases body with
  | joinRequest sender =>
    obtain ⟨_, _, b, _, hb, h⟩ := transcript_bind h
    obtain ⟨_, rfl⟩ := transcript_pure h
    obtain ⟨members, _, _, hb⟩ := transcript_call_bind hb
    obtain ⟨_, _, _, _, _, hb⟩ := transcript_bind hb
    obtain ⟨current, _, _, hb⟩ := transcript_call_bind hb
    obtain ⟨_, rfl⟩ := transcript_pure hb
    trivial
  | membersRequest =>
    obtain ⟨current, _, _, h⟩ := transcript_call_bind h
    obtain ⟨members, _, _, h⟩ := transcript_call_bind h
    obtain ⟨_, rfl⟩ := transcript_pure h
    trivial
  | syncRequest sender members =>
    obtain ⟨current, _, _, h⟩ := transcript_call_bind h
    obtain ⟨ours, _, _, h⟩ := transcript_call_bind h
    obtain ⟨_, _, _, _, _, h⟩ := transcript_bind h
    obtain ⟨_, rfl⟩ := transcript_pure h
    trivial
  | joinResponse | membersResponse | syncResponse =>
    obtain ⟨_, rfl⟩ := transcript_pure h
    rfl

lemma TcpBody.RepliedBy.isRequest {body reply : TcpBody} (h : body.RepliedBy reply) :
    body.isRequest = true := by
  cases body <;> first | rfl | exact h.elim

/-- One reply after another, in the order of the requests, up to a frame that is none, or a write
that fails. -/
lemma transcript_serveFrames {frames : List TcpBody} {es : List (Interaction Op Op.Res)} {u : Unit}
    (h : Transcript (serveFrames node conn frames) es u) :
    ∃ k ≤ (frames.takeWhile TcpBody.isRequest).length,
      List.Forall₂ TcpBody.RepliedBy (frames.take k) (written es) ∧
      (k = (frames.takeWhile TcpBody.isRequest).length ∨ CutOff conn es) := by
  induction frames generalizing es with
  | nil =>
    obtain ⟨rfl, _⟩ := transcript_pure h
    exact ⟨0, le_rfl, .nil, .inl rfl⟩
  | cons frame frames ih =>
    obtain ⟨es₁, es₂, reply, rfl, hrespond, h⟩ := transcript_bind h
    have hmanner := @Offline.manner node _ _ offline_written
    have hunwritten := hmanner.respond frame es₁ reply hrespond
    have hreply := transcript_respond hrespond
    rw [written_append, hunwritten, List.nil_append]
    cases reply with
    | none =>
      have hnot : frame.isRequest = false := hreply
      obtain ⟨rfl, _⟩ := transcript_pure h
      rw [List.takeWhile_cons_of_neg (by simp [hnot])]
      exact ⟨0, le_rfl, .nil, .inl rfl⟩
    | some reply =>
      have hkind : frame.RepliedBy reply := hreply
      obtain ⟨ok, es₃, rfl, hrest⟩ := transcript_call_bind h
      rw [List.takeWhile_cons_of_pos hkind.isRequest, List.length_cons]
      cases ok with
      | false =>
        obtain ⟨rfl, _⟩ := transcript_pure hrest
        refine ⟨0, Nat.zero_le _, .nil, .inr ⟨reply, ?_⟩⟩
        exact List.getLast?_concat
      | true =>
        obtain ⟨k, hk, hpairs, hend⟩ := ih hrest
        refine ⟨k + 1, Nat.succ_le_succ hk, .cons hkind hpairs, ?_⟩
        rcases hend with rfl | ⟨last, hlast⟩
        · exact .inl rfl
        · refine .inr ⟨last, ?_⟩
          rw [List.getLast?_append, List.getLast?_cons, hlast]
          rfl

/-! ## What arrives of what was written -/

lemma readFrames_eq (chunks : List Bytes) :
    readFrames postcard key chunks = referenceParse postcard key chunks.flatten := by
  rw [← tcpReader_parse]
  exact FrameReader.all_eq_parse chunks []

lemma length_flatten_take_le (frames : List Bytes) {i j : ℕ} (hij : i ≤ j) :
    (frames.take i).flatten.length ≤ (frames.take j).flatten.length := by
  have htake : frames.take i = (frames.take j).take i := by
    rw [List.take_take, Nat.min_eq_left hij]
  rw [htake]
  nth_rewrite 2 [← List.take_append_drop i (frames.take j)]
  rw [List.flatten_append, List.length_append]
  exact Nat.le_add_right _ _

/-- Of frames that were written, as many are read as have arrived. -/
lemma Written.arrived (hpost : postcard.Faithful) {bodies : List TcpBody} {frames : List Bytes}
    (hwritten : Written postcard key bodies frames) {stream : Bytes}
    (harrived : stream <+: frames.flatten) :
    ∃ m, (Dalila.referenceParse postcard key stream).1 = bodies.take m ∧ m ≤ bodies.length ∧
      (frames.take m).flatten.length ≤ stream.length ∧
      ∀ j ≤ bodies.length, (frames.take j).flatten.length ≤ stream.length → j ≤ m := by
  rcases Nat.lt_or_ge stream.length frames.flatten.length with hcut | hwhole
  · obtain ⟨m, hle, hlt, hparse⟩ := hwritten.referenceParse_take hpost hcut
    rw [← List.prefix_iff_eq_take.mp harrived] at hparse
    refine ⟨min m bodies.length, ?_, Nat.min_le_right _ _, ?_, fun j hj hle' => ?_⟩
    · rw [hparse]
      exact List.take_eq_take_min
    · exact (length_flatten_take_le frames (Nat.min_le_left _ _)).trans hle
    · refine Nat.le_min.mpr ⟨?_, hj⟩
      by_contra hmore
      have hnext : m + 1 ≤ j := Nat.lt_of_not_ge hmore
      exact absurd (hlt.trans_le (length_flatten_take_le frames hnext)) (Nat.not_lt_of_ge hle')
  · have hall : stream = frames.flatten := harrived.eq_of_length_le hwhole
    refine ⟨bodies.length, ?_, le_rfl, ?_, fun j hj _ => hj⟩
    · rw [hall, hwritten.referenceParse hpost, List.take_length]
    · rw [hall]
      nth_rewrite 2 [← List.take_append_drop bodies.length frames]
      rw [List.flatten_append, List.length_append]
      exact Nat.le_add_right _ _

lemma length_takeWhile_take {α : Type} (p : α → Bool) (l : List α) (m : ℕ) :
    ((l.take m).takeWhile p).length = min m (l.takeWhile p).length := by
  induction l generalizing m with
  | nil => simp
  | cons a l ih =>
    cases m with
    | zero => simp
    | succ m =>
      rw [List.take_succ_cons]
      by_cases ha : p a = true
      · rw [List.takeWhile_cons_of_pos ha, List.takeWhile_cons_of_pos ha, List.length_cons,
          List.length_cons, ih, Nat.succ_min_succ]
      · rw [List.takeWhile_cons_of_neg ha, List.takeWhile_cons_of_neg ha]
        simp

/-- A connection is a conversation. A peer that has the key writes any frames, and some of their
bytes arrive, cut up in any way. Whatever else its server does meanwhile, it gets one reply after
another, each of the kind its request asks for, and to exactly the requests that have arrived as a
whole before the first frame that is no request; unless a reply could not be written, which is the
end of the connection. And however the replies arrive, it reads them as they were written. -/
theorem connection_is_a_conversation (hpost : postcard.Faithful) {bodies : List TcpBody}
    {frames : List Bytes} (hwritten : Written postcard key bodies frames) {chunks : List Bytes}
    (harrived : chunks.flatten <+: frames.flatten) {es : List (Interaction Op Op.Res)}
    (h : Transcript (serveConnection postcard key node conn chunks []) es ()) :
    ∃ k ≤ (bodies.takeWhile TcpBody.isRequest).length,
      List.Forall₂ TcpBody.RepliedBy (bodies.take k) (written es) ∧
      (frames.take k).flatten.length ≤ chunks.flatten.length ∧
      ((∀ j ≤ (bodies.takeWhile TcpBody.isRequest).length,
        (frames.take j).flatten.length ≤ chunks.flatten.length → j ≤ k) ∨ CutOff conn es) ∧
      ∀ replied chunks', Written postcard key (written es) replied →
        chunks'.flatten = replied.flatten → readFrames postcard key chunks' = (written es, .ok ()) := by
  obtain ⟨m, hparse, hm, hwhole, hmost⟩ := hwritten.arrived hpost harrived
  rw [serveConnection_eq, List.nil_append, hparse] at h
  obtain ⟨k, hk, hpairs, hend⟩ := transcript_serveFrames h
  rw [length_takeWhile_take, Nat.le_min] at hk
  rw [List.take_take, Nat.min_eq_left hk.1] at hpairs
  refine ⟨k, hk.2, hpairs, (length_flatten_take_le frames hk.1).trans hwhole, ?_, ?_⟩
  · rcases hend with hall | hcut
    · rw [length_takeWhile_take] at hall
      refine .inl fun j hj hle => ?_
      have hbodies : j ≤ bodies.length := hj.trans (List.takeWhile_sublist _).length_le
      rw [hall]
      exact Nat.le_min.mpr ⟨hmost j hbodies hle, hj⟩
    · exact .inr hcut
  · intro replied chunks' hreplied hflatten
    rw [readFrames_eq, hflatten, hreplied.referenceParse hpost]

/-- Two requests for the members, the second of which was cut off. -/
theorem connection_is_a_conversation_cut : ∃ es : List (Interaction Op Op.Res),
    Transcript (serveConnection (.documented TcpBody.codec) .sample alpha ⟨none, 0, alpha.addr⟩
      [requestFrame, [0]] []) es () ∧
    List.Forall₂ TcpBody.RepliedBy [.membersRequest] (written es) := by
  let conn : Conn := ⟨none, 0, alpha.addr⟩
  let reply : TcpBody := .membersResponse (alpha.identity Guarded.new.current) []
  have hpost : (Postcard.documented TcpBody.codec).Faithful :=
    Postcard.faithful_documented TcpBody.codec
  have hwritten : Written (.documented TcpBody.codec) .sample [.membersRequest, .membersRequest]
      [requestFrame, requestFrame] :=
    .cons writeFrame_request (by decide) (.cons writeFrame_request (by decide) .nil)
  have harrived : [requestFrame, [0]].flatten <+: [requestFrame, requestFrame].flatten := by decide
  have hone : ∀ k, 1 ≤ k → k ≤ 2 →
      ([requestFrame, requestFrame].take k).flatten.length ≤ [requestFrame, [0]].flatten.length →
      k = 1 := by
    intro k hk hk' hle
    rcases Nat.lt_or_ge k 2 with hlt | htwo
    · omega
    · obtain rfl : k = 2 := le_antisymm hk' htwo
      exact absurd hle (by decide)
  obtain ⟨m, hparse, hm, hle, hmost⟩ := hwritten.arrived hpost harrived
  obtain rfl := hone m (hmost 1 (by decide) (by decide)) hm hle
  have hes : Transcript (serveConnection (.documented TcpBody.codec) .sample alpha conn
      [requestFrame, [0]] []) [⟨.current, Guarded.new.current⟩, ⟨.snapshot, []⟩,
        ⟨.writeResponse conn reply, true⟩] () := by
    rw [serveConnection_eq, List.nil_append, hparse]
    exact .step (.step (.step (.ret ())))
  obtain ⟨k, hk, hpairs, hle', hend, _⟩ := connection_is_a_conversation hpost hwritten harrived hes
  refine ⟨_, hes, ?_⟩
  rcases hend with hall | ⟨last, hlast⟩
  · obtain rfl := hone k (hall 1 (by decide) (by decide)) hk hle'
    exact hpairs
  · exact absurd hlast (by simp)

end Dalila
