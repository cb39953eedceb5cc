import Dalila.FrameSizes

/-!
# Bytes or messages

Contains the proofs that
- every run of a cluster in bytes is one of the cluster of messages: the processes take the same
  steps and are the same at its end, so what `Wiring.Stranger` allows changes nothing
- every run of the cluster of messages whose tables fit a frame is one in bytes
- who only does what `Wiring.Stranger` allows makes up no member and declares none dead
-/

namespace Dalila

variable {W : Wiring} {bytes : Bytes} {h : Trace} {q : NodeId} {p : Process}

/-! ## What is read -/

namespace Wiring

/-- Who reads a frame from part of a stream would read it from all of it. -/
lemma exists_parse {chunks : List Bytes} {body : TcpBody} (harrived : chunks.flatten <+: bytes)
    (h : W.firstFrame chunks = .ok (some body)) :
    ∃ left, parseFrame W.tcp W.key bytes = (.ok (some body), left) := by
  obtain ⟨more, rfl⟩ := harrived
  rcases hnext : (tcpReader W.tcp W.key).next chunks [] with ⟨result, chunks', buffer'⟩
  have hresult : result = .ok (some body) := by
    have h : ((tcpReader W.tcp W.key).next chunks []).1 = .ok (some body) := h
    rwa [hnext] at h
  rw [hresult] at hnext
  have hattempt := FrameReader.attempt_of_next hnext more
  rwa [List.nil_append] at hattempt

/-- A frame that is read was sealed. -/
lemma exists_open_of_parse {body : TcpBody} {left : Bytes}
    (h : parseFrame W.tcp W.key bytes = (.ok (some body), left)) :
    ∃ payload message, payload <:+: bytes ∧ W.key.open payload = .ok message := by
  have hspec := parseFrame_spec W.tcp W.key bytes
  rw [h] at hspec
  generalize hresult : (Except.ok (some body) : Except FrameError (Option TcpBody)) = result
    at hspec
  cases hspec with
  | short | pending => exact absurd hresult (by simp)
  | announced => exact absurd hresult (by simp)
  | whole a b c d payload left hbytes =>
    cases hopen : openBody W.tcp W.key payload with
    | error e =>
      rw [hopen] at hresult
      exact absurd hresult (by simp)
    | ok body' =>
      obtain ⟨message, hmessage⟩ := open_of_openBody hopen
      refine ⟨payload, message, ?_, hmessage⟩
      rw [hbytes]
      exact ⟨[a, b, c, d], left, by simp⟩

/-- A frame is read for what was written. -/
lemma eq_of_writeFrame (htcp : W.tcp.Faithful) {body body' : TcpBody} {chunks : List Bytes}
    (hwrite : writeFrame W.tcp W.key body = some bytes) (harrived : chunks.flatten <+: bytes)
    (h : W.firstFrame chunks = .ok (some body')) : body' = body := by
  obtain ⟨left, hparse⟩ := exists_parse harrived h
  rcases Nat.lt_or_ge (MAX_FRAME_LEN + 4) bytes.length with hlong | hfits
  · have herror := parseFrame_of_long hwrite hlong
    rw [hparse] at herror
    exact absurd herror (by simp)
  · have hwhole := parseFrame_writeFrame htcp hwrite hfits []
    rw [List.append_nil, hparse] at hwhole
    exact Option.some.inj (Except.ok.inj (Prod.mk.inj hwhole).1)

/-- What a process writes is read as that, and as nothing else. -/
lemma Writes.eq_of_reads (htcp : W.tcp.Faithful) (hudp : W.udp.Faithful) {packet packet' : Packet}
    {parcel : Parcel} (hwrites : W.Writes packet parcel)
    (hfits : ∀ src dst body, packet = .udp src dst body → body.Fits W.udp W.key)
    (hreads : W.Reads parcel packet') : packet' = packet := by
  cases hwrites with
  | datagram src dst body bytes hsend =>
    cases hreads with
    | datagram _ _ _ body' hread =>
      obtain ⟨datagram, hdatagram, hlen⟩ := hfits src dst body rfl
      obtain rfl := Option.some.inj (hsend.symm.trans hdatagram)
      have hsame := openBody_sealBody hudp hsend
      rw [received, List.take_of_length_le hlen] at hread
      rw [Except.ok.inj (hread.symm.trans hsame)]
  | request conn body bytes hwrite =>
    cases hreads with
    | request _ _ chunks body' harrived hread =>
      rw [eq_of_writeFrame htcp hwrite harrived hread]
  | response conn body bytes hwrite =>
    cases hreads with
    | response _ _ chunks body' harrived hread =>
      rw [eq_of_writeFrame htcp hwrite harrived hread]

/-! ## What strangers send -/

lemma not_decodeFrame_of_refused (htcp : W.tcp.Documented TcpBody.codec)
    (hudp : W.udp.Documented UdpBody.codec) {body : TcpBody} {u : UdpBody}
    (hwrite : writeFrame W.tcp W.key body = some bytes) (hrefused : body.RefusedByUdp) :
    decodeFrame W.udp W.key (bytes.drop 4) ≠ .ok u := by
  intro hread
  rw [htcp] at hwrite
  rw [hudp] at hread
  obtain ⟨payload, hpayload, _, rfl⟩ := writeFrame_eq_some.mp hwrite
  obtain ⟨back, hback, rfl⟩ := sealBody_documented.mp hpayload
  have hrejected : ∃ e, openBody _ W.key (W.key.seal (PROTOCOL_VERSION :: back)) = .error e :=
    (openBody_seal_error_iff UdpBody.codec back).mpr ((TcpBody.decode_udp hback).mpr hrefused)
  obtain ⟨e, herror⟩ := hrejected
  exact absurd (herror.symm.trans hread) (by simp)

lemma not_parseFrame_of_refused (htcp : W.tcp.Documented TcpBody.codec)
    (hudp : W.udp.Documented UdpBody.codec) {u : UdpBody} {body : TcpBody} {left : Bytes}
    (hsend : u.encodeFrame W.udp W.key = some bytes) (hlen : bytes.length < 2 ^ 32)
    (hrefused : u.RefusedByTcp) :
    parseFrame W.tcp W.key (toBeBytes bytes.length ++ bytes) ≠ (.ok (some body), left) := by
  intro hparse
  rw [hudp] at hsend
  rw [htcp] at hparse
  have hsize := fromBeBytes_toBeBytes hlen
  obtain ⟨back, hback, hbytes⟩ := sealBody_documented.mp hsend
  have hrejected : ∃ e, openBody _ W.key (W.key.seal (PROTOCOL_VERSION :: back)) = .error e :=
    (openBody_seal_error_iff TcpBody.codec back).mpr ((UdpBody.decode_tcp hback).mpr hrefused)
  obtain ⟨e, herror⟩ := hrejected
  rw [← hbytes] at herror
  rcases Nat.lt_or_ge MAX_FRAME_LEN bytes.length with hlong | hfits
  · have hparse : parseFrame _ W.key (_ :: _ :: _ :: _ :: bytes) = _ := hparse
    rw [parseFrame_cons, hsize, if_pos hlong] at hparse
    exact absurd (Prod.mk.inj hparse).1 (by simp)
  · have hwhole : parseFrame (.documented TcpBody.codec) W.key
        (_ :: _ :: _ :: _ :: (bytes ++ [])) = _ := parseFrame_whole hfits hsize.symm []
    rw [List.append_nil] at hwhole
    have hparse : parseFrame _ W.key (_ :: _ :: _ :: _ :: bytes) = _ := hparse
    rw [hwhole, herror] at hparse
    exact absurd (Prod.mk.inj hparse).1 (by simp [Except.map])

/-- Who reads something from a connection has parsed what was written into it. -/
lemma Reads.exists_parse {conn : Conn} {parcel : Parcel} {packet : Packet}
    (hreads : W.Reads parcel packet)
    (hparcel : parcel = .request conn bytes ∨ parcel = .response conn bytes) :
    ∃ body left, parseFrame W.tcp W.key bytes = (.ok (some body), left) := by
  rcases hparcel with rfl | rfl
  · cases hreads with
    | request _ _ chunks body harrived hread => exact ⟨body, Wiring.exists_parse harrived hread⟩
  · cases hreads with
    | response _ _ chunks body harrived hread => exact ⟨body, Wiring.exists_parse harrived hread⟩

/-- Nobody reads anything in it. -/
lemma Stranger.not_reads (htcp : W.tcp.Documented TcpBody.codec)
    (hudp : W.udp.Documented UdpBody.codec) {wire : List Parcel} {parcel : Parcel}
    (hparcel : W.Stranger wire parcel) (packet : Packet) : ¬ W.Reads parcel packet := by
  intro hreads
  -- a frame without a right tag is not parsed
  have hforged : ∀ {bytes body left}, W.Forged bytes →
      parseFrame W.tcp W.key bytes ≠ (.ok (some body), left) := by
    intro bytes body left hforged hparse
    obtain ⟨payload, message, hpart, hopen⟩ := exists_open_of_parse hparse
    exact hforged payload hpart message hopen
  cases hparcel with
  | datagram src dst bytes hno =>
    obtain ⟨_, _, _, body, hread⟩ := hreads
    obtain ⟨message, hopen⟩ := open_of_openBody hread
    exact hno message hopen
  | request conn bytes hno =>
    obtain ⟨body, left, hparse⟩ := hreads.exists_parse (.inl rfl)
    exact hforged hno hparse
  | response conn bytes hno =>
    obtain ⟨body, left, hparse⟩ := hreads.exists_parse (.inr rfl)
    exact hforged hno hparse
  | frame src dst parcel conn body bytes _ _ hwrite hrefused hfits =>
    obtain ⟨_, _, _, u, hread⟩ := hreads
    rw [received, List.take_of_length_le hfits] at hread
    exact not_decodeFrame_of_refused htcp hudp hwrite hrefused hread
  | crossed src dst _ conn body bytes _ hsend hlen hrefused hparcel =>
    obtain ⟨body, left, hparse⟩ := hreads.exists_parse hparcel
    exact not_parseFrame_of_refused htcp hudp hsend hlen hrefused hparse

end Wiring

/-! ## In a network that holds more -/

/-- An operation does the same in a network that holds more, if what it takes is there once
more than before. -/
lemma Op.Run.widen {node : LocalNode} {now : Instant} {o : Op} {r : o.Res}
    {shared shared' : Shared} {taken sent net : List Packet}
    (hop : o.Run node now ⟨shared, taken⟩ r ⟨shared', sent⟩) (htaken : taken ⊆ net) :
    ∃ (spare : Option Packet) (net' : List Packet), (∀ packet ∈ spare, packet ∈ net) ∧
      o.Run node now ⟨shared, spare.toList ++ net⟩ r ⟨shared', net'⟩ ∧ net ⊆ net' ∧
      sent ⊆ net' := by
  cases o with
  | sendUdp | writeRequest | writeResponse =>
    cases r with
    | false =>
      obtain ⟨rfl, rfl⟩ := World.mk.inj hop
      exact ⟨none, net, by simp, rfl, List.Subset.refl _, htaken⟩
    | true =>
      obtain ⟨rfl, rfl⟩ := World.mk.inj hop
      exact ⟨none, _, by simp, rfl, List.subset_cons_self _ _, List.cons_subset_cons _ htaken⟩
  | connect addr =>
    cases r with
    | none =>
      obtain ⟨rfl, rfl⟩ := World.mk.inj hop
      exact ⟨none, net, by simp, rfl, List.Subset.refl _, htaken⟩
    | some conn =>
      obtain ⟨hconn, hworld⟩ := hop
      obtain ⟨rfl, rfl⟩ := World.mk.inj hworld
      exact ⟨none, net, by simp, ⟨hconn, rfl⟩, List.Subset.refl _, htaken⟩
  | readFrame conn =>
    cases r with
    | none =>
      obtain ⟨rfl, rfl⟩ := World.mk.inj hop
      exact ⟨none, net, by simp, rfl, List.Subset.refl _, htaken⟩
    | some body =>
      obtain ⟨hmem, hworld⟩ := hop
      obtain ⟨rfl, rfl⟩ := World.mk.inj hworld
      refine ⟨some (.response conn body), net, ?_, ⟨List.mem_cons_self, ?_⟩,
        List.Subset.refl _, ?_⟩
      · rintro _ ⟨⟩
        exact htaken hmem
      · show World.mk shared' net = ⟨shared', (_ :: net).erase _⟩
        rw [List.erase_cons_head]
      · exact fun packet hpacket => htaken (List.mem_of_mem_erase hpacket)
  -- the others do not reach the network
  | _ =>
    refine ⟨none, net, by simp, ?_, List.Subset.refl _, ?_⟩
    all_goals simp_all [Op.Run]

/-- A step does the same in a network that holds more. -/
lemma Step.widen {c c' : Cluster} {l : Label} (hstep : Step c l c') (hl : l.ofNetwork = false)
    {net : List Packet} (htaken : c.net ⊆ net) :
    ∃ (spare : Option Packet) (net' : List Packet), (∀ packet ∈ spare, packet ∈ net) ∧
      Step { c with net := spare.toList ++ net } l { c' with net := net' } ∧ net ⊆ net' ∧
      c'.net ⊆ net' := by
  cases hstep with
  | lose | duplicate | query => exact absurd hl (by simp [Label.ofNetwork])
  | tick elapsed => exact ⟨none, net, by simp, .tick _ elapsed, List.Subset.refl _, htaken⟩
  | start node seeds hnew hmay =>
    exact ⟨none, net, by simp, .start { c with net } node seeds hnew hmay, List.Subset.refl _,
      htaken⟩
  | begins q p slot kind hp hstopped haborted hidle h =>
    exact ⟨none, net, by simp, .begins { c with net } q p slot kind hp hstopped haborted hidle h,
      List.Subset.refl _, htaken⟩
  | finish q p slot kind out free hp hstopped htask hfree =>
    exact ⟨none, net, by simp, .finish { c with net } q p slot kind out free hp hstopped htask hfree,
      List.Subset.refl _, htaken⟩
  | cancel q p slot hp hstopped haborted hslot =>
    exact ⟨none, net, by simp, .cancel { c with net } q p slot hp hstopped haborted hslot,
      List.Subset.refl _, htaken⟩
  | stop q p hp =>
    exact ⟨none, net, by simp, .stop { c with net } q p hp, List.Subset.refl _, htaken⟩
  | receive q p src body hp hstopped haborted hidle hnet =>
    refine ⟨some (.udp src p.node.addr body), net, ?_, ?_, List.Subset.refl _,
      fun packet hpacket => htaken (List.mem_of_mem_erase hpacket)⟩
    · rintro _ ⟨⟩
      exact htaken hnet
    · have hstep := Step.receive { c with net := .udp src p.node.addr body :: net } q p src body hp
        hstopped haborted hidle List.mem_cons_self
      rwa [List.erase_cons_head] at hstep
  | accept q p n conn body hp hstopped haborted hidle hserver hnet =>
    refine ⟨some (.request conn body), net, ?_, ?_, List.Subset.refl _,
      fun packet hpacket => htaken (List.mem_of_mem_erase hpacket)⟩
    · rintro _ ⟨⟩
      exact htaken hnet
    · have hstep := Step.accept { c with net := .request conn body :: net } q p n conn body hp
        hstopped haborted hidle hserver List.mem_cons_self
      rwa [List.erase_cons_head] at hstep
  | op q p slot kind o next r shared sent hp hstopped htask hop =>
    obtain ⟨spare, net', hspare, hop', hle, hsent⟩ := hop.widen htaken
    exact ⟨spare, net', hspare, .op { c with net := spare.toList ++ net } q p slot kind o next r
      shared net' hp hstopped htask hop', hle, hsent⟩

/-! ## One step -/

/-- What a task is about to send fits. -/
lemma Run.fits (hudp : W.udp.Documented UdpBody.codec) (hrun : Run h)
    (hp : h.now.procs q = some p) (halive : p.stopped = false) {slot : Slot} {kind : Kind}
    {target : SocketAddr} {body : UdpBody} {next : Bool → Prog kind.Out}
    (htask : p.tasks slot = some ⟨kind, .step (.sendUdp target body) next⟩) :
    body.Fits W.udp W.key := by
  have hcov := sound_vouching.covers hrun
  obtain ⟨h₀, _, hkeeps⟩ := hrun.conduct hp halive htask
  have hspeaks : Speaks h₀ q slot kind target body h := hkeeps.step.1
  have htold : vouching.Udp h body := (hcov.tasks hp halive htask).2.step.1.told
  have htags : ∀ r ∈ body.records, checkTags r.tags = .ok () :=
    fun r hr => (vouched_of_udp htold hr).authored.checkTags hrun
  obtain ⟨r, hr, hsame⟩ := body.exists_own_record
  refine UdpBody.fits hudp W.key ?_ hspeaks.gossip fun r hr =>
    htags r (UdpBody.mem_records_of_gossip hr)
  rw [← hsame]
  exact htags r hr

/-- What a process hands to the network fits. -/
lemma Step.fits (hudp : W.udp.Documented UdpBody.codec) (hrun : Run h) {c c' : Cluster}
    {l : Label} (hprocs : h.now.procs = c.procs) (hstep : Step c l c') (hl : l.ofNetwork = false)
    {src dst : SocketAddr} {body : UdpBody} (hnew : .udp src dst body ∉ c.net)
    (hsent : .udp src dst body ∈ c'.net) : body.Fits W.udp W.key := by
  rcases hstep.mem_net hsent with hold | ⟨conn, _, _, rfl⟩ | hsends
  · exact absurd hold hnew
  · exact absurd hl (by simp [Label.ofNetwork])
  · obtain ⟨q, p, slot, kind, o, next, r, hp, halive, htask, _, hsends⟩ := hsends
    rw [← hprocs] at hp
    cases o with
    | sendUdp target body' =>
      cases r with
      | false => exact absurd hsends (by simp [Op.sends])
      | true =>
        obtain ⟨_, _, rfl⟩ := Packet.udp.inj (Option.some.inj hsends)
        exact hrun.fits hudp hp halive htask
    | writeRequest | writeResponse => cases r <;> exact absurd hsends (by simp [Op.sends])
    | _ => exact absurd hsends (by simp [Op.sends])

lemma exists_duplicate {spare : Option Packet} (hspare : ∀ packet ∈ spare, packet ∈ h.now.net) :
    ∃ h', Later h h' ∧ h'.seen Label.shown = h.seen Label.shown ∧
      h'.now = { h.now with net := spare.toList ++ h.now.net } := by
  cases spare with
  | none => exact ⟨h, .refl h, rfl, rfl⟩
  | some packet =>
    exact ⟨_, .single (.duplicate h.now packet (hspare packet rfl)), rfl, rfl⟩

lemma Label.shown_of_not_network {l : Label} (hl : l.ofNetwork = false) : l.shown = some l := by
  cases l <;> first | rfl | exact absurd hl (by simp [Label.ofNetwork])

/-- The cluster of messages can match every step of the one in bytes. -/
lemma carries_simulates (htcp : W.tcp.Documented TcpBody.codec)
    (hudp : W.udp.Documented UdpBody.codec) :
    History.Simulates (WireStep W) (fun w => w = .empty) WireLabel.shown Step
      (fun c => c = .empty) Label.shown (Carries W) where
  start := by
    rintro _ rfl
    exact ⟨.empty, rfl, rfl, rfl, fun parcel hparcel => absurd hparcel List.not_mem_nil⟩
  step := by
    have hfaithful : W.tcp.Faithful := htcp ▸ Postcard.faithful_documented _
    have hfaithful' : W.udp.Faithful := hudp ▸ Postcard.faithful_documented _
    intro w h l w' _ hrun hcarries hstep
    cases hstep with
    | stranger parcel hparcel =>
      refine ⟨h, .refl h, rfl, hcarries.clock, hcarries.procs, ?_⟩
      intro parcel' hmem packet hreads
      rcases List.mem_cons.mp hmem with rfl | hmem
      · -- what a stranger writes reads as no message, so the cluster of messages stays as it is
        exact absurd hreads (hparcel.not_reads htcp hudp packet)
      · exact hcarries.reads parcel' hmem packet hreads
    | query conn parcel hconn hwrite =>
      refine ⟨_, .single (.query h.now conn hconn), rfl, hcarries.clock, hcarries.procs, ?_⟩
      intro parcel' hmem packet hreads
      rcases List.mem_cons.mp hmem with rfl | hmem
      · rw [hwrite.eq_of_reads hfaithful hfaithful' (by simp) hreads]
        exact List.mem_cons_self
      · exact List.mem_cons_of_mem _ (hcarries.reads parcel' hmem packet hreads)
    | step l clock procs taken sent parcels hl htaken hstep hsent =>
      have hin : taken ⊆ h.now.net := by
        intro packet hpacket
        obtain ⟨_, parcel, hparcel, hreads⟩ := htaken packet hpacket
        exact hcarries.reads parcel hparcel packet hreads
      -- bytes can be read again and again, so the message is duplicated before it is taken
      obtain ⟨spare, net', hspare, hwide, hle, hsub⟩ := hstep.widen hl hin
      obtain ⟨h₁, hlater, hseen, hnow⟩ := exists_duplicate hspare
      have hsame : h₁.now = ⟨w.now.clock, w.now.procs, spare.toList ++ h.now.net⟩ := by
        rw [hnow, ← hcarries.clock, ← hcarries.procs]
      refine ⟨h₁.push l ⟨clock, procs, net'⟩, hlater.push (hsame ▸ hwide), ?_, rfl, rfl, ?_⟩
      · rw [History.seen_push, hseen, Label.shown_of_not_network hl]
        rfl
      · intro parcel hmem packet hreads
        rcases List.mem_append.mp hmem with hnew | hold
        · obtain ⟨i, hi, rfl⟩ := List.mem_iff_getElem.mp hnew
          have hi' : i < sent.length := hsent.length_eq ▸ hi
          have hwrites : W.Writes sent[i] parcels[i] := hsent.get hi' hi
          have hmem' : sent[i] ∈ sent := List.getElem_mem hi'
          rw [hwrites.eq_of_reads hfaithful hfaithful' ?_ hreads]
          · exact hsub hmem'
          · intro src dst body heq
            rw [heq] at hmem'
            exact Step.fits hudp hrun hcarries.procs hstep hl
              (fun hold => (htaken _ hold).1 hmem') hmem'
        · exact hle (hcarries.reads parcel hold packet hreads)

/-! ## In a network that holds no more than it takes -/

/-- An operation does the same in a network that holds only what it takes. -/
lemma Op.Run.narrow {node : LocalNode} {now : Instant} {o : Op} {r : o.Res}
    {shared shared' : Shared} {net net' : List Packet}
    (hop : o.Run node now ⟨shared, net⟩ r ⟨shared', net'⟩) :
    ∃ taken sent : Option Packet, (taken = none ∨ sent = none) ∧ (∀ packet ∈ taken, packet ∈ net) ∧
      o.Run node now ⟨shared, taken.toList⟩ r ⟨shared', sent.toList⟩ ∧
      ∀ packet ∈ net', packet ∈ net ∨ packet ∈ sent := by
  cases o with
  | sendUdp | writeRequest | writeResponse =>
    cases r with
    | false =>
      obtain ⟨rfl, rfl⟩ := World.mk.inj hop
      exact ⟨none, none, .inl rfl, by simp, rfl, fun _ => .inl⟩
    | true =>
      obtain ⟨rfl, rfl⟩ := World.mk.inj hop
      refine ⟨none, some _, .inl rfl, by simp, rfl, fun packet hpacket => ?_⟩
      rcases List.mem_cons.mp hpacket with rfl | hold
      · exact .inr rfl
      · exact .inl hold
  | connect addr =>
    cases r with
    | none =>
      obtain ⟨rfl, rfl⟩ := World.mk.inj hop
      exact ⟨none, none, .inl rfl, by simp, rfl, fun _ => .inl⟩
    | some conn =>
      obtain ⟨hconn, hworld⟩ := hop
      obtain ⟨rfl, rfl⟩ := World.mk.inj hworld
      exact ⟨none, none, .inl rfl, by simp, ⟨hconn, rfl⟩, fun _ => .inl⟩
  | readFrame conn =>
    cases r with
    | none =>
      obtain ⟨rfl, rfl⟩ := World.mk.inj hop
      exact ⟨none, none, .inl rfl, by simp, rfl, fun _ => .inl⟩
    | some body =>
      obtain ⟨hmem, hworld⟩ := hop
      obtain ⟨rfl, rfl⟩ := World.mk.inj hworld
      refine ⟨some (.response conn body), none, .inr rfl, ?_, ⟨List.mem_cons_self, ?_⟩,
        fun packet hpacket => .inl (List.mem_of_mem_erase hpacket)⟩
      · rintro _ ⟨⟩
        exact hmem
      · show World.mk shared' [] = ⟨shared', [_].erase _⟩
        rw [List.erase_cons_head]
  -- the others do not reach the network
  | _ =>
    refine ⟨none, none, .inl rfl, by simp, ?_, ?_⟩
    all_goals simp_all [Op.Run]

/-- A step does the same in a network that holds only what it takes. -/
lemma Step.narrow {c c' : Cluster} {l : Label} (hstep : Step c l c') (hl : l.ofNetwork = false) :
    ∃ taken sent : Option Packet, (taken = none ∨ sent = none) ∧
      (∀ packet ∈ taken, packet ∈ c.net) ∧
      Step { c with net := taken.toList } l { c' with net := sent.toList } ∧
      ∀ packet ∈ c'.net, packet ∈ c.net ∨ packet ∈ sent := by
  cases hstep with
  | lose | duplicate | query => exact absurd hl (by simp [Label.ofNetwork])
  | tick elapsed => exact ⟨none, none, .inl rfl, by simp, .tick _ elapsed, fun _ => .inl⟩
  | start node seeds hnew hmay =>
    exact ⟨none, none, .inl rfl, by simp, .start { c with net := [] } node seeds hnew hmay,
      fun _ => .inl⟩
  | begins q p slot kind hp hstopped haborted hidle h =>
    exact ⟨none, none, .inl rfl, by simp,
      .begins { c with net := [] } q p slot kind hp hstopped haborted hidle h, fun _ => .inl⟩
  | finish q p slot kind out free hp hstopped htask hfree =>
    exact ⟨none, none, .inl rfl, by simp,
      .finish { c with net := [] } q p slot kind out free hp hstopped htask hfree, fun _ => .inl⟩
  | cancel q p slot hp hstopped haborted hslot =>
    exact ⟨none, none, .inl rfl, by simp,
      .cancel { c with net := [] } q p slot hp hstopped haborted hslot, fun _ => .inl⟩
  | stop q p hp =>
    exact ⟨none, none, .inl rfl, by simp, .stop { c with net := [] } q p hp, fun _ => .inl⟩
  | receive q p src body hp hstopped haborted hidle hnet =>
    refine ⟨some (.udp src p.node.addr body), none, .inr rfl, ?_, ?_,
      fun packet hpacket => .inl (List.mem_of_mem_erase hpacket)⟩
    · rintro _ ⟨⟩
      exact hnet
    · have hstep := Step.receive { c with net := [.udp src p.node.addr body] } q p src body hp
        hstopped haborted hidle List.mem_cons_self
      rwa [List.erase_cons_head] at hstep
  | accept q p n conn body hp hstopped haborted hidle hserver hnet =>
    refine ⟨some (.request conn body), none, .inr rfl, ?_, ?_,
      fun packet hpacket => .inl (List.mem_of_mem_erase hpacket)⟩
    · rintro _ ⟨⟩
      exact hnet
    · have hstep := Step.accept { c with net := [.request conn body] } q p n conn body hp
        hstopped haborted hidle hserver List.mem_cons_self
      rwa [List.erase_cons_head] at hstep
  | op q p slot kind o next r shared net' hp hstopped htask hop =>
    obtain ⟨taken, sent, hone, htaken, hop', hsent⟩ := hop.narrow
    exact ⟨taken, sent, hone, htaken, .op { c with net := taken.toList } q p slot kind o next r
      shared sent.toList hp hstopped htask hop', hsent⟩

/-! ## Every run in bytes -/

lemma Label.Taken.of_sends {node : LocalNode} {slot : Slot} {kind : Kind} {o : Op} {r : o.Res}
    {packet : Packet} (htaken : (Label.op q slot kind o r).Taken W)
    (hsends : o.sends node r = some packet) : packet.Taken W := by
  cases o with
  | sendUdp target body =>
    cases r with
    | false => exact absurd hsends (by simp [Op.sends])
    | true =>
      obtain rfl := Option.some.inj hsends
      trivial
  | writeRequest conn body | writeResponse conn body =>
    cases r with
    | false => exact absurd hsends (by simp [Op.sends])
    | true =>
      obtain rfl := Option.some.inj hsends
      exact htaken
  | _ => exact absurd hsends (by simp [Op.sends])

namespace Wiring

lemma firstFrame_of_writeFrame (htcp : W.tcp.Faithful) {body : TcpBody}
    (hwrite : writeFrame W.tcp W.key body = some bytes) (hfits : bytes.length ≤ MAX_FRAME_LEN + 4) :
    W.firstFrame [bytes] = .ok (some body) := by
  have hattempt : (tcpReader W.tcp W.key).attempt ([] ++ bytes) = (.ok (some body), []) := by
    have hparse := parseFrame_writeFrame htcp hwrite hfits []
    rw [List.append_nil] at hparse
    exact hparse
  have hempty : (tcpReader W.tcp W.key).attempt [] = (.ok none, []) := rfl
  show ((tcpReader W.tcp W.key).next [bytes] []).1 = _
  rw [FrameReader.next_of_more hempty, FrameReader.next_of_frame hattempt]

/-- What fits is written and read. -/
lemma exists_parcel (htcp : W.tcp.Faithful) (hudp : W.udp.Faithful) {packet : Packet}
    (hfits : ∀ src dst body, packet = .udp src dst body → body.Fits W.udp W.key)
    (htaken : packet.Taken W) :
    ∃ parcel, W.Writes packet parcel ∧ W.Reads parcel packet := by
  cases packet with
  | udp src dst body =>
    obtain ⟨datagram, hsend, hlen⟩ := hfits src dst body rfl
    refine ⟨_, .datagram src dst body datagram hsend, .datagram _ _ _ _ ?_⟩
    rw [received, List.take_of_length_le hlen]
    exact openBody_sealBody hudp hsend
  | request conn body =>
    obtain ⟨frame, hwrite, hlen⟩ := htaken
    exact ⟨_, .request conn body frame hwrite, .request _ _ [frame] _ (by simp)
      (firstFrame_of_writeFrame htcp hwrite hlen)⟩
  | response conn body =>
    obtain ⟨frame, hwrite, hlen⟩ := htaken
    exact ⟨_, .response conn body frame hwrite, .response _ _ [frame] _ (by simp)
      (firstFrame_of_writeFrame htcp hwrite hlen)⟩

/-- A request for the members is always taken. -/
lemma takes_membersRequest (htcp : W.tcp.Documented TcpBody.codec) : W.Takes .membersRequest := by
  have hspans : TcpBody.codec.Spans 1 1 .membersRequest := ⟨[2], rfl, le_refl _, le_refl _⟩
  exact takes_of_spans htcp hspans (by decide)

end Wiring

/-- The messages in the network can be read from the wire. -/
structure Delivers (W : Wiring) (c : Cluster) (w : WireCluster) : Prop where
  clock : w.clock = c.clock
  procs : w.procs = c.procs
  reads : ∀ packet ∈ c.net, ∃ parcel ∈ w.wire, W.Reads parcel packet

/-- What a process hands to the network can be written and read. -/
lemma Step.exists_parcel (htcp : W.tcp.Documented TcpBody.codec)
    (hudp : W.udp.Documented UdpBody.codec) (hrun : Run h) {c c' : Cluster} {l : Label}
    (hprocs : h.now.procs = c.procs) (hstep : Step c l c') (hl : l.ofNetwork = false)
    (htaken : l.Taken W) {packet : Packet} (hnew : packet ∉ c.net) (hsent : packet ∈ c'.net) :
    ∃ parcel, W.Writes packet parcel ∧ W.Reads parcel packet := by
  have hfaithful : W.tcp.Faithful := htcp ▸ Postcard.faithful_documented _
  have hfaithful' : W.udp.Faithful := hudp ▸ Postcard.faithful_documented _
  refine Wiring.exists_parcel hfaithful hfaithful' ?_ ?_
  · rintro src dst body rfl
    exact hstep.fits hudp hrun hprocs hl hnew hsent
  · rcases hstep.mem_net hsent with hold | ⟨conn, _, _, rfl⟩ | hsends
    · exact absurd hold hnew
    · exact absurd hl (by simp [Label.ofNetwork])
    · obtain ⟨q, p, slot, kind, o, next, r, _, _, _, rfl, hsends⟩ := hsends
      exact htaken.of_sends hsends

/-- The cluster in bytes can match every step of the one of messages. -/
lemma delivers_simulates (htcp : W.tcp.Documented TcpBody.codec)
    (hudp : W.udp.Documented UdpBody.codec) :
    History.Simulates (fun c l c' => Step c l c' ∧ l.Taken W) (fun c => c = .empty) Label.shown
      (WireStep W) (fun w => w = .empty) WireLabel.shown (Delivers W) where
  start := by
    rintro _ rfl
    exact ⟨.empty, rfl, rfl, rfl, fun packet hpacket => absurd hpacket List.not_mem_nil⟩
  step := by
    have hfaithful : W.tcp.Faithful := htcp ▸ Postcard.faithful_documented _
    have hfaithful' : W.udp.Faithful := hudp ▸ Postcard.faithful_documented _
    intro h w l c hrun _ hdelivers hstep
    obtain ⟨hstep, htakes⟩ := hstep
    have hrun : Run h := by
      obtain ⟨s, hs, hext⟩ := hrun
      exact ⟨s, hs, hext.mono fun _ _ _ hstep => hstep.1⟩
    -- what the network loses or copies stays on the wire: only the other steps need one in bytes
    by_cases hl : l.ofNetwork = false
    · obtain ⟨taken, sent, hone, htaken, hnarrow, hsent⟩ := hstep.narrow hl
      have hparcel : ∀ packet ∈ sent, ∃ parcel, W.Writes packet parcel ∧ W.Reads parcel packet := by
        intro packet hpacket
        refine Step.exists_parcel (c := { h.now with net := taken.toList }) htcp hudp hrun rfl
          hnarrow hl htakes ?_ (by simpa using hpacket)
        -- no operation both takes from the network and adds to it
        rcases hone with rfl | rfl
        · simp
        · exact absurd hpacket (by simp)
      obtain ⟨parcels, hwrites, hreads⟩ : ∃ parcels, List.Forall₂ W.Writes sent.toList parcels ∧
          ∀ packet ∈ sent, ∃ parcel ∈ parcels, W.Reads parcel packet := by
        cases sent with
        | none => exact ⟨[], .nil, by simp⟩
        | some packet =>
          obtain ⟨parcel, hwrites, hreads⟩ := hparcel packet rfl
          refine ⟨[parcel], .cons hwrites .nil, ?_⟩
          rintro _ ⟨⟩
          exact ⟨parcel, List.mem_cons_self, hreads⟩
      have hstep' : WireStep W w.now (.step l) ⟨c.clock, c.procs, parcels ++ w.now.wire⟩ := by
        refine .step w.now l c.clock c.procs taken.toList sent.toList parcels hl ?_ ?_ hwrites
        · intro packet hpacket
          refine ⟨?_, hdelivers.reads packet (htaken packet (by simpa using hpacket))⟩
          rcases hone with rfl | rfl
          · exact absurd hpacket (by simp)
          · simp
        · rw [hdelivers.clock, hdelivers.procs]
          exact hnarrow
      refine ⟨_, .single hstep', ?_, rfl, rfl, ?_⟩
      · rw [History.seen_push, Label.shown_of_not_network hl]
        rfl
      · intro packet hpacket
        rcases hsent packet hpacket with hold | hnew
        · obtain ⟨parcel, hparcel, hreads⟩ := hdelivers.reads packet hold
          exact ⟨parcel, List.mem_append_right _ hparcel, hreads⟩
        · obtain ⟨parcel, hparcel, hreads⟩ := hreads packet hnew
          exact ⟨parcel, List.mem_append_left _ hparcel, hreads⟩
    · cases hstep with
      | lose packet hnet =>
        exact ⟨w, .refl w, rfl, hdelivers.clock, hdelivers.procs,
          fun packet hpacket => hdelivers.reads packet (List.mem_of_mem_erase hpacket)⟩
      | duplicate packet hnet =>
        refine ⟨w, .refl w, rfl, hdelivers.clock, hdelivers.procs, fun packet' hpacket => ?_⟩
        rcases List.mem_cons.mp hpacket with rfl | hold
        · exact hdelivers.reads _ hnet
        · exact hdelivers.reads _ hold
      | query conn hconn =>
        have hparcel : ∃ parcel, W.Writes (.request conn .membersRequest) parcel ∧
            W.Reads parcel (.request conn .membersRequest) :=
          Wiring.exists_parcel hfaithful hfaithful' (by simp) (Wiring.takes_membersRequest htcp)
        obtain ⟨parcel, hwrites, hreads⟩ := hparcel
        refine ⟨_, .single (.query w.now conn parcel hconn hwrites), rfl, hdelivers.clock,
          hdelivers.procs, fun packet hpacket => ?_⟩
        rcases List.mem_cons.mp hpacket with rfl | hold
        · exact ⟨parcel, List.mem_cons_self, hreads⟩
        · obtain ⟨parcel', hparcel, hreads'⟩ := hdelivers.reads packet hold
          exact ⟨parcel', List.mem_cons_of_mem _ hparcel, hreads'⟩
      | _ => exact absurd rfl hl

/-! ## The two clusters -/

/-- The messages of a documented cluster with the sample key. -/
def Wiring.sample : Wiring where
  tcp := .documented TcpBody.codec
  udp := .documented UdpBody.codec
  key := .sample

/-- Strangers on the wire that neither have a right tag nor replay what can be read elsewhere: with
them a cluster in bytes does nothing that the cluster of messages does not do. Its processes take
the same steps, and what they can read at the end are messages that are there. -/
theorem bytes_refine_messages (htcp : W.tcp.Documented TcpBody.codec)
    (hudp : W.udp.Documented UdpBody.codec) {w : WireTrace} (hrun : WireRun W w) :
    ∃ h : Trace, Run h ∧ h.seen Label.shown = w.seen WireLabel.shown ∧
      h.now.clock = w.now.clock ∧ h.now.procs = w.now.procs ∧
      ∀ parcel ∈ w.now.wire, ∀ packet, W.Reads parcel packet → packet ∈ h.now.net := by
  obtain ⟨h, hrun', hseen, hcarries⟩ := (carries_simulates htcp hudp).exists_run hrun
  exact ⟨h, hrun', hseen, hcarries.clock, hcarries.procs, hcarries.reads⟩

/-- Somebody without the key, and a node that starts all the same. -/
theorem bytes_refine_messages_intruded : ∃ (w : WireTrace) (h : Trace),
    WireRun .sample w ∧ w.now.wire.length = 1 ∧ Run h ∧
      h.seen Label.shown = [.start alpha []] ∧ h.now.procs = w.now.procs := by
  have htcp : Wiring.sample.tcp.Documented TcpBody.codec := rfl
  have hudp : Wiring.sample.udp.Documented UdpBody.codec := rfl
  -- four bytes are too short for a tag
  have hforged : ∀ message, ClusterKey.sample.open (Wiring.received [6, 4, 0, 0]) ≠ .ok message := by
    intro message hopen
    exact absurd (ClusterKey.eq_seal_of_open _ hopen ▸ ClusterKey.length_seal _ message)
      (by simp [Wiring.received, TAG_LEN, MAX_DATAGRAM_LEN])
  have hrun : WireRun .sample (((History.init WireCluster.empty).push (.stranger _) _).push
      (.step (.start alpha [])) _) :=
    ⟨.empty, rfl, .push (.single (.stranger .empty (.datagram alpha.addr beta.addr [6, 4, 0, 0])
      (.datagram _ _ _ hforged))) (.step _ (.start alpha []) 0 _ [] [] [] rfl (by simp)
        (.start ⟨0, fun _ => none, []⟩ alpha [] rfl alpha_mayStart) .nil)⟩
  obtain ⟨h, hrun', hseen, _, hprocs, _⟩ := bytes_refine_messages htcp hudp hrun
  exact ⟨_, h, hrun, rfl, hrun', hseen, hprocs⟩

/-- A run of messages as one of bytes. -/
lemma exists_wireRun (htcp : W.tcp.Documented TcpBody.codec) (hudp : W.udp.Documented UdpBody.codec)
    {N : ℕ} (hrun : Run h) (hsize : h.now.AtMost N) (hN : 156 + N * 113 ≤ MAX_FRAME_LEN) :
    ∃ w : WireTrace, WireRun W w ∧ w.seen WireLabel.shown = h.seen Label.shown ∧
      Delivers W h.now w.now := by
  obtain ⟨c, hc, hext⟩ := hrun
  have htaken := hext.of_past (Run.taken htcp ⟨c, hc, hext⟩ hsize hN)
  exact (delivers_simulates htcp hudp).exists_run ⟨c, hc, htaken⟩

/-- A cluster of messages does nothing that one in bytes could not do, as long as a table fits a
frame. -/
theorem messages_run_in_bytes (htcp : W.tcp.Documented TcpBody.codec)
    (hudp : W.udp.Documented UdpBody.codec) {N : ℕ} (hrun : Run h) (hsize : h.now.AtMost N)
    (hN : 156 + N * 113 ≤ MAX_FRAME_LEN) :
    ∃ w : WireTrace, WireRun W w ∧ w.seen WireLabel.shown = h.seen Label.shown ∧
      w.now.clock = h.now.clock ∧ w.now.procs = h.now.procs ∧
      ∀ packet ∈ h.now.net, ∃ parcel ∈ w.now.wire, W.Reads parcel packet := by
  obtain ⟨w, hrun', hseen, hdelivers⟩ := exists_wireRun htcp hudp hrun hsize hN
  exact ⟨w, hrun', hseen, hdelivers.clock, hdelivers.procs, hdelivers.reads⟩

/-- Two nodes that know each other. -/
theorem messages_run_in_bytes_pair : ∃ (w : WireTrace) (p : Process), WireRun .sample w ∧
    w.now.procs alpha.id = some p ∧ p.shared.table.len = 1 := by
  obtain ⟨h, shared, shared', hrun, hnow, _, _, hmembers, _⟩ :=
    exists_pair alpha_ne_beta alpha_mayStart beta_mayStart
  have hp : h.now.procs alpha.id = some { Process.new alpha [] with shared := shared } := by
    rw [hnow]
    exact Cluster.procs_pair_left alpha_ne_beta
  have hsize : h.now.AtMost 2 := hnow ▸ Cluster.atMost_pair ..
  obtain ⟨w, hrun', _, _, hprocs, _⟩ := messages_run_in_bytes (W := .sample) rfl rfl hrun hsize
    (by decide)
  refine ⟨w, _, hrun', hprocs ▸ hp, ?_⟩
  show shared.table.members.length = 1
  rw [hmembers, List.length_singleton]

/-! ## What nobody can do without the key -/

/-- Every process was started. -/
lemma Run.exists_start (hrun : Run h) (hp : h.now.procs q = some p) :
    ∃ seeds, .start p.node seeds ∈ h.seen Label.shown := by
  have hall : ∀ q p, h.now.procs q = some p → ∃ seeds, .start p.node seeds ∈ h.seen Label.shown := by
    refine History.IsRun.induction (P := fun h => ∀ q p, h.now.procs q = some p →
      ∃ seeds, .start p.node seeds ∈ h.seen Label.shown) hrun ?_ ?_
    · rintro c rfl q p hp
      exact absurd hp (by simp [History.init, Cluster.empty])
    · intro h l c _ ih hstep q p' hp'
      rw [History.seen_push]
      rcases hstep.proc_cases hp' with ⟨p, hp, hev⟩ | ⟨_, node, seeds, rfl, _, _, rfl⟩
      · obtain ⟨seeds, hseeds⟩ := ih q p hp
        rw [hev.node]
        exact ⟨seeds, List.mem_append_right _ hseeds⟩
      · exact ⟨seeds, List.mem_append_left _ List.mem_cons_self⟩
  exact hall q p hp

lemma mem_seen_of_past {c : Cluster} {l : Label} (hshown : l.shown = some l)
    (hmem : ⟨c, l⟩ ∈ h.past) : l ∈ h.seen Label.shown :=
  List.mem_filterMap.mpr ⟨_, hmem, hshown⟩

/-- Strangers that neither have a right tag nor replay what can be read elsewhere add nobody and
declare nobody dead. Every member of a table was started in this cluster, at that address, with
these tags, and its incarnation there is no higher than its own; and if it is dead, it has left, or
some detector suspected it after a probe of its own had failed. -/
theorem nobody_is_made_up (htcp : W.tcp.Documented TcpBody.codec)
    (hudp : W.udp.Documented UdpBody.codec) {w : WireTrace} (hrun : WireRun W w)
    (hp : w.now.procs q = some p) {m : Member} (hm : m ∈ p.shared.table.members) :
    (∃ subject seeds, w.now.procs m.id = some subject ∧
      .start subject.node seeds ∈ w.seen WireLabel.shown ∧ subject.node.addr = m.addr ∧
      subject.node.tags = m.tags ∧ m.incarnation ≤ subject.shared.guarded.incarnation) ∧
    (m.state.isDead = true →
      (∃ slot kind, .op m.id slot kind .leave () ∈ w.seen WireLabel.shown) ∨
      ∃ (q' : NodeId) (target : Member) (later earlier : List Label), target.id = m.id ∧
        target.incarnation = m.incarnation ∧
        w.seen WireLabel.shown = later ++ .op q' .detector (.judging target false)
          (.merge (markRumor target .suspect) q') .updated :: earlier ∧
        .finish q' .detector (.probing target) false ∈ earlier) := by
  obtain ⟨h, hrun', hseen, hcarries⟩ := (carries_simulates htcp hudp).exists_run hrun
  have hrun' : Run h := hrun'
  rw [← hcarries.procs] at hp ⊢
  rw [← hseen]
  have hvouched := hrun'.vouched (.entry q p m hp hm)
  constructor
  · obtain ⟨subject, hsubject, haddr, htags, hle⟩ := hvouched.authored.exists_process hrun'
    obtain ⟨seeds, hseeds⟩ := hrun'.exists_start hsubject
    exact ⟨subject, seeds, hsubject, hseeds, haddr, htags, hle⟩
  · intro hdead
    have hstate : (WireMember.new m).state = .dead := MemberState.isDead_iff.mp hdead
    rcases hvouched.dead hstate with ⟨_, _, _, _, c, slot, kind, hmem⟩ | ⟨t, _, hs⟩
    · exact .inl ⟨slot, kind, mem_seen_of_past rfl hmem⟩
    · obtain ⟨q', target, later, marked, earlier, _, _, probed, hid, hi, hpast, _, _, _, _, _, hmem⟩ :=
        hs
      refine .inr ⟨q', target, later.filterMap fun m => m.label.shown,
        earlier.filterMap fun m => m.label.shown, hid, hi, ?_, ?_⟩
      · unfold History.seen
        rw [hpast, List.filterMap_append]
        rfl
      · exact List.mem_filterMap.mpr ⟨_, hmem, rfl⟩

/-- The second of two nodes, as the first has it. -/
theorem nobody_is_made_up_pair : ∃ (w : WireTrace) (p : Process) (m : Member), WireRun .sample w ∧
    w.now.procs alpha.id = some p ∧ m ∈ p.shared.table.members ∧
    ∃ subject seeds, w.now.procs m.id = some subject ∧
      .start subject.node seeds ∈ w.seen WireLabel.shown := by
  obtain ⟨h, shared, shared', hrun, hnow, _, _, hmembers, _⟩ :=
    exists_pair alpha_ne_beta alpha_mayStart beta_mayStart
  have hp : h.now.procs alpha.id = some { Process.new alpha [] with shared := shared } := by
    rw [hnow]
    exact Cluster.procs_pair_left alpha_ne_beta
  have hsize : h.now.AtMost 2 := hnow ▸ Cluster.atMost_pair ..
  obtain ⟨w, hrun', _, hdelivers⟩ := exists_wireRun (W := .sample) rfl rfl hrun hsize (by decide)
  have hp' : w.now.procs alpha.id = some { Process.new alpha [] with shared := shared } :=
    hdelivers.procs ▸ hp
  have hm : (beta.aliveRumor Guarded.new.current).toMember 0 ∈ shared.table.members := by
    rw [hmembers]
    exact List.mem_cons_self
  obtain ⟨⟨subject, seeds, hsubject, hstart, _⟩, _⟩ :=
    nobody_is_made_up (W := .sample) rfl rfl hrun' hp' hm
  exact ⟨w, _, _, hrun', hp', hm, subject, seeds, hsubject, hstart⟩

end Dalila
