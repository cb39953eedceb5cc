import Dalila.Wire

/-!
# Datagrams and the probes waiting for them
-/

namespace Dalila

/-- How long a probe waits for its ack before the target counts as unreachable. -/
def PROBE_TIMEOUT : Instant := 500

/-- How long the indirect round waits for the first relay to report back. -/
def INDIRECT_TIMEOUT : Instant := 600

inductive UdpBody where
  | ping (seq : UInt32) («from» : WireIdentity) (gossip : List WireMember)
  | ack (seq : UInt32) («from» : WireIdentity) (gossip : List WireMember)
  /-- "Our own probe of `target` got nothing. Try it for us." -/
  | pingReq (seq : UInt32) («from» : WireIdentity) (target : NodeId) (gossip : List WireMember)
  /-- "Your target answered me." -/
  | pingReqAck (seq : UInt32) («from» : WireIdentity) (target : NodeId) (gossip : List WireMember)
  /-- "I'm shutting down. Count me as dead." -/
  | leave («from» : WireIdentity)
deriving DecidableEq, Repr

/-! ## Probes in flight -/

/-- One end of a `oneshot` channel. -/
abbrev Channel := ℕ

/-- Probes in flight, by sequence number, with the node each one asks about and the channel
its answer should arrive on. `opened` counts the channels made, `sent` are those a value was
sent on. -/
structure PendingAcks where
  waiting : UInt32 → Option (NodeId × Channel)
  nextSeq : UInt32
  opened : ℕ
  sent : List Channel

namespace PendingAcks

def new : PendingAcks where
  waiting _ := none
  nextSeq := 0
  opened := 0
  sent := []

/-- `next_seq.fetch_add(1)`, which wraps. -/
def fetchSeq (pending : PendingAcks) : UInt32 × PendingAcks :=
  (pending.nextSeq, { pending with nextSeq := pending.nextSeq + 1 })

/-- Wait for an answer about `subject`. -/
def register (pending : PendingAcks) (seq : UInt32) (subject : NodeId) : Channel × PendingAcks :=
  (pending.opened,
    { pending with
      waiting := Function.update pending.waiting seq (some (subject, pending.opened))
      opened := pending.opened + 1 })

/-- Drop a probe that gave up. -/
def forget (pending : PendingAcks) (seq : UInt32) : PendingAcks :=
  { pending with waiting := Function.update pending.waiting seq none }

/-- Only an answer about the node we asked about counts. -/
def resolve (pending : PendingAcks) (seq : UInt32) (subject : NodeId) : PendingAcks :=
  match pending.waiting seq with
  | some (asked, channel) =>
    if asked = subject then
      { pending with
        waiting := Function.update pending.waiting seq none
        sent := channel :: pending.sent }
    else pending
  | none => pending

end PendingAcks

end Dalila
