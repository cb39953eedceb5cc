import Dalila.Programs.Udp

/-!
# What the failure detector and the health check run
-/

namespace Dalila

open Op (call)

/-- How long a member stays suspect before it is declared dead. -/
def SUSPICION_TIMEOUT : Instant := 5000

/-- How long a dead member is kept in the table before it is dropped for good. -/
def REAP_TIMEOUT : Instant := 30000

/-- How many peers are asked to try a target our own probe couldn't reach. -/
def INDIRECT_PROBES : ℕ := 3

/-! ## Choosing a target -/

/-- What's left of one shuffle. The head of `order` is the end `pop` takes from. -/
def nextInPass : List NodeId → Prog (Option Member × List NodeId)
  | [] => pure (none, [])
  | id :: order => do
    match ← call (.get id) with
    | some member => if member.state.isDead then nextInPass order else pure (some member, order)
    | none => nextInPass order

/-- The passes `next_target` has left, each followed by a fresh shuffle if it came up empty. -/
def nextInPasses : ℕ → List NodeId → Prog (Option Member × List NodeId)
  | 0, order => pure (none, order)
  | passes + 1, order => do
    match ← nextInPass order with
    | (some member, rest) => pure (some member, rest)
    | (none, _) => do
      let order ← call .shuffledIds
      nextInPasses passes order

/-- The next member to probe, skipping ones that are dead or no longer in the table, with
what is left of the order. -/
def nextTarget (order : List NodeId) : Prog (Option Member × List NodeId) :=
  -- at most two passes: what's left of this shuffle, then one fresh shuffle
  nextInPasses 2 order

/-! ## Probing -/

/-- Probe `target` directly, and if that gets nothing, through other members. -/
def probe (node : LocalNode) (target : Member) : Prog Bool := do
  let seq ← call .fetchSeq
  if ← ping node target.id target.addr seq then pure true
  else do
    let relays ← call (.relayCandidates target.id INDIRECT_PROBES)
    if relays.isEmpty then pure false
    else do
      let seq ← call .fetchSeq
      pingReq node target.id relays seq

/-! ## Judging -/

/-- The rumor `mark` makes: a new state for `member` at the incarnation we have for it. -/
def markRumor (member : Member) (state : WireMemberState) : WireMember where
  id := member.id
  addr := member.addr
  incarnation := member.incarnation
  state := state
  ready := member.ready
  tags := member.tags

/-- True if the table changed, in which case the rumor is also queued. -/
def mark (node : LocalNode) (member : Member) (state : WireMemberState) : Prog Bool := do
  let outcome ← apply node (markRumor member state)
  pure (outcome = .updated)

def handleResult (node : LocalNode) (target : Member) (acked : Bool) : Prog Unit := do
  if acked then pure ()
  else do
    -- same incarnation as our entry, so this outranks Alive and nothing else
    let _ ← mark node target .suspect
    pure ()

/-! ## Sweeping and reaping -/

/-- `Suspect { since } if since.elapsed() >= SUSPICION_TIMEOUT` -/
def suspicionExpired (now : Instant) (member : Member) : Bool :=
  match member.state with
  | .suspect since => decide (SUSPICION_TIMEOUT ≤ now - since)
  | _ => false

/-- `Dead { since } if since.elapsed() >= REAP_TIMEOUT` -/
def deathExpired (now : Instant) (member : Member) : Bool :=
  match member.state with
  | .dead since => decide (REAP_TIMEOUT ≤ now - since)
  | _ => false

/-! What has expired stays so, and nothing is expired from the start. -/

lemma suspicionExpired_mono {T T' : Instant} {m : Member} (hT : T ≤ T')
    (h : suspicionExpired T m = true) : suspicionExpired T' m = true := by
  unfold suspicionExpired at h ⊢
  cases hstate : m.state with
  | suspect since =>
    rw [hstate] at h
    have h : SUSPICION_TIMEOUT ≤ T - since := of_decide_eq_true h
    refine decide_eq_true ?_
    unfold Instant at *
    omega
  | _ => simp [hstate] at h

lemma deathExpired_mono {T T' : Instant} {m : Member} (hT : T ≤ T')
    (h : deathExpired T m = true) : deathExpired T' m = true := by
  unfold deathExpired at h ⊢
  cases hstate : m.state with
  | dead since =>
    rw [hstate] at h
    have h : REAP_TIMEOUT ≤ T - since := of_decide_eq_true h
    refine decide_eq_true ?_
    unfold Instant at *
    omega
  | _ => simp [hstate] at h

lemma not_suspicionExpired {T since : Instant} {m : Member} (hstate : m.state = .suspect since)
    (hsince : T ≤ since) : suspicionExpired T m = false := by
  unfold suspicionExpired
  rw [hstate]
  refine decide_eq_false ?_
  have hpos : 0 < SUSPICION_TIMEOUT := by decide
  unfold Instant at *
  omega

lemma not_deathExpired {T since : Instant} {m : Member} (hstate : m.state = .dead since)
    (hsince : T ≤ since) : deathExpired T m = false := by
  unfold deathExpired
  rw [hstate]
  refine decide_eq_false ?_
  have hpos : 0 < REAP_TIMEOUT := by decide
  unfold Instant at *
  omega

/-- The loop of `sweep_suspects`. -/
def declareDead (node : LocalNode) : List Member → Prog Unit
  | [] => pure ()
  | member :: members => do
    let _ ← mark node member .dead
    declareDead node members

def sweepSuspects (node : LocalNode) : Prog Unit := do
  let expired ← call (.membersWhere suspicionExpired)
  declareDead node expired

/-- Drop dead members that have been dead long enough. -/
def reapDead : Prog Unit := do
  let expired ← call (.membersWhere deathExpired)
  let ids := expired.map Member.id
  if ids.isEmpty then pure ()
  else call (.remove ids)

/-! ## The loop -/

/-- One turn of the loop of `start_udp_detector`, with what is left of the order after it. -/
def detectorTurn (node : LocalNode) (order : List NodeId) : Prog (List NodeId) := do
  let (target, order) ← nextTarget order
  match target with
  | some target => do
    let acked ← probe node target
    handleResult node target acked
  | none => pure ()
  sweepSuspects node
  reapDead
  pure order

/-- So many turns of `start_udp_detector`. -/
def startUdpDetector (node : LocalNode) : ℕ → List NodeId → Prog Unit
  | 0, _ => pure ()
  | turns + 1, order => do
    let order ← detectorTurn node order
    startUdpDetector node turns order

/-! ## The health check -/

/-- One turn of `start_health_check`, after the app's answer. -/
def healthTurn (node : LocalNode) (ready : Bool) : Prog Unit := do
  if ← call (.setReady ready) then do
    let current ← call .current
    let len ← call .len
    call (.push (node.aliveRumor current) (len + 1))
  else pure ()

end Dalila
