import Mathlib.Data.Nat.Log
import Dalila.Dissemination
import Dalila.Lib.History
import Dalila.Lib.Turns

/-!
# Every rumor gets its sends

Counts the sends of a rumor in any sequence of pushes and takes: exactly as many as `push` said,
less those it still has, unless a rumor about the same node takes its place first. A batch holds the
freshest rumors, each once, at most `MAX_PIGGYBACK` (`send_accounting`).
-/

namespace Dalila

open private Nat.nextPowerOfTwo.go from Init.Data.Nat.Power2.Basic

/-! ## How many sends a rumor gets -/

/-- Doubling stops at the logarithm. -/
lemma go_eq (n k : ℕ) (hk : k ≤ Nat.clog 2 n) (hpos : 2 ^ k > 0) :
    Nat.nextPowerOfTwo.go n (2 ^ k) hpos = 2 ^ Nat.clog 2 n := by
  unfold Nat.nextPowerOfTwo.go
  split_ifs with hlt
  · have hlt' : k < Nat.clog 2 n := (Nat.lt_clog_iff_pow_lt (by decide)).mpr hlt
    exact go_eq n (k + 1) hlt' (Nat.two_pow_pos (k + 1))
  · have hge : Nat.clog 2 n ≤ k := (Nat.clog_le_iff_le_pow (by decide)).mpr (not_lt.mp hlt)
    rw [le_antisymm hk hge]
termination_by Nat.clog 2 n - k

lemma nextPowerOfTwo_eq (n : ℕ) : n.nextPowerOfTwo = 2 ^ Nat.clog 2 n :=
  go_eq n 0 (Nat.zero_le _) (by decide)

lemma trailingZeros_le (n : ℕ) : trailingZeros n ≤ 32 := by
  unfold trailingZeros
  cases hfind : (List.range 32).find? fun i => n.testBit i with
  | none => exact le_refl _
  | some i =>
    have hmem := List.mem_range.mp (List.mem_of_find?_eq_some hfind)
    exact hmem.le

/-- `trailing_zeros` of a power of two is its logarithm. -/
lemma trailingZeros_two_pow {k : ℕ} (hk : k < 32) : trailingZeros (2 ^ k) = k := by
  unfold trailingZeros
  have hfind : (List.range 32).find? (fun i => (2 ^ k).testBit i) = some k := by
    rw [List.find?_range_eq_some]
    refine ⟨Nat.testBit_two_pow_self, List.mem_range.mpr hk, fun j hj => ?_⟩
    rw [Nat.testBit_two_pow, Bool.not_eq_true', decide_eq_false_iff_not]
    omega
  rw [hfind]
  rfl

/-- Up to the largest power of two a `u32` holds, `retransmit_limit` computes the logarithm. -/
theorem retransmitLimit_eq {size : ℕ} (hsize : size ≤ 2 ^ 31) :
    retransmitLimit size = 3 * max 1 (Nat.clog 2 size) := by
  have hlog : Nat.clog 2 size ≤ 31 := (Nat.clog_le_iff_le_pow (by decide)).mpr hsize
  have hmod : size % 2 ^ 32 = size := Nat.mod_eq_of_lt (by omega)
  unfold retransmitLimit nextPowerOfTwo
  rw [hmod, if_pos hsize, nextPowerOfTwo_eq, trailingZeros_two_pow (by omega), max_comm]
  rfl

/-- A cluster that fits into `N` gives no rumor more than `3 * max 1 ⌈log₂ N⌉` sends. -/
theorem retransmitLimit_le {size N : ℕ} (hsize : size ≤ N) :
    retransmitLimit size ≤ 3 * max 1 (Nat.clog 2 N) := by
  by_cases hlarge : size ≤ 2 ^ 31
  · have hmono : Nat.clog 2 size ≤ Nat.clog 2 N := Nat.clog_mono_right 2 hsize
    rw [retransmitLimit_eq hlarge]
    omega
  · -- 32 bits are too few to go beyond the logarithm
    have hclog : 31 < Nat.clog 2 N :=
      (Nat.lt_clog_iff_pow_lt (by decide)).mpr (by omega)
    have hbound := trailingZeros_le (nextPowerOfTwo (size % 2 ^ 32))
    unfold retransmitLimit
    simp only [RETRANSMIT_MULT]
    omega

namespace GossipQueue

variable {queue : GossipQueue} {rumor : WireMember} {size : ℕ}

/-! ## One batch -/

/-- A rumor's sends are its turns. -/
def turns : Turns Pending WireMember where
  name := Pending.rumor
  left := Pending.sendsLeft
  spend pending := { pending with sendsLeft := pending.sendsLeft - 1 }
  name_spend _ := rfl
  left_spend _ := rfl

lemma take_eq (queue : GossipQueue) : queue.take =
    ((turns.batch MAX_PIGGYBACK queue).map Pending.rumor, turns.rest MAX_PIGGYBACK queue) := rfl

/-- One rumor an id, and every one of them still has a send. -/
structure Sound (queue : GossipQueue) : Prop where
  nodup : (queue.map fun pending => pending.rumor.id).Nodup
  live : ∀ pending ∈ queue, 1 ≤ pending.sendsLeft

lemma Sound.rumors (hsound : Sound queue) : (queue.map turns.name).Nodup := by
  have hids : ((queue.map Pending.rumor).map WireMember.id).Nodup := by
    rw [List.map_map]
    exact hsound.nodup
  exact hids.of_map

/-- Pushing replaces what was pending about the same node. -/
lemma Sound.push (hsound : Sound queue) : Sound (queue.push rumor size) := by
  constructor
  · unfold GossipQueue.push
    rw [List.map_append, List.nodup_append]
    refine ⟨hsound.nodup.sublist (List.filter_sublist.map _), List.nodup_singleton _, ?_⟩
    intro id hid other hother
    obtain ⟨pending, hpending, rfl⟩ := List.mem_map.mp hid
    have hne := (List.mem_filter.mp hpending).2
    rw [List.map_singleton, List.mem_singleton] at hother
    rw [hother]
    exact of_decide_eq_true hne
  · intro pending hpending
    rcases List.mem_append.mp hpending with hold | hnew
    · exact hsound.live pending (List.mem_filter.mp hold).1
    · rw [List.mem_singleton.mp hnew]
      exact retransmitLimit_pos size

lemma Sound.take (hsound : Sound queue) : Sound queue.take.2 :=
  ⟨Turns.nodup_rest (t := turns) (fun _ => rfl) hsound.nodup, Turns.live_rest (t := turns) queue⟩

/-- A batch is as full as the queue allows. -/
lemma length_take (queue : GossipQueue) : queue.take.1.length = min MAX_PIGGYBACK queue.length := by
  rw [take_eq, List.length_map, Turns.length_batch]

/-- A batch names nobody twice. -/
lemma Sound.nodup_take (hsound : Sound queue) : (queue.take.1.map WireMember.id).Nodup := by
  rw [take_eq, List.map_map]
  exact Turns.nodup_batch hsound.nodup

lemma Sound.rumor_injective (hsound : Sound queue) {a b : Pending} (ha : a ∈ queue) (hb : b ∈ queue)
    (hid : a.rumor.id = b.rumor.id) : a = b :=
  List.inj_on_of_nodup_map hsound.nodup ha hb hid

/-- What is left out has no more sends left than what is taken. -/
lemma Sound.freshest (hsound : Sound queue) {taken left : Pending} (htaken : taken ∈ queue)
    (hleft : left ∈ queue) (hin : taken.rumor ∈ queue.take.1) (hout : left.rumor ∉ queue.take.1) :
    left.sendsLeft ≤ taken.sendsLeft := by
  rw [take_eq] at hin hout
  obtain ⟨pending, hpending, hsame⟩ := List.mem_map.mp hin
  have heq : pending = taken :=
    hsound.rumor_injective (Turns.mem_of_mem_batch hpending) htaken (by rw [hsame])
  rw [heq] at hpending
  rcases Turns.mem_batch_or_mem_waiting (t := turns) (k := MAX_PIGGYBACK) hleft with hbatch | hwait
  · exact absurd (List.mem_map_of_mem hbatch) hout
  · exact Turns.left_le_of_waiting (t := turns) hpending hwait

/-! ## Pushes and takes, in any order -/

/-- What can be done to a queue. -/
inductive Event where
  | push (rumor : WireMember) (clusterSize : ℕ)
  | take (batch : List WireMember)

/-- One critical section of the queue's lock. -/
inductive Step : GossipQueue → Event → GossipQueue → Prop where
  | push (queue : GossipQueue) (rumor : WireMember) (clusterSize : ℕ) :
      Step queue (.push rumor clusterSize) (queue.push rumor clusterSize)
  | take (queue : GossipQueue) : Step queue (.take queue.take.1) queue.take.2

abbrev Past := History GossipQueue Event

/-- Pushes and takes from an empty queue. -/
abbrev Run (h : Past) : Prop := History.IsRun Step (· = new) h

/-- Queues news about `id`. -/
def Event.about (id : NodeId) : Event → Prop
  | .push rumor _ => rumor.id = id
  | .take _ => False

/-- Hands out `rumor`. -/
def Event.hands (rumor : WireMember) : Event → Bool
  | .push _ _ => false
  | .take batch => rumor ∈ batch

variable {h h' h₁ : Past}

/-- Every queue that pushes and takes can lead to is sound. -/
lemma Run.sound (hrun : Run h) : Sound h.now := by
  refine History.IsRun.induction (P := fun h => Sound h.now) hrun ?_ ?_
  · rintro queue rfl
    exact ⟨List.nodup_nil, fun _ hp => absurd hp List.not_mem_nil⟩
  · intro h event queue _ hsound hstep
    cases hstep with
    | push => exact hsound.push
    | take => exact hsound.take

/-- Since `h₁`, when `rumor` was pushed, nothing was pushed about its node. -/
def Latest (rumor : WireMember) (size : ℕ) (h₁ h : Past) : Prop :=
  Run h₁ ∧ History.Extends (fun s l t => Step s l t ∧ ¬ l.about rumor.id)
    (h₁.push (.push rumor size) (h₁.now.push rumor size)) h

lemma Latest.run (hlatest : Latest rumor size h₁ h) : Run h := by
  obtain ⟨hrun, hlater⟩ := hlatest
  have hpushed := hrun.extends (.single (.push h₁.now rumor size))
  exact hpushed.extends (hlater.mono fun _ _ _ hstep => hstep.1)

/-- The sends `rumor` still has, whichever entry they are under. -/
abbrev sendsLeft (rumor : WireMember) (queue : GossipQueue) : ℕ :=
  turns.owed (fun pending => pending.rumor = rumor) queue

lemma sendsLeft_of_mem (hsound : Sound queue) {pending : Pending} (hmem : pending ∈ queue) :
    sendsLeft pending.rumor queue = pending.sendsLeft :=
  Turns.owed_of_mem (t := turns) hsound.rumors hmem

lemma sendsLeft_of_not_mem (hnone : ∀ pending ∈ queue, pending.rumor ≠ rumor) :
    sendsLeft rumor queue = 0 := by
  unfold sendsLeft Turns.owed
  rw [List.sum_eq_zero_iff]
  intro n hn
  obtain ⟨pending, hpending, rfl⟩ := List.mem_map.mp hn
  simp [hnone pending hpending]

/-- A push leaves the other rumors their sends. -/
lemma sendsLeft_push_other {other : WireMember} (hother : other.id ≠ rumor.id) :
    sendsLeft rumor (queue.push other size) = sendsLeft rumor queue := by
  have hne : other ≠ rumor := fun heq => hother (by rw [heq])
  unfold sendsLeft GossipQueue.push
  rw [Turns.owed_append]
  have hnew : turns.owed (fun pending => pending.rumor = rumor)
      [⟨other, retransmitLimit size⟩] = 0 := by
    simp [Turns.owed, hne]
  rw [hnew, Nat.add_zero]
  unfold Turns.owed
  induction queue with
  | nil => rfl
  | cons pending queue ih =>
    by_cases hid : pending.rumor.id = other.id
    · have hrumor : pending.rumor ≠ rumor := fun heq => hother (by rw [← hid, heq])
      rw [List.filter_cons_of_neg (by simpa using hid), ih, List.map_cons, List.sum_cons]
      simp [hrumor]
    · rw [List.filter_cons_of_pos (by simpa using hid), List.map_cons, List.sum_cons, ih,
        List.map_cons, List.sum_cons]

/-- A push gives its rumor all of its sends. -/
lemma sendsLeft_push (hsound : Sound queue) :
    sendsLeft rumor (queue.push rumor size) = retransmitLimit size := by
  have hmem : (⟨rumor, retransmitLimit size⟩ : Pending) ∈ queue.push rumor size :=
    List.mem_append_right _ (List.mem_singleton.mpr rfl)
  exact sendsLeft_of_mem hsound.push hmem

/-- A take pays for the send. -/
lemma sendsLeft_take (hsound : Sound queue) :
    sendsLeft rumor queue.take.2 + (if rumor ∈ queue.take.1 then 1 else 0) =
      sendsLeft rumor queue := by
  have hpaid := Turns.owed_rest (t := turns) (k := MAX_PIGGYBACK)
    (f := fun pending => pending.rumor = rumor) (fun _ => rfl) hsound.live
  have hnodup := Turns.nodup_batch (t := turns) (k := MAX_PIGGYBACK) hsound.rumors
  have honce : (turns.batch MAX_PIGGYBACK queue).countP (fun pending => pending.rumor = rumor) =
      if rumor ∈ queue.take.1 then 1 else 0 := Turns.countP_name (t := turns) hnodup rumor
  rw [honce] at hpaid
  exact hpaid

/-- What is left to the rumor and what it has had since it was pushed come to its limit. -/
lemma Latest.accounts (hlatest : Latest rumor size h₁ h) :
    sendsLeft rumor h.now + h.count (Event.hands rumor) =
      h₁.count (Event.hands rumor) + retransmitLimit size := by
  obtain ⟨hrun, hlater⟩ := hlatest
  induction hlater with
  | refl =>
    rw [History.now_push, sendsLeft_push hrun.sound, History.count_push]
    simp [Event.hands, Nat.add_comm]
  | @push h event queue hext hstep ih =>
    have hlatest : Latest rumor size h₁ h := ⟨hrun, hext⟩
    have hsound := hlatest.run.sound
    obtain ⟨hstep, habout⟩ := hstep
    rw [History.now_push, History.count_push]
    cases hstep with
    | push other otherSize =>
      have hother : sendsLeft rumor (GossipQueue.push h.now other otherSize) = _ :=
        sendsLeft_push_other habout
      rw [hother]
      simpa [Event.hands] using ih
    | take =>
      have hpaid : sendsLeft rumor (GossipQueue.take h.now).2 + _ = _ := sendsLeft_take hsound
      have hhands : Event.hands rumor (.take h.now.take.1) = decide (rumor ∈ h.now.take.1) := rfl
      rw [hhands]
      by_cases htaken : rumor ∈ h.now.take.1
      · rw [if_pos htaken] at hpaid
        rw [if_pos (decide_eq_true htaken)]
        omega
      · rw [if_neg htaken] at hpaid
        rw [if_neg (by simpa using htaken)]
        omega

/-- Whatever is handed out was the last that was pushed about its node. -/
lemma Run.latest (hrun : Run h) {pending : Pending} (hpending : pending ∈ h.now) :
    ∃ size h₁, Latest pending.rumor size h₁ h := by
  have hall : ∀ pending ∈ h.now, ∃ size h₁, Latest pending.rumor size h₁ h := by
    refine History.IsRun.induction (P := fun h => ∀ pending ∈ h.now,
      ∃ size h₁, Latest pending.rumor size h₁ h) hrun ?_ ?_
    · rintro queue rfl pending hpending
      exact absurd hpending List.not_mem_nil
    · intro h event queue hrun ih hstep pending hpending
      cases hstep with
      | push rumor size =>
        rcases List.mem_append.mp hpending with hold | hnew
        · obtain ⟨hold, hid⟩ := List.mem_filter.mp hold
          have hid : pending.rumor.id ≠ rumor.id := of_decide_eq_true hid
          obtain ⟨size₁, h₁, hrun₁, hlater⟩ := ih pending hold
          exact ⟨size₁, h₁, hrun₁, hlater.push ⟨.push h.now rumor size, Ne.symm hid⟩⟩
        · rw [List.mem_singleton.mp hnew]
          exact ⟨size, h, hrun, .refl _⟩
      | take =>
        obtain ⟨pending', hpending', hsame⟩ := exists_mem_of_mem_take_snd hpending
        obtain ⟨size₁, h₁, hrun₁, hlater⟩ := ih pending' hpending'
        rw [hsame] at hlater
        exact ⟨size₁, h₁, hrun₁, hlater.push ⟨.take h.now, not_false⟩⟩
  exact hall pending hpending

/-- What has left the queue does not come back by itself. -/
lemma absent_of_extends {id : NodeId} (hnone : ∀ pending ∈ h.now, pending.rumor.id ≠ id)
    (hlater : History.Extends (fun s l t => Step s l t ∧ ¬ l.about id) h h') :
    ∀ pending ∈ h'.now, pending.rumor.id ≠ id := by
  induction hlater with
  | refl => exact hnone
  | push hext hstep ih =>
    obtain ⟨hstep, habout⟩ := hstep
    intro pending hpending
    cases hstep with
    | push rumor size =>
      rcases mem_push hpending with hold | hnew
      · exact ih pending hold
      · rw [hnew]
        exact habout
    | take =>
      obtain ⟨pending', hpending', hsame⟩ := exists_mem_of_mem_take_snd hpending
      rw [← hsame]
      exact ih pending' hpending'

/-- At every moment of every run at most one rumor a node is pending, with a send left. A batch
has ten of them, or all, about different nodes, and nothing with more sends left is left out. All
of them are the last that was pushed about their nodes. And whatever was pushed for a cluster of
`size` is handed out no more than `3 * max 1 ⌈log₂ size⌉` times while nothing replaces it, exactly
as often if it leaves the queue, and never again after that. -/
theorem send_accounting (hrun : Run h) :
    Sound h.now ∧
    (h.now.take.1.length = min MAX_PIGGYBACK h.now.length ∧
      (h.now.take.1.map WireMember.id).Nodup ∧
      ∀ taken ∈ h.now, ∀ left ∈ h.now, taken.rumor ∈ h.now.take.1 → left.rumor ∉ h.now.take.1 →
        left.sendsLeft ≤ taken.sendsLeft) ∧
    (∀ rumor ∈ h.now.take.1, ∃ size h₁, Latest rumor size h₁ h) ∧
    ∀ rumor size h₁, Latest rumor size h₁ h → size ≤ 2 ^ 31 →
      h.count (Event.hands rumor) ≤
        h₁.count (Event.hands rumor) + 3 * max 1 (Nat.clog 2 size) ∧
      ((∀ pending ∈ h.now, pending.rumor.id ≠ rumor.id) →
        h.count (Event.hands rumor) =
          h₁.count (Event.hands rumor) + 3 * max 1 (Nat.clog 2 size) ∧
        ∀ h', History.Extends (fun s l t => Step s l t ∧ ¬ l.about rumor.id) h h' →
          ∀ other ∈ h'.now.take.1, other.id ≠ rumor.id) := by
  have hsound := hrun.sound
  refine ⟨hsound, ⟨length_take h.now, hsound.nodup_take, fun taken htaken left hleft hin hout =>
    hsound.freshest htaken hleft hin hout⟩, fun rumor hrumor => ?_, ?_⟩
  · obtain ⟨pending, hpending, rfl⟩ := exists_mem_of_mem_take_fst hrumor
    exact hrun.latest hpending
  · intro rumor size h₁ hlatest hsize
    have haccounts := hlatest.accounts
    rw [retransmitLimit_eq hsize] at haccounts
    refine ⟨by omega, fun hgone => ⟨?_, fun h' hlater other hother => ?_⟩⟩
    · have hnone : sendsLeft rumor h.now = 0 :=
        sendsLeft_of_not_mem fun pending hpending heq => hgone pending hpending (by rw [heq])
      omega
    · obtain ⟨pending, hpending, rfl⟩ := exists_mem_of_mem_take_fst hother
      exact absent_of_extends hgone hlater pending hpending

/-! ### More rumors than fit into a packet -/

/-- News of the `n`-th peer. -/
def peerRumor (n : ℕ) (incarnation : Incarnation) : WireMember where
  id := ⟨Vector.replicate 16 (UInt8.ofNat n)⟩
  addr := ⟨.v4 #v[10, 0, 0, UInt8.ofNat n], 7946⟩
  incarnation := incarnation
  state := .alive
  ready := true
  tags := []

/-- In a cluster of two a rumor has three sends. -/
lemma push_two (queue : GossipQueue) (rumor : WireMember) : queue.push rumor 2 =
    queue.filter (fun pending => pending.rumor.id ≠ rumor.id) ++ [⟨rumor, 3⟩] := by
  have hlog : Nat.clog 2 2 = 1 := Nat.clog_eq_one (le_refl 2) (le_refl 2)
  have hlimit : retransmitLimit 2 = 3 := by
    rw [retransmitLimit_eq (by decide), hlog]
    rfl
  unfold push
  rw [hlimit]

/-- Rumors pushed one after another. -/
def pushAll (h : Past) : List WireMember → Past
  | [] => h
  | rumor :: rumors => pushAll (h.push (.push rumor 2) (h.now.push rumor 2)) rumors

lemma Run.pushAll (hrun : Run h) (rumors : List WireMember) : Run (pushAll h rumors) := by
  induction rumors generalizing h with
  | nil => exact hrun
  | cons rumor rumors ih => exact ih (hrun.extends (.single (.push h.now rumor 2)))

lemma now_pushAll (h : Past) (rumors : List WireMember) : (pushAll h rumors).now =
    rumors.foldl (fun queue rumor =>
      queue.filter (fun pending => pending.rumor.id ≠ rumor.id) ++ [⟨rumor, 3⟩]) h.now := by
  induction rumors generalizing h with
  | nil => rfl
  | cons rumor rumors ih =>
    rw [pushAll, ih, History.now_push, push_two]
    rfl

/-- Packet after packet. -/
def takeAll (h : Past) : ℕ → Past
  | 0 => h
  | n + 1 => takeAll (h.push (.take h.now.take.1) h.now.take.2) n

lemma now_takeAll (h : Past) (n : ℕ) :
    (takeAll h n).now = turns.after MAX_PIGGYBACK n h.now := by
  induction n generalizing h with
  | zero => rfl
  | succ n ih =>
    rw [takeAll, ih]
    rfl

lemma extends_takeAll (h : Past) (n : ℕ) (id : NodeId) :
    History.Extends (fun s l t => Step s l t ∧ ¬ l.about id) h (takeAll h n) := by
  induction n generalizing h with
  | zero => exact .refl h
  | succ n ih => exact (History.Extends.single ⟨.take h.now, not_false⟩).trans (ih _)

/-- Twelve peers are heard of, and the first of them again. -/
def crowded : Past := pushAll (.init new) ((List.range 12).map fun n => peerRumor n 0)

def renewed : Past :=
  crowded.push (.push (peerRumor 0 1) 2) (crowded.now.push (peerRumor 0 1) 2)

lemma now_crowded : crowded.now = (List.range 12).map fun n => ⟨peerRumor n 0, 3⟩ := by
  rw [crowded, now_pushAll]
  decide

/-- The first of the twelve has made place for its successor. -/
lemma now_renewed : renewed.now =
    ((List.range' 1 11).map fun n => ⟨peerRumor n 0, 3⟩) ++ [⟨peerRumor 0 1, 3⟩] := by
  rw [renewed, History.now_push, push_two, now_crowded]
  decide

lemma run_crowded : Run crowded := Run.pushAll ⟨new, rfl, .refl _⟩ _

lemma run_renewed : Run renewed := run_crowded.extends (.single (.push crowded.now _ 2))

/-- Twelve rumors wait, one of which took the place of an older one. Ten of them are in the first
packet, and after four all have been handed out as often as they should. -/
theorem send_accounting_renewed : ∃ last : Past,
    (∃ pending ∈ crowded.now, pending.rumor = peerRumor 0 0) ∧
    (∀ pending ∈ renewed.now, pending.rumor ≠ peerRumor 0 0) ∧
    renewed.now.length = 12 ∧ renewed.now.take.1.length = 10 ∧
    Latest (peerRumor 0 1) 2 crowded last ∧ last.now = [] ∧
    last.count (Event.hands (peerRumor 0 1)) =
      crowded.count (Event.hands (peerRumor 0 1)) + 3 * max 1 (Nat.clog 2 2) := by
  have hsize : renewed.now.length = 12 := by rw [now_renewed]; rfl
  have hfirst : renewed.now.take.1.length = 10 := by
    rw [(send_accounting run_renewed).2.1.1, hsize]
    rfl
  have hlatest : Latest (peerRumor 0 1) 2 crowded (takeAll renewed 4) :=
    ⟨run_crowded, extends_takeAll renewed 4 _⟩
  have hnone : (takeAll renewed 4).now = [] := by
    rw [now_takeAll, Turns.after_eq_nil_iff (t := turns) (by decide) run_renewed.sound.live,
      now_renewed]
    decide
  have hall := (send_accounting hlatest.run).2.2.2 _ 2 _ hlatest (by decide)
  have hexact := hall.2 (by rw [hnone]; exact fun _ hp => absurd hp List.not_mem_nil)
  refine ⟨_, ⟨⟨peerRumor 0 0, 3⟩, ?_, rfl⟩, ?_, hsize, hfirst, hlatest, hnone, hexact.1⟩
  · rw [now_crowded]
    decide
  · rw [now_renewed]
    decide

end GossipQueue

end Dalila
