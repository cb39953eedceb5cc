import Dalila.Wire

/-!
# The gossip queue

Rumors this node still owes the cluster. Each function below is one critical section of the
queue's lock.
-/

namespace Dalila

/-- How many rumors ride on one ping or ack. -/
def MAX_PIGGYBACK : ℕ := 10

def RETRANSMIT_MULT : ℕ := 3

/-- `u32::next_power_of_two`. Past `2^31` there is none, and the release build wraps to 0. -/
def nextPowerOfTwo (n : ℕ) : ℕ :=
  if n ≤ 2 ^ 31 then n.nextPowerOfTwo else 0

/-- `u32::trailing_zeros`: the lowest bit set, or all 32. -/
def trailingZeros (n : ℕ) : ℕ :=
  ((List.range 32).find? fun i => n.testBit i).getD 32

/-- `ceil(log2(n))`, at least 1 so a rumor is always sent a few times. -/
def retransmitLimit (clusterSize : ℕ) : ℕ :=
  let log := trailingZeros (nextPowerOfTwo (clusterSize % 2 ^ 32))
  RETRANSMIT_MULT * max log 1

structure Pending where
  rumor : WireMember
  sendsLeft : ℕ
deriving DecidableEq, Repr

abbrev GossipQueue := List Pending

namespace GossipQueue

def new : GossipQueue := []

/-- Queue a rumor, replacing any older one about the same node. -/
def push (queue : GossipQueue) (rumor : WireMember) (clusterSize : ℕ) : GossipQueue :=
  queue.filter (fun pending => pending.rumor.id ≠ rumor.id) ++
    [{ rumor, sendsLeft := retransmitLimit clusterSize }]

/-- Most sends left first; `sort_by_key` is stable. -/
def freshestFirst (queue : GossipQueue) : GossipQueue :=
  queue.mergeSort fun a b => a.sendsLeft ≥ b.sendsLeft

/-- Rumors for the next outgoing packet. Each one taken counts as a send, and rumors that
have been sent enough times leave the queue. -/
def take (queue : GossipQueue) : List WireMember × GossipQueue :=
  let sorted := queue.freshestFirst
  let batch := List.take MAX_PIGGYBACK sorted
  let sent := batch.map fun pending => { pending with sendsLeft := pending.sendsLeft - 1 }
  (batch.map Pending.rumor,
    (sent ++ List.drop MAX_PIGGYBACK sorted).filter fun pending => pending.sendsLeft > 0)

/-! ## Nothing but what was pushed comes out -/

theorem mem_push {queue : GossipQueue} {rumor : WireMember} {clusterSize : ℕ} {p : Pending}
    (h : p ∈ queue.push rumor clusterSize) : p ∈ queue ∨ p.rumor = rumor := by
  rw [push, List.mem_append, List.mem_singleton] at h
  rcases h with h | rfl
  · exact .inl (List.mem_filter.mp h).1
  · exact .inr rfl

theorem mem_freshestFirst {queue : GossipQueue} {p : Pending} :
    p ∈ queue.freshestFirst ↔ p ∈ queue :=
  (List.mergeSort_perm queue _).mem_iff

theorem exists_mem_of_mem_take_fst {queue : GossipQueue} {rumor : WireMember}
    (h : rumor ∈ queue.take.1) : ∃ p ∈ queue, p.rumor = rumor := by
  obtain ⟨p, hp, rfl⟩ := List.mem_map.mp h
  exact ⟨p, mem_freshestFirst.mp (List.mem_of_mem_take hp), rfl⟩

theorem exists_mem_of_mem_take_snd {queue : GossipQueue} {p : Pending}
    (h : p ∈ queue.take.2) : ∃ p' ∈ queue, p'.rumor = p.rumor := by
  have hp := (List.mem_filter.mp h).1
  rw [List.mem_append] at hp
  rcases hp with hp | hp
  · obtain ⟨p', hp', rfl⟩ := List.mem_map.mp hp
    exact ⟨p', mem_freshestFirst.mp (List.mem_of_mem_take hp'), rfl⟩
  · exact ⟨p, mem_freshestFirst.mp (List.mem_of_mem_drop hp), rfl⟩

/-! ## How long a rumor stays -/

theorem retransmitLimit_pos (clusterSize : ℕ) : 0 < retransmitLimit clusterSize := by
  unfold retransmitLimit
  have hlog := Nat.le_max_right (trailingZeros (nextPowerOfTwo (clusterSize % 2 ^ 32))) 1
  simp only [RETRANSMIT_MULT]
  omega

/-- A rumor leaves with the send that uses up its count. -/
theorem mem_take_or {queue : GossipQueue} {p : Pending} (hp : p ∈ queue) (hpos : 0 < p.sendsLeft) :
    (∃ p' ∈ queue.take.2, p'.rumor = p.rumor) ∨ p.rumor ∈ queue.take.1 ∧ p.sendsLeft = 1 := by
  have hsorted := mem_freshestFirst.mpr hp
  rw [← List.take_append_drop MAX_PIGGYBACK queue.freshestFirst, List.mem_append] at hsorted
  rcases hsorted with hbatch | hrest
  · by_cases hlast : p.sendsLeft = 1
    · exact .inr ⟨List.mem_map_of_mem hbatch, hlast⟩
    · refine .inl ⟨{ p with sendsLeft := p.sendsLeft - 1 }, List.mem_filter.mpr ⟨?_, ?_⟩, rfl⟩
      · exact List.mem_append_left _ (List.mem_map_of_mem hbatch)
      · simp only [gt_iff_lt, decide_eq_true_eq]
        omega
  · refine .inl ⟨p, List.mem_filter.mpr ⟨List.mem_append_right _ hrest, ?_⟩, rfl⟩
    simpa using hpos

theorem sendsLeft_pos_of_mem_take {queue : GossipQueue} {p : Pending} (hp : p ∈ queue.take.2) :
    0 < p.sendsLeft := by
  simpa using (List.mem_filter.mp hp).2

end GossipQueue

end Dalila
