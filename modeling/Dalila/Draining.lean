import Dalila.Sends

/-!
# How fast the queue drains

`takes` takes batches from a queue that nobody pushes to. The file proves that it is empty after
exactly as many as its rumors need (`packets`), which is the least any way of sending them takes
(`drains_exactly`).
-/

namespace Dalila

namespace GossipQueue

variable {queue : GossipQueue}

/-- `take` again and again: what is handed out, and what is left. -/
def takes : ℕ → GossipQueue → List (List WireMember) × GossipQueue
  | 0, queue => ([], queue)
  | n + 1, queue =>
    let later := takes n queue.take.2
    (queue.take.1 :: later.1, later.2)

lemma takes_eq (n : ℕ) (queue : GossipQueue) : takes n queue =
    ((turns.batches MAX_PIGGYBACK n queue).map fun batch => batch.map Pending.rumor,
      turns.after MAX_PIGGYBACK n queue) := by
  induction n generalizing queue with
  | zero => rfl
  | succ n ih =>
    show (queue.take.1 :: (takes n queue.take.2).1, (takes n queue.take.2).2) = _
    rw [ih queue.take.2]
    rfl

/-- `M` -/
def mostLeft (queue : GossipQueue) : ℕ :=
  (queue.map Pending.sendsLeft).foldr max 0

/-- `T` -/
def totalLeft (queue : GossipQueue) : ℕ :=
  (queue.map Pending.sendsLeft).sum

/-- How many packets it takes to drain the queue. -/
def packets (queue : GossipQueue) : ℕ :=
  max queue.mostLeft (queue.totalLeft ⌈/⌉ MAX_PIGGYBACK)

lemma packets_eq (queue : GossipQueue) : queue.packets = turns.rounds MAX_PIGGYBACK queue := rfl

/-- Taken from again and again, a queue is empty after `packets` batches and not before, and every
pending rumor is in as many of them as it has sends left. No other batches that give every rumor
its sends are fewer. -/
theorem drains_exactly {h : Past} (hrun : Run h) :
    (∀ n, (takes n h.now).2 = [] ↔ packets h.now ≤ n) ∧
    (∀ pending ∈ h.now, (takes (packets h.now) h.now).1.countP (fun batch =>
      pending.rumor ∈ batch) = pending.sendsLeft) ∧
    ∀ batches : List (List WireMember), (∀ batch ∈ batches, batch.length ≤ MAX_PIGGYBACK) →
      (∀ pending ∈ h.now, pending.sendsLeft ≤ batches.countP fun batch => pending.rumor ∈ batch) →
      packets h.now ≤ batches.length := by
  have hsound := hrun.sound
  have hsize : 0 < MAX_PIGGYBACK := by decide
  refine ⟨fun n => ?_, fun pending hpending => ?_, fun batches hbatches hgiven => ?_⟩
  · rw [takes_eq, packets_eq]
    exact Turns.after_eq_nil_iff (t := turns) hsize hsound.live
  · rw [takes_eq, packets_eq, List.countP_map]
    exact Turns.countP_batches (t := turns) hsize hsound.live hsound.rumors hpending
  · rw [packets_eq]
    exact Turns.rounds_le_of_turns hsize hsound.rumors hbatches hgiven

/-- Twelve rumors with three sends each are gone after four packets and not after three, and one
that took the place of an older one was in three of the four. -/
theorem drains_exactly_renewed :
    (takes 4 renewed.now).2 = [] ∧ (takes 3 renewed.now).2 ≠ [] ∧
    (takes 4 renewed.now).1.countP (fun batch => peerRumor 0 1 ∈ batch) = 3 := by
  have hpackets : packets renewed.now = 4 := by
    rw [now_renewed]
    decide
  obtain ⟨hdrains, hsent, _⟩ := drains_exactly run_renewed
  refine ⟨(hdrains 4).mpr (le_of_eq hpackets), fun hempty => ?_, ?_⟩
  · have hle : packets renewed.now ≤ 3 := (hdrains 3).mp hempty
    omega
  · have hpending : ⟨peerRumor 0 1, 3⟩ ∈ renewed.now := by
      rw [now_renewed]
      decide
    rw [← hpackets]
    exact hsent _ hpending

end GossipQueue

end Dalila
