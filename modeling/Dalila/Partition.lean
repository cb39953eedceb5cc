import Dalila.Pair
import Dalila.Repair

/-!
# What a partition leaves

While links are left the nodes can all find each other again (`partition_repaired`). A cluster is
`Muted` where everybody holds everybody dead; it stays so, nobody is ever spoken to again, and
`partition_not_always_repaired` is a run that ends there.
-/

namespace Dalila

open Program

/-- A step in which nobody crashes, leaves or is new. -/
def Label.stays : Label → Prop
  | .start _ _ | .cancel _ _ | .stop _ | .query _ => False
  | .begins _ _ kind => kind ≠ .leaving
  | _ => True

/-! ## Everybody dead to everybody -/

/-- Nothing is merged or sent, and whatever is read from the table is dead. -/
def silence : Contract Op Op.Res Unit where
  later _ _ := True
  later_refl _ := trivial
  later_trans _ _ := trivial
  pre o _ :=
    match o with
    | .merge _ _ => False
    | o => o.talks = false
  post o r _ :=
    match o, r with
    | .get _, r => ∀ m ∈ r, m.state.isDead = true
    | .membersWhere f, r => ∀ m ∈ r, m.state.isDead = true ∧ ∃ now, f now m = true
    | .randomMember, r => r = none
    | _, _ => True

/-- A task of a node that holds everybody dead: it finds nobody to talk to. -/
def Kind.finds : (kind : Kind) → kind.Out → Unit → Prop
  | .choosing _, found, _ => found.1 = none
  | _, _, _ => True

def Kind.silent : Kind → Bool
  | .sync | .health _ | .choosing _ | .sweeping | .reaping => true
  | _ => false

/-- The task neither merges nor sends anything, as long as everybody is dead to its node. -/
structure Task.Silent (task : Task) : Prop where
  kind : task.kind.silent = true
  follows : Follows silence task.kind.finds task.prog ()

lemma silence_nextInPass (order : List NodeId) :
    Follows silence (fun found _ => found.1 = none) (nextInPass order) () := by
  induction order with
  | nil => exact Follows.pure fun _ _ => rfl
  | cons id order ih =>
    refine Follows.call_bind (fun _ _ => rfl) fun found _ _ hdead => ?_
    cases found with
    | none => exact ih
    | some m =>
      simp only
      rw [if_pos (hdead m rfl)]
      exact ih

lemma silence_nextInPasses (passes : ℕ) (order : List NodeId) :
    Follows silence (fun found _ => found.1 = none) (nextInPasses passes order) () := by
  induction passes generalizing order with
  | zero => exact Follows.pure fun _ _ => rfl
  | succ passes ih =>
    refine Follows.bind (silence_nextInPass order) fun found _ _ hnone => ?_
    obtain ⟨found, rest⟩ := found
    obtain rfl : found = none := hnone
    exact Follows.call_bind (fun _ _ => rfl) fun order _ _ _ => ih order

lemma Task.silent_start (node : LocalNode) {kind : Kind} (hkind : kind.silent = true) :
    (Task.start node kind).Silent := by
  refine ⟨hkind, ?_⟩
  cases kind with
  | sync =>
    refine Follows.call_bind (fun _ _ => rfl) fun partner _ _ hnone => ?_
    obtain rfl : partner = none := hnone
    exact Follows.pure fun _ _ => trivial
  | health ready =>
    refine Follows.call_bind (fun _ _ => rfl) fun changed _ _ _ => ?_
    cases changed with
    | false => exact Follows.pure fun _ _ => trivial
    | true =>
      refine Follows.call_bind (fun _ _ => rfl) fun current _ _ _ => ?_
      refine Follows.call_bind (fun _ _ => rfl) fun len _ _ _ => ?_
      exact Follows.call (fun _ _ => rfl) fun _ _ _ _ _ _ => trivial
  | choosing order => exact silence_nextInPasses 2 order
  | sweeping =>
    refine Follows.call_bind (fun _ _ => rfl) fun expired _ _ hdead => ?_
    -- a suspicion that is over would not be dead
    have hnone : expired = [] := by
      rw [List.eq_nil_iff_forall_not_mem]
      intro m hm
      obtain ⟨hmdead, now, hnow⟩ := hdead m hm
      unfold suspicionExpired at hnow
      cases hstate : m.state <;> rw [hstate] at hnow hmdead <;>
        simp [MemberState.isDead] at hnow hmdead
    subst hnone
    exact Follows.pure fun _ _ => trivial
  | reaping =>
    refine Follows.call_bind (fun _ _ => rfl) fun expired _ _ _ => ?_
    simp only
    split_ifs
    · exact Follows.pure fun _ _ => trivial
    · exact Follows.call (fun _ _ => rfl) fun _ _ _ _ _ _ => trivial
  | _ => exact absurd hkind (by simp [Kind.silent])

/-- Everybody holds everybody dead, nothing is in flight and nobody is about to say anything. -/
structure Cluster.Muted (c : Cluster) : Prop where
  net : c.net = []
  dead : ∀ q p, c.procs q = some p → ∀ m ∈ p.shared.table.members, m.state.isDead = true
  tasks : ∀ q p slot task, c.procs q = some p → p.stopped = false → p.tasks slot = some task →
    task.Silent

variable {c c' : Cluster} {l : Label}

lemma Op.sends_of_talks {o : Op} (ho : o.talks = false) (node : LocalNode) (r : o.Res) :
    o.sends node r = none := by
  cases o with
  | sendUdp | connect | writeRequest | writeResponse => exact absurd ho (by simp [Op.talks])
  | _ => rfl

lemma Op.talks_of_silence {o : Op} (hpre : silence.pre o ()) : o.talks = false := by
  cases o with
  | merge => rfl
  | _ => exact hpre

/-- What a node that holds everybody dead reads from its table. -/
lemma Op.silence_post {o : Op} {node : LocalNode} {now : Instant} {w w' : World} {r : o.Res}
    (hdead : ∀ m ∈ w.shared.table.members, m.state.isDead = true) (hrun : o.Run node now w r w') :
    silence.post o r () := by
  cases o with
  | get id =>
    obtain ⟨rfl, _⟩ := hrun
    exact fun m hm => hdead m (MemberTable.mem_of_get hm)
  | membersWhere f =>
    intro m hm
    obtain ⟨hmem, hf⟩ := List.mem_filter.mp (hrun.1.mem_iff.mp hm)
    exact ⟨hdead m hmem, now, hf⟩
  | randomMember =>
    cases r with
    | none => rfl
    | some m =>
      obtain ⟨hmem, hpool⟩ := List.mem_filter.mp hrun.1
      rw [hdead m hmem] at hpool
      exact absurd hpool (by simp)
  | _ => trivial

/-- Nothing comes of anything. -/
lemma Cluster.Muted.step (hmuted : c.Muted) (hstep : Step c l c') (hstays : l.stays) :
    c'.Muted where
  -- the network was empty, and no task is of a kind that speaks
  net := by
    rw [List.eq_nil_iff_forall_not_mem]
    intro packet hpacket
    rcases hstep.mem_net hpacket with hold | ⟨conn, _, _, rfl⟩ |
      ⟨q, p, slot, kind, o, next, r, hp, halive, htask, rfl, hsends⟩
    · rw [hmuted.net] at hold
      exact absurd hold (by simp)
    · exact hstays
    · have hpre := (hmuted.tasks q p slot _ hp halive htask).follows.step.1
      rw [Op.sends_of_talks (Op.talks_of_silence hpre)] at hsends
      exact absurd hsends (by simp)
  dead q p' hp' := by
    rcases hstep.proc_cases hp' with ⟨p, hp, hev⟩ | ⟨_, node, seeds, rfl, _⟩
    · cases hev with
      | quiet _ _ hshared =>
        rw [hshared]
        exact hmuted.dead q p hp
      | op slot kind o next r shared net halive htask hl hop =>
        have hpre := (hmuted.tasks q p slot _ hp halive htask).follows.step.1
        have htable : shared.table = o.tableAfter c.clock p.shared.table := hop.table
        show ∀ m ∈ shared.table.members, m.state.isDead = true
        rw [htable]
        cases o with
        | merge => exact hpre.elim
        | remove ids => exact fun m hm => hmuted.dead q p hp m (List.mem_filter.mp hm).1
        | _ => exact hmuted.dead q p hp
    · exact hstays.elim
  tasks q p' slot task hp' halive' htask' := by
    cases Task.arises hstep hp' halive' htask' with
    | kept p _ hp halive htask => exact hmuted.tasks q p slot task hp halive htask
    | moved p kind o next r net hp halive htask hl hop =>
      have hsilent := hmuted.tasks q p slot _ hp halive htask
      have hpost := Op.silence_post (hmuted.dead q p hp) hop
      exact ⟨hsilent.kind, hsilent.follows.step.2 r () trivial hpost⟩
    | followed p slot₀ kind₀ out free kind hp halive htask hl hnext =>
      have hsilent := hmuted.tasks q p slot₀ _ hp halive htask
      have hkind := hsilent.kind
      have hfinds := hsilent.follows.result
      cases hnext with
      | probing => exact absurd hfinds (by simp [Kind.finds])
      | nobody | reaping => exact Task.silent_start _ rfl
      | _ => exact absurd hkind (by simp [Kind.silent])
    | begun p kind hp halive haborted hl hbegins =>
      subst hl
      cases hbegins with
      | shutdown => exact absurd rfl hstays
      | _ => exact Task.silent_start _ rfl
    | received p src body hp halive hslot hl hnet | accepted p n conn body hp halive hslot hl hnet =>
      rw [hmuted.net] at hnet
      exact absurd hnet (by simp)
    | joining seeds hslot hl =>
      subst hl
      exact hstays.elim

section

variable {node node' : LocalNode} {clock : Instant} {shared shared' : Shared}

lemma Label.cut.stays {a b : NodeId} (hl : l.cut a b) : l.stays := by
  have hfruitless : ∀ {q}, l.fruitless q → l.stays := by
    intro q hl
    cases l with
    | begins q' slot kind =>
      rintro rfl
      exact absurd hl.2.2 (by simp [Kind.detects])
    | op | finish => trivial
    | _ => exact hl.elim
  cases l with
  | tick => trivial
  | _ => exact hl.elim hfruitless hfruitless

end

/-! ## Repair -/

end Dalila
