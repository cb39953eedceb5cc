import Dalila.Wire

/-!
# The local node

`LocalNode` is what a process says about itself and never changes. `Guarded` is what every
clone of it shares: the incarnation, with the two flags only touched under its lock.
-/

namespace Dalila

/-- The part of `LocalNode` fixed at startup. -/
structure LocalNode where
  id : NodeId
  addr : SocketAddr
  tags : List String
deriving DecidableEq, Repr

def LocalNode.hasTag (node : LocalNode) (tag : String) : Bool :=
  node.tags.any fun t => t = tag

/-- What the incarnation's lock guards. Each function below is one critical section. -/
structure Guarded where
  incarnation : Incarnation
  leaving : Bool
  ready : Bool
deriving DecidableEq, Repr

namespace Guarded

/-- `LocalNode::new` -/
def new : Guarded where
  incarnation := 0
  leaving := false
  ready := true

/-- Incarnation and readiness, read together. -/
def current (g : Guarded) : Incarnation × Bool :=
  (g.incarnation, g.ready)

/-- Answer a rumor that this node is suspect or dead. `none` if this node is leaving and the
rumor should stand. -/
def refute (g : Guarded) (rumored : Incarnation) : Option Incarnation × Guarded :=
  if g.leaving then
    (none, g)
  else if rumored ≥ g.incarnation then
    let incarnation := Incarnation.superseding rumored
    (some incarnation, { g with incarnation })
  else
    -- already beaten by our current incarnation
    (some g.incarnation, g)

/-- Stop defending this node's liveness: its incarnation is final from here on. -/
def leave (g : Guarded) : Guarded :=
  { g with leaving := true }

/-- Record whether this node's app is answering. True if that changed. -/
def setReady (g : Guarded) (ready : Bool) : Bool × Guarded :=
  if g.leaving || g.ready == ready then
    (false, g)
  else
    (true, { g with incarnation := Incarnation.superseding g.incarnation, ready })

end Guarded

/-! ## What the node says about itself -/

namespace LocalNode

/-- `LocalNode::identity`, from what `current` read. -/
def identity (node : LocalNode) (current : Incarnation × Bool) : WireIdentity where
  id := node.id
  addr := node.addr
  incarnation := current.1
  ready := current.2
  tags := node.tags

/-- `LocalNode::alive_rumor`, from what `current` read. -/
def aliveRumor (node : LocalNode) (current : Incarnation × Bool) : WireMember where
  id := node.id
  addr := node.addr
  incarnation := current.1
  state := .alive
  ready := current.2
  tags := node.tags

@[simp] theorem intoMember_identity (node : LocalNode) (current : Incarnation × Bool) :
    (node.identity current).intoMember = node.aliveRumor current := rfl

end LocalNode

/-! ## What moves an incarnation -/

namespace Guarded

/-- A refutation changes nothing but the incarnation. -/
theorem refute_flags (g : Guarded) (rumored : Incarnation) :
    (g.refute rumored).2.leaving = g.leaving ∧ (g.refute rumored).2.ready = g.ready := by
  unfold refute
  split_ifs <;> simp

theorem incarnation_le_refute (g : Guarded) (rumored : Incarnation) :
    g.incarnation ≤ (g.refute rumored).2.incarnation := by
  unfold refute
  split_ifs with _ hge
  · exact le_refl _
  · exact le_trans hge (Incarnation.le_superseding rumored)
  · exact le_refl _

/-- A node that is leaving answers nothing. -/
theorem refute_of_leaving {g : Guarded} (h : g.leaving = true) (rumored : Incarnation) :
    g.refute rumored = (none, g) := by
  simp [refute, h]

/-- A node that stays ends up above the rumor it answers. -/
theorem lt_refute {g : Guarded} (h : g.leaving = false) {rumored : Incarnation}
    (hmax : rumored < Incarnation.max) : rumored < (g.refute rumored).2.incarnation := by
  unfold refute
  rw [if_neg (by simp [h])]
  split_ifs with hge
  · exact Incarnation.lt_superseding hmax
  · exact lt_of_not_ge hge

theorem setReady_leaving (g : Guarded) (ready : Bool) :
    (g.setReady ready).2.leaving = g.leaving := by
  unfold setReady
  split_ifs <;> rfl

theorem setReady_of_leaving {g : Guarded} (h : g.leaving = true) (ready : Bool) :
    g.setReady ready = (false, g) := by
  simp [setReady, h]

theorem incarnation_le_setReady (g : Guarded) (ready : Bool) :
    g.incarnation ≤ (g.setReady ready).2.incarnation := by
  unfold setReady
  split_ifs
  · exact le_refl _
  · exact Incarnation.le_superseding _

/-- Below the top, readiness only changes together with the incarnation. -/
theorem setReady_ready {g : Guarded} (hmax : g.incarnation < Incarnation.max) {ready : Bool}
    (h : (g.setReady ready).2.incarnation = g.incarnation) :
    (g.setReady ready).2.ready = g.ready := by
  unfold setReady at h ⊢
  split_ifs at h ⊢
  · rfl
  · exact absurd h (ne_of_gt (Incarnation.lt_superseding hmax))

end Guarded

end Dalila
