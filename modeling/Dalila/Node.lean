import Mathlib.Algebra.Order.Ring.Nat
import Mathlib.Data.Prod.Lex
import Mathlib.Order.Fin.Basic

/-!
# Nodes and members

The plain data every other part is shaped by: ids, addresses, incarnations, and what a
node records about a peer.
-/

namespace Dalila

/-- A reading of a machine's clock, in milliseconds. -/
abbrev Instant := ℕ

/-- A process's id, drawn afresh at every start. -/
structure NodeId where
  uuid : Vector UInt8 16
deriving DecidableEq, Repr

inductive IpAddr where
  | v4 (octets : Vector UInt8 4)
  | v6 (octets : Vector UInt8 16)
deriving DecidableEq, Repr

/-- `0.0.0.0` and `::`, which nobody can connect to. -/
def IpAddr.isUnspecified : IpAddr → Bool
  | .v4 octets => octets = Vector.replicate 4 0
  | .v6 octets => octets = Vector.replicate 16 0

/-- An address as peers exchange it. An IPv6 flow label and scope id never cross the wire. -/
structure SocketAddr where
  ip : IpAddr
  port : UInt16
deriving DecidableEq, Repr

/-! ## Incarnations -/

/-- A member's own version number, a `u32`. -/
abbrev Incarnation := Fin (2 ^ 32)

namespace Incarnation

instance neZero : NeZero (2 ^ 32) := ⟨by decide⟩

/-- `u32::MAX`, where `superseding` saturates. -/
def max : Incarnation := ⟨2 ^ 32 - 1, by decide⟩

/-- `Incarnation::superseding`. At the greatest number it stays there. -/
def superseding (other : Incarnation) : Incarnation :=
  ⟨min (other.val + 1) (2 ^ 32 - 1), by omega⟩

theorem val_superseding (other : Incarnation) :
    (superseding other).val = min (other.val + 1) (2 ^ 32 - 1) := rfl

/-- Below the top, `superseding` moves up by exactly one. -/
theorem val_superseding_of_lt {other : Incarnation} (h : other < max) :
    (superseding other).val = other.val + 1 := by
  have hlt : other.val < 2 ^ 32 - 1 := h
  rw [val_superseding]
  omega

/-- Below the greatest number it moves. -/
theorem lt_superseding {other : Incarnation} (h : other < max) : other < superseding other := by
  have hval := val_superseding_of_lt h
  show other.val < (superseding other).val
  omega

theorem le_superseding (other : Incarnation) : other ≤ superseding other := by
  have hlt := other.isLt
  show other.val ≤ (superseding other).val
  rw [val_superseding]
  omega

end Incarnation

/-! ## Members -/

/-- A member's liveness as this node believes it. `since` reads this machine's clock, taken
when the node learned of the suspicion or the death; it never crosses the wire. -/
inductive MemberState where
  | alive
  | suspect (since : Instant)
  | dead (since : Instant)
deriving DecidableEq, Repr

/-- What a table records of a peer. `state` and `ready` are the news, `addr` stays as first learned.
-/
structure Member where
  id : NodeId
  addr : SocketAddr
  incarnation : Incarnation
  state : MemberState
  ready : Bool
  tags : List String
deriving DecidableEq, Repr

/-- `matches!(m.state, MemberState::Dead { .. })` -/
def MemberState.isDead : MemberState → Bool
  | .dead _ => true
  | _ => false

end Dalila
