import Dalila.Node

/-!
# What crosses the wire

The records nodes exchange and the bodies of their TCP frames, with the conversions
between a record and a table entry.
-/

namespace Dalila

/-- First byte of every message. -/
def PROTOCOL_VERSION : UInt8 := 6

/-- Most tags a node may have. -/
def MAX_TAGS : ℕ := 4
/-- Longest tag, in bytes. -/
def MAX_TAG_LEN : ℕ := 16

/-- A tag as `check_tags` takes it: 1 to 16 letters, digits, `-`, `_` or `.`. -/
def tagAllowed (tag : String) : Bool :=
  !tag.isEmpty && decide (tag.utf8ByteSize ≤ MAX_TAG_LEN) &&
    tag.toList.all fun c => c.isAlphanum || c = '-' || c = '_' || c = '.'

/-- Why `check_tags` refuses a list of tags. -/
inductive TagsError where
  | tooMany (given : ℕ)
  | malformed (tag : String)
deriving DecidableEq, Repr

/-- Checked where tags are given, at startup: a peer's tags are trusted like the rest of
what it says. -/
def checkTags (tags : List String) : Except TagsError Unit :=
  if MAX_TAGS < tags.length then
    .error (.tooMany tags.length)
  else
    match tags.find? fun tag => !tagAllowed tag with
    | some tag => .error (.malformed tag)
    | none => .ok ()

/-- `MemberState` without the clocks, which stay with the node that set them. -/
inductive WireMemberState where
  | alive
  | suspect
  | dead
deriving DecidableEq, Repr

/-- At one incarnation, Dead beats Suspect beats Alive. -/
def rank : WireMemberState → ℕ
  | .alive => 0
  | .suspect => 1
  | .dead => 2

/-- No two states have the same rank, so records of one key say the same state. -/
theorem rank_injective : Function.Injective rank := by
  intro a b h
  cases a <;> cases b <;> simp_all [rank]

/-- One record about a member: a rumor, or a line of a snapshot. -/
structure WireMember where
  id : NodeId
  addr : SocketAddr
  incarnation : Incarnation
  state : WireMemberState
  ready : Bool
  tags : List String
deriving DecidableEq, Repr

/-- How a node introduces itself. -/
structure WireIdentity where
  id : NodeId
  addr : SocketAddr
  incarnation : Incarnation
  ready : Bool
  tags : List String
deriving DecidableEq, Repr

/-- The member record for the node introducing itself. -/
def WireIdentity.intoMember (identity : WireIdentity) : WireMember where
  id := identity.id
  addr := identity.addr
  incarnation := identity.incarnation
  state := .alive
  ready := identity.ready
  tags := identity.tags

/-! ## Between records and table entries -/

/-- `From<MemberState> for WireMemberState` -/
def MemberState.toWire : MemberState → WireMemberState
  | .dead _ => .dead
  | .alive => .alive
  | .suspect _ => .suspect

/-- `From<WireMemberState> for MemberState`: this node learns of the suspicion or the death
now, so its own clock for it starts now. -/
def WireMemberState.toMember (now : Instant) : WireMemberState → MemberState
  | .dead => .dead now
  | .alive => .alive
  | .suspect => .suspect now

/-- `WireMember::new` -/
def WireMember.new (member : Member) : WireMember where
  id := member.id
  addr := member.addr
  incarnation := member.incarnation
  state := member.state.toWire
  ready := member.ready
  tags := member.tags

/-- `From<WireMember> for Member` -/
def WireMember.toMember (now : Instant) (rumor : WireMember) : Member where
  id := rumor.id
  addr := rumor.addr
  incarnation := rumor.incarnation
  state := rumor.state.toMember now
  ready := rumor.ready
  tags := rumor.tags

@[simp] theorem WireMemberState.toWire_toMember (now : Instant) (state : WireMemberState) :
    (state.toMember now).toWire = state := by
  cases state <;> rfl

@[simp] theorem WireMember.new_toMember (now : Instant) (rumor : WireMember) :
    WireMember.new (rumor.toMember now) = rumor := by
  simp [WireMember.new, WireMember.toMember]

theorem MemberState.isDead_iff {state : MemberState} :
    state.isDead = true ↔ state.toWire = .dead := by
  cases state <;> simp [isDead, toWire]

/-! ## The order records are merged by -/

/-- Incarnation first, then rank: what `supersedes` compares. -/
def WireMember.key (rumor : WireMember) : Incarnation ×ₗ ℕ :=
  toLex (rumor.incarnation, rank rumor.state)

/-- An entry's place in the order of records. -/
def Member.key (member : Member) : Incarnation ×ₗ ℕ :=
  toLex (member.incarnation, rank member.state.toWire)

@[simp] theorem WireMember.key_new (member : Member) :
    (WireMember.new member).key = member.key := rfl

@[simp] theorem WireMember.key_toMember (now : Instant) (rumor : WireMember) :
    (rumor.toMember now).key = rumor.key := by
  rw [← WireMember.key_new, WireMember.new_toMember]

/-- A key says both the incarnation and the state. -/
theorem WireMember.key_eq_iff {a b : WireMember} :
    a.key = b.key ↔ a.incarnation = b.incarnation ∧ a.state = b.state := by
  simp [key, rank_injective.eq_iff]

/-- What comes later: a greater incarnation or, at the same one, a worse state. -/
theorem WireMember.key_lt_iff {a b : WireMember} :
    a.key < b.key ↔
      a.incarnation < b.incarnation ∨
        a.incarnation = b.incarnation ∧ rank a.state < rank b.state := by
  simp [key, Prod.Lex.toLex_lt_toLex]

theorem WireMember.key_le_iff {a b : WireMember} :
    a.key ≤ b.key ↔
      a.incarnation < b.incarnation ∨
        a.incarnation = b.incarnation ∧ rank a.state ≤ rank b.state := by
  simp [key, Prod.Lex.toLex_le_toLex]

/-! ## TCP bodies -/

/-- What a frame carries. -/
inductive TcpBody where
  | joinRequest («from» : WireIdentity)
  | joinResponse («from» : WireIdentity) (members : List WireMember)
  | membersRequest
  | membersResponse («from» : WireIdentity) (members : List WireMember)
  | syncRequest («from» : WireIdentity) (members : List WireMember)
  | syncResponse («from» : WireIdentity) (members : List WireMember)
deriving DecidableEq, Repr

end Dalila
