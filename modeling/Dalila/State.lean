import Dalila.Wire

/-!
# The member table

This node's belief about every peer it has heard of. `merge` is the only way in. Each
function below is one critical section of the table's lock.
-/

namespace Dalila

/-- The `HashMap<NodeId, Member>`: one entry an id, in no particular order. -/
structure MemberTable where
  members : List Member
  nodup : (members.map Member.id).Nodup

namespace MemberTable

/-- No entries. -/
def new : MemberTable where
  members := []
  nodup := List.nodup_nil

def get (table : MemberTable) (id : NodeId) : Option Member :=
  table.members.find? fun member => member.id = id

def len (table : MemberTable) : ℕ :=
  table.members.length

def ids (table : MemberTable) : List NodeId :=
  table.members.map Member.id

theorem nodup_filter (table : MemberTable) (p : Member → Bool) :
    ((table.members.filter p).map Member.id).Nodup :=
  table.nodup.sublist (List.filter_sublist.map Member.id)

/-- Put `member` under its id, in place of whatever is there. -/
def put (table : MemberTable) (member : Member) : MemberTable where
  members := member :: table.members.filter fun m => m.id ≠ member.id
  nodup := by
    rw [List.map_cons, List.nodup_cons]
    refine ⟨?_, table.nodup_filter _⟩
    simp [List.mem_map, List.mem_filter]

/-- Drop the given members from the table. -/
def remove (table : MemberTable) (ids : List NodeId) : MemberTable where
  members := table.members.filter fun m => m.id ∉ ids
  nodup := table.nodup_filter _

end MemberTable

/-- What `merge` did with a rumor. -/
inductive MergeOutcome where
  | ignored
  | added
  | updated
  | refute (rumored : Incarnation)
deriving DecidableEq, Repr

/-- A higher incarnation always wins. At the same incarnation, Dead beats Suspect beats
Alive. -/
def supersedes (rumor : WireMember) (existing : Member) : Bool :=
  existing.key < rumor.key

/-- What an update leaves of an entry: only incarnation, state, readiness and tags change,
the address stays as first learned. -/
def Member.update (member : Member) (now : Instant) (rumor : WireMember) : Member :=
  { member with
    incarnation := rumor.incarnation
    state := rumor.state.toMember now
    ready := rumor.ready
    tags := rumor.tags }

namespace MemberTable

/-- `MemberTable::merge`. A rumor about the node itself is not for the table; one about somebody
unknown makes an entry if it is alive or suspect and names an address to connect to. -/
def merge (table : MemberTable) (now : Instant) (rumor : WireMember) (me : NodeId) :
    MergeOutcome × MemberTable :=
  if rumor.id = me then
    match rumor.state with
    | .alive => (.ignored, table)
    | .suspect | .dead => (.refute rumor.incarnation, table)
  else
    match table.get rumor.id with
    | none =>
      -- a record nobody can reach is worthless
      if rumor.addr.ip.isUnspecified then
        (.ignored, table)
      -- never learn about a member by being told it's dead
      else if rumor.state = .dead then
        (.ignored, table)
      else
        (.added, table.put (rumor.toMember now))
    | some member =>
      if supersedes rumor member then
        (.updated, table.put (member.update now rumor))
      else
        (.ignored, table)

/-- Every member `f` holds of. `ready`, the sweeps and `announce_leave` read through here. -/
def membersWhere (table : MemberTable) (f : Member → Bool) : List Member :=
  table.members.filter f

/-- Whoever can be sent work. -/
def ready (table : MemberTable) : List Member :=
  table.membersWhere fun m => m.state = .alive && m.ready

/-- The members `relay_candidates` draws from. -/
def relayPool (table : MemberTable) (exclude : NodeId) : List Member :=
  table.members.filter fun m => m.id ≠ exclude && !m.state.isDead

/-- The members `random_member` draws from. -/
def partnerPool (table : MemberTable) : List Member :=
  table.members.filter fun m => !m.state.isDead

end MemberTable

/-! ## Reading a table after a write -/

namespace MemberTable

variable {table : MemberTable} {id : NodeId} {member : Member}

theorem get_new (id : NodeId) : new.get id = none := rfl

theorem id_of_get (h : table.get id = some member) : member.id = id := by
  simpa using List.find?_some h

theorem mem_of_get (h : table.get id = some member) : member ∈ table.members :=
  List.mem_of_find?_eq_some h

/-- There is one entry for each id. -/
theorem get_of_mem (h : member ∈ table.members) : table.get member.id = some member := by
  unfold get
  rw [List.find?_eq_some_iff_append]
  obtain ⟨before, after, hsplit⟩ := List.append_of_mem h
  refine ⟨by simp, before, after, hsplit, fun m hm => ?_⟩
  have hnodup := table.nodup
  rw [hsplit, List.map_append, List.map_cons, List.nodup_append] at hnodup
  have hne := hnodup.2.2 m.id (List.mem_map_of_mem hm) member.id (by simp)
  simpa using hne

theorem get_eq_none_iff : table.get id = none ↔ ∀ m ∈ table.members, m.id ≠ id := by
  simp [get]

theorem mem_ids_iff : id ∈ table.ids ↔ (table.get id).isSome := by
  rw [Option.isSome_iff_ne_none, ne_eq, get_eq_none_iff]
  simp [ids]

theorem get_filter (p : Member → Bool) (hnodup : ((table.members.filter p).map Member.id).Nodup) :
    (⟨table.members.filter p, hnodup⟩ : MemberTable).get id = (table.get id).filter p := by
  cases h : table.get id with
  | none =>
    rw [get_eq_none_iff] at h
    rw [Option.filter_none, get_eq_none_iff]
    exact fun m hm => h m (List.mem_filter.mp hm).1
  | some member =>
    have hid := id_of_get h
    rw [Option.filter_some]
    split_ifs with hp
    · have hmem : member ∈ (⟨table.members.filter p, hnodup⟩ : MemberTable).members :=
        List.mem_filter.mpr ⟨mem_of_get h, hp⟩
      rw [← hid]
      exact get_of_mem hmem
    · rw [get_eq_none_iff]
      intro m hm hmid
      obtain ⟨hm, hpm⟩ := List.mem_filter.mp hm
      have hget := get_of_mem hm
      rw [hmid, h] at hget
      exact hp (Option.some.inj hget ▸ hpm)

/-- Putting an entry changes it and no other. -/
@[simp] theorem get_put (table : MemberTable) (member : Member) (id : NodeId) :
    (table.put member).get id = if id = member.id then some member else table.get id := by
  have hnodup := table.nodup_filter fun m => m.id ≠ member.id
  have hget : (table.put member).get id = if member.id = id then some member else
      (⟨table.members.filter fun m => m.id ≠ member.id, hnodup⟩ : MemberTable).get id := by
    simp only [get, put, List.find?_cons]
    by_cases h : member.id = id <;> simp [h]
  rw [hget, get_filter]
  by_cases h : id = member.id
  · simp [h]
  · rw [if_neg (Ne.symm h), if_neg h]
    cases hg : table.get id with
    | none => rfl
    | some m => simp [id_of_get hg, h]

@[simp] theorem get_remove (table : MemberTable) (ids : List NodeId) (id : NodeId) :
    (table.remove ids).get id = if id ∈ ids then none else table.get id := by
  have hget : (table.remove ids).get id = (table.get id).filter fun m => m.id ∉ ids :=
    get_filter _ _
  rw [hget]
  cases hg : table.get id with
  | none => simp
  | some m =>
    rw [Option.filter_some, id_of_get hg]
    by_cases h : id ∈ ids <;> simp [h]

end MemberTable

end Dalila
