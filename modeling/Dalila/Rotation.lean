import Dalila.MergeOrder
import Dalila.Works

/-!
# The probe rotation

`Call` is one call of `next_target` while other tasks write the table, and `Rotation` a run of
calls, each with what the last one left of the order. The file proves that between two refills
nobody comes up twice, that who stays a member comes up before the second refill from now, that a
call returns, and that it finds nobody exactly if nobody is left to probe (`rotation_fair`).
-/

namespace Dalila

open Program
open MemberTable (sampleRumor)

abbrev OpLog := List (Σ o, Op.Res o)

/-- The table the rotation's `k`-th read sees, for every `k`. -/
abbrev TableHistory := ℕ → MemberTable

/-- What the other tasks of the node `me` make of its table. -/
inductive TableChange (me : NodeId) : MemberTable → MemberTable → Prop where
  | refl (table : MemberTable) : TableChange me table table
  | merge {table table' : MemberTable} (now : Instant) (rumor : WireMember)
      (h : TableChange me table table') : TableChange me table (table'.merge now rumor me).2
  | remove {table table' : MemberTable} (ids : List NodeId) (h : TableChange me table table') :
      TableChange me table (table'.remove ids)

/-- A table that does not hold the own id to begin with, and how it goes on. -/
structure Possible (me : NodeId) (tables : TableHistory) : Prop where
  start : (tables 0).get me = none
  next : ∀ k, TableChange me (tables k) (tables (k + 1))

/-- In the table and not dead. -/
def Live (table : MemberTable) (id : NodeId) : Prop :=
  ∃ member, table.get id = some member ∧ member.state.isDead = false

/-- The table changes hands before every operation. -/
def othersWrite (tables : TableHistory) (k : ℕ) (w w' : World) : Prop :=
  w' = { w with shared := { w.shared with table := tables k } }

/-- One call of `next_target`, after the operations in `log`. -/
def Call (node : LocalNode) (tables : TableHistory) (log : OpLog) (order : List NodeId)
    (found : Option Member) (log' : OpLog) (order' : List NodeId) : Prop :=
  ∃ now w w', Exec (amid (othersWrite tables) fun _ => Op.Run node now) (nextTarget order) (log, w)
    (found, order') (log', w')

inductive Event where
  /-- The order ran out, and is a fresh shuffle of the table's ids as the read `k` saw them. -/
  | refill (k : ℕ)
  | returned (found : Option Member)
deriving DecidableEq, Repr

/-- The refills of the reads from the `k`-th on. -/
def refills : ℕ → OpLog → List Event
  | _, [] => []
  | k, ⟨.shuffledIds, _⟩ :: log => .refill k :: refills (k + 1) log
  | k, _ :: log => refills (k + 1) log

/-- The calls of the detector one after another, from what is left of an order on. -/
inductive Rotation (node : LocalNode) (tables : TableHistory) (log₀ : OpLog)
    (order₀ : List NodeId) : OpLog → List NodeId → List Event → Prop where
  | start : Rotation node tables log₀ order₀ log₀ order₀ []
  | call {log log' : OpLog} {order order' : List NodeId} {events : List Event}
      {found : Option Member} (h : Rotation node tables log₀ order₀ log order events)
      (hcall : Call node tables log order found log' order') :
      Rotation node tables log₀ order₀ log' order'
        (events ++ refills log.length (log'.drop log.length) ++ [.returned found])

namespace Event

def isRefill : Event → Bool
  | .refill _ => true
  | .returned _ => false

/-- The ids returned, first to last. -/
def returnedIds (events : List Event) : List NodeId :=
  events.filterMap fun
    | .returned (some member) => some member.id
    | _ => none

/-- How many calls have returned. -/
def calls (events : List Event) : ℕ :=
  events.countP fun event => !event.isRefill

/-- The read of the first refill. -/
def firstRefill (events : List Event) : Option ℕ :=
  events.findSome? fun
    | .refill k => some k
    | .returned _ => none

@[simp] lemma returnedIds_append (events events' : List Event) :
    returnedIds (events ++ events') = returnedIds events ++ returnedIds events' :=
  List.filterMap_append ..

@[simp] lemma calls_append (events events' : List Event) :
    calls (events ++ events') = calls events + calls events' :=
  List.countP_append ..

@[simp] lemma firstRefill_append (events events' : List Event) :
    firstRefill (events ++ events') = (firstRefill events).or (firstRefill events') :=
  List.findSome?_append ..

end Event

variable {node : LocalNode} {tables : TableHistory} {log log' log₀ : OpLog}
  {order order' order₀ : List NodeId} {events : List Event} {found : Option Member} {x : NodeId}

/-! ## What one call does -/

/-- Every id was gone or dead when a read from `lo` to `hi` looked it up. -/
def Skipped (tables : TableHistory) (lo hi : ℕ) (ids : List NodeId) : Prop :=
  ∀ id ∈ ids, ∃ k, lo ≤ k ∧ k < hi ∧ ¬ Live (tables k) id

/-- A read from `lo` to `hi` saw this entry, not dead. -/
def Seen (tables : TableHistory) (lo hi : ℕ) (member : Member) : Prop :=
  ∃ k, lo ≤ k ∧ k < hi ∧ (tables k).get member.id = some member ∧ member.state.isDead = false

/-- How one pass over an order ends. -/
inductive Passed (tables : TableHistory) (lo hi : ℕ) (order : List NodeId) :
    Option Member → List NodeId → Prop where
  | found (skipped : List NodeId) (member : Member) (rest : List NodeId)
      (horder : order = skipped ++ member.id :: rest) (hskipped : Skipped tables lo hi skipped)
      (hseen : Seen tables lo hi member) : Passed tables lo hi order (some member) rest
  | exhausted (hskipped : Skipped tables lo hi order) : Passed tables lo hi order none []

/-- How one call ends, with its refills. -/
inductive Called (tables : TableHistory) (lo hi : ℕ) (order : List NodeId) :
    Option Member → List NodeId → List Event → Prop where
  | kept (member : Member) (rest : List NodeId)
      (hpassed : Passed tables lo hi order (some member) rest) :
      Called tables lo hi order (some member) rest []
  | refilled (k : ℕ) (ids : List NodeId) (member : Member) (rest : List NodeId)
      (hskipped : Skipped tables lo hi order) (hlo : lo ≤ k) (hhi : k < hi)
      (hids : ids.Perm (tables k).ids) (hpassed : Passed tables lo hi ids (some member) rest) :
      Called tables lo hi order (some member) rest [.refill k]
  | exhausted (k k' : ℕ) (ids ids' : List NodeId) (hskipped : Skipped tables lo hi order)
      (hlo : lo ≤ k) (hhi : k < hi) (hids : ids.Perm (tables k).ids)
      (hskipped' : Skipped tables lo hi ids) (hlo' : lo ≤ k') (hhi' : k' < hi)
      (hids' : ids'.Perm (tables k').ids) :
      Called tables lo hi order none ids' [.refill k, .refill k']

lemma refills_append (k : ℕ) (log log' : OpLog) :
    refills k (log ++ log') = refills k log ++ refills (k + log.length) log' := by
  induction log generalizing k with
  | nil => rfl
  | cons entry log ih =>
    obtain ⟨o, r⟩ := entry
    have hnext := ih (k + 1)
    rw [show k + (⟨o, r⟩ :: log : OpLog).length = k + 1 + log.length by simp; omega]
    cases o <;> simpa [refills] using hnext

section

variable {lo hi lo' hi' : ℕ}

lemma Skipped.mono {ids : List NodeId} (h : Skipped tables lo hi ids) (hlo : lo' ≤ lo)
    (hhi : hi ≤ hi') : Skipped tables lo' hi' ids := by
  intro id hid
  obtain ⟨k, hk, hk', hnot⟩ := h id hid
  exact ⟨k, hlo.trans hk, lt_of_lt_of_le hk' hhi, hnot⟩

lemma Seen.mono {member : Member} (h : Seen tables lo hi member) (hlo : lo' ≤ lo)
    (hhi : hi ≤ hi') : Seen tables lo' hi' member := by
  obtain ⟨k, hk, hk', hseen⟩ := h
  exact ⟨k, hlo.trans hk, lt_of_lt_of_le hk' hhi, hseen⟩

lemma Passed.mono {rest : List NodeId} (h : Passed tables lo hi order found rest) (hlo : lo' ≤ lo)
    (hhi : hi ≤ hi') : Passed tables lo' hi' order found rest := by
  cases h with
  | found skipped member rest horder hskipped hseen =>
    exact .found skipped member rest horder (hskipped.mono hlo hhi) (hseen.mono hlo hhi)
  | exhausted hskipped => exact .exhausted (hskipped.mono hlo hhi)

end

/-- One more id in front of an order, looked up and passed over. -/
lemma Passed.cons {lo hi : ℕ} {id : NodeId} {rest : List NodeId}
    (hnot : ¬ Live (tables lo) id) (hlt : lo < hi)
    (h : Passed tables (lo + 1) hi order found rest) :
    Passed tables lo hi (id :: order) found rest := by
  have hskip : ∀ {ids}, Skipped tables (lo + 1) hi ids → Skipped tables lo hi (id :: ids) := by
    intro ids hids other hother
    rcases List.mem_cons.mp hother with rfl | hother
    · exact ⟨lo, le_refl _, hlt, hnot⟩
    · exact (hids.mono (Nat.le_succ lo) (le_refl hi)) other hother
  cases h with
  | found skipped member rest horder hskipped hseen =>
    refine .found (id :: skipped) member rest ?_ (hskip hskipped)
      (hseen.mono (Nat.le_succ lo) (le_refl hi))
    rw [horder]
    rfl
  | exhausted hskipped => exact .exhausted (hskip hskipped)

/-- A pass only looks ids up. -/
lemma exec_nextInPass {now : Instant} {w w' : World} {rest : List NodeId}
    (h : Exec (amid (othersWrite tables) fun _ => Op.Run node now) (nextInPass order) (log, w)
      (found, rest) (log', w')) :
    Passed tables log.length log'.length order found rest ∧
      ∃ reads, log' = log ++ reads ∧ refills log.length reads = [] := by
  induction order generalizing log w with
  | nil =>
    obtain ⟨hret, hend⟩ := exec_pure.mp h
    have hfound : found = none := congrArg Prod.fst hret
    have hrest : rest = [] := congrArg Prod.snd hret
    have hlog : log' = log := congrArg Prod.fst hend
    rw [hfound, hrest, hlog]
    exact ⟨.exhausted (by simp [Skipped]), [], by simp, rfl⟩
  | cons id order ih =>
    obtain ⟨entry, ⟨log₁, w₁⟩, ⟨hlog, u, hothers, hentry, _⟩, h⟩ := exec_call_bind.mp h
    have hlog : log₁ = log ++ [⟨.get id, entry⟩] := hlog
    have hothers : u = { w with shared := { w.shared with table := tables log.length } } := hothers
    have hentry : entry = (tables log.length).get id := by
      rw [hentry, hothers]
    have hlen : log₁.length = log.length + 1 := by
      rw [hlog, List.length_append]
      rfl
    -- the entry is passed over
    have hnext : ¬ Live (tables log.length) id →
        Exec (amid (othersWrite tables) fun _ => Op.Run node now) (nextInPass order) (log₁, w₁)
          (found, rest) (log', w') →
        Passed tables log.length log'.length (id :: order) found rest ∧
          ∃ reads, log' = log ++ reads ∧ refills log.length reads = [] := by
      intro hnot h
      obtain ⟨hpassed, reads, hlog', hreads⟩ := ih h
      rw [hlen] at hpassed hreads
      refine ⟨hpassed.cons hnot ?_, ⟨.get id, entry⟩ :: reads, ?_, hreads⟩
      · rw [hlog', List.length_append, hlen]
        omega
      · rw [hlog', hlog, List.append_assoc]
        rfl
    cases hget : entry with
    | none =>
      rw [hget] at h
      refine hnext ?_ h
      rintro ⟨member, hmember, _⟩
      rw [← hentry, hget] at hmember
      exact absurd hmember (by simp)
    | some member =>
      rw [hget] at h hentry
      by_cases hdead : member.state.isDead = true
      · refine hnext ?_ (by simpa [hdead] using h)
        rintro ⟨member', hmember', hlive⟩
        obtain rfl := Option.some.inj (hentry.trans hmember')
        exact absurd hdead (by simp [hlive])
      · rw [Bool.not_eq_true] at hdead
        have h : Exec (amid (othersWrite tables) fun _ => Op.Run node now)
            (pure (some member, order) : Prog _) (log₁, w₁) (found, rest) (log', w') := by
          simpa [hdead] using h
        obtain ⟨hret, hend⟩ := exec_pure.mp h
        have hfound : found = some member := congrArg Prod.fst hret
        have hrest : rest = order := congrArg Prod.snd hret
        have hlog' : log' = log₁ := congrArg Prod.fst hend
        have hid : member.id = id := MemberTable.id_of_get hentry.symm
        rw [hfound, hrest, hlog', hlen]
        refine ⟨.found [] member order (by rw [hid]; rfl) (by simp [Skipped]) ?_, ?_⟩
        · exact ⟨log.length, le_refl _, Nat.lt_succ_self _, by rw [hid, hentry], hdead⟩
        · exact ⟨[⟨.get id, entry⟩], hlog, rfl⟩

/-- One pass and what follows it, if another is left. -/
lemma exec_nextInPasses {passes : ℕ} {now : Instant} {w w' : World}
    (h : Exec (amid (othersWrite tables) fun _ => Op.Run node now) (nextInPasses (passes + 1) order)
      (log, w) (found, order') (log', w')) :
    ∃ log₁ reads, log₁ = log ++ reads ∧ refills log.length reads = [] ∧
      ((∃ member, found = some member ∧ log' = log₁ ∧
          Passed tables log.length log₁.length order (some member) order') ∨
        Skipped tables log.length log₁.length order ∧ ∃ ids w₁ w₂,
          ids.Perm (tables log₁.length).ids ∧
          Exec (amid (othersWrite tables) fun _ => Op.Run node now) (nextInPasses passes ids)
            (log₁ ++ [⟨.shuffledIds, ids⟩], w₁) (found, order') (log', w₂)) := by
  obtain ⟨⟨found₁, rest⟩, ⟨log₁, w₁⟩, hpass, h⟩ := exec_bind.mp h
  obtain ⟨hpassed, reads, hlog₁, hreads⟩ := exec_nextInPass hpass
  refine ⟨log₁, reads, hlog₁, hreads, ?_⟩
  cases found₁ with
  | some member =>
    obtain ⟨hret, hend⟩ := exec_pure.mp h
    have hfound : found = some member := congrArg Prod.fst hret
    have hrest : order' = rest := congrArg Prod.snd hret
    have hlog' : log' = log₁ := congrArg Prod.fst hend
    exact .inl ⟨member, hfound, hlog', hrest ▸ hpassed⟩
  | none =>
    have hskipped : Skipped tables log.length log₁.length order := by
      cases hpassed with
      | exhausted hskipped => exact hskipped
    obtain ⟨ids, ⟨log₂, w₂⟩, ⟨hlog₂, u, hothers, hperm, _⟩, h⟩ := exec_call_bind.mp h
    have hlog₂ : log₂ = log₁ ++ [⟨.shuffledIds, ids⟩] := hlog₂
    have hothers : u = { w₁ with shared := { w₁.shared with table := tables log₁.length } } :=
      hothers
    rw [hothers] at hperm
    rw [hlog₂] at h
    exact .inr ⟨hskipped, ids, w₂, w', hperm, h⟩

/-- One call: a member from what is left of the order, or from a fresh shuffle, or nobody. -/
theorem Call.spec (h : Call node tables log order found log' order') :
    ∃ reads, log' = log ++ reads ∧
      Called tables log.length log'.length order found order' (refills log.length reads) := by
  obtain ⟨now, w, w', h⟩ := h
  obtain ⟨log₁, reads, hlog₁, hreads, hfirst⟩ := exec_nextInPasses h
  rcases hfirst with ⟨member, hfound, hlog', hpassed⟩ | ⟨hskipped, ids, w₁, w₂, hids, hsecond⟩
  · refine ⟨reads, hlog'.trans hlog₁, ?_⟩
    rw [hreads, hfound, hlog']
    exact .kept member order' hpassed
  · obtain ⟨log₂, reads₂, hlog₂, hreads₂, hsecond⟩ := exec_nextInPasses hsecond
    have hlen₁ : (log₁ ++ [⟨.shuffledIds, ids⟩] : OpLog).length = log₁.length + 1 := by
      rw [List.length_append]
      rfl
    have hlt : log₁.length < log₂.length := by
      rw [hlog₂, List.length_append, hlen₁]
      omega
    have hle : log.length ≤ log₁.length := by
      rw [hlog₁, List.length_append]
      omega
    have hle₂ : log₁.length ≤ (log₁ ++ [⟨.shuffledIds, ids⟩] : OpLog).length := by
      rw [hlen₁]
      exact Nat.le_succ _
    -- the reads of both passes, with the refill between them
    have hlog : log₂ = log ++ (reads ++ ⟨.shuffledIds, ids⟩ :: reads₂) := by
      rw [hlog₂, hlog₁]
      simp
    have hrefills : refills log.length (reads ++ ⟨.shuffledIds, ids⟩ :: reads₂) =
        [.refill log₁.length] := by
      rw [refills_append, hreads, ← List.length_append, ← hlog₁]
      have hafter : refills (log₁.length + 1) reads₂ = [] := by
        rw [← hlen₁]
        exact hreads₂
      simp [refills, hafter]
    rcases hsecond with ⟨member, hfound, hlog', hpassed⟩ | ⟨hskipped₂, ids₂, w₃, w₄, hids₂, hend⟩
    · refine ⟨_, hlog'.trans hlog, ?_⟩
      rw [hrefills, hfound, hlog']
      exact .refilled log₁.length ids member order' (hskipped.mono (le_refl _) hlt.le) hle hlt hids
        (hpassed.mono (hle.trans hle₂) (le_refl _))
    · obtain ⟨hret, hend⟩ := exec_pure.mp hend
      have hfound : found = none := congrArg Prod.fst hret
      have horder : order' = ids₂ := congrArg Prod.snd hret
      have hlog' : log' = log₂ ++ [⟨.shuffledIds, ids₂⟩] := congrArg Prod.fst hend
      have hlast : log₂.length < log'.length := by
        rw [hlog', List.length_append]
        exact Nat.lt_succ_self _
      have hlen' : log₂.length ≤ log'.length := hlast.le
      refine ⟨(reads ++ ⟨.shuffledIds, ids⟩ :: reads₂) ++ [⟨.shuffledIds, ids₂⟩], ?_, ?_⟩
      · rw [hlog', hlog, List.append_assoc]
      · rw [refills_append, hrefills, ← List.length_append, ← hlog, hfound, horder]
        exact .exhausted log₁.length log₂.length ids ids₂
          (hskipped.mono (le_refl _) (hlt.le.trans hlen')) hle (lt_of_lt_of_le hlt hlen') hids
          (hskipped₂.mono (hle.trans hle₂) hlen') (hle.trans hlt.le) hlast hids₂

lemma Call.called (h : Call node tables log order found log' order') :
    log.length ≤ log'.length ∧ Called tables log.length log'.length order found order'
      (refills log.length (log'.drop log.length)) := by
  obtain ⟨reads, hlog', hcalled⟩ := h.spec
  have hreads : log'.drop log.length = reads := by rw [hlog', List.drop_left]
  rw [hreads]
  refine ⟨?_, hcalled⟩
  rw [hlog', List.length_append]
  exact Nat.le_add_right _ _

lemma isRefill_of_mem_refills {k : ℕ} {event : Event} (h : event ∈ refills k log) :
    event.isRefill = true := by
  induction log generalizing k with
  | nil => exact absurd h (by simp [refills])
  | cons entry log ih =>
    obtain ⟨o, r⟩ := entry
    cases o with
    | shuffledIds =>
      rcases List.mem_cons.mp h with rfl | h
      · rfl
      · exact ih h
    | _ => exact ih (k := k + 1) h

/-! ## Where a rotation stands -/

lemma Rotation.length_le (h : Rotation node tables log₀ order₀ log order events) :
    log₀.length ≤ log.length := by
  induction h with
  | start => exact le_refl _
  | call _ hcall ih => exact ih.trans hcall.called.1

/-- A rotation splits wherever a call returned. -/
lemma Rotation.split {before after : List Event}
    (h : Rotation node tables log₀ order₀ log order events)
    (hevents : events = before ++ .returned found :: after) :
    ∃ log₁ order₁, Rotation node tables log₀ order₀ log₁ order₁ (before ++ [.returned found]) ∧
      Rotation node tables log₁ order₁ log order after := by
  induction h generalizing after with
  | start => exact absurd hevents (by simp)
  | @call log log' order order' events found' h hcall ih =>
    rcases List.eq_nil_or_concat after with rfl | ⟨after, last, rfl⟩
    · refine ⟨log', order', ?_, .start⟩
      rw [← hevents]
      exact .call h hcall
    · have hconcat : (events ++ refills log.length (log'.drop log.length)) ++ [.returned found'] =
          (before ++ .returned found :: after) ++ [last] := by
        simpa using hevents
      obtain ⟨hinit, hlast⟩ := List.append_inj' hconcat rfl
      rw [← List.singleton_injective hlast, List.concat_eq_append]
      have hrefill : Event.returned found ∉ refills log.length (log'.drop log.length) :=
        fun hmem => absurd (isRefill_of_mem_refills hmem) (by simp [Event.isRefill])
      rcases List.append_eq_append_iff.mp hinit with ⟨_, _, hinner⟩ | ⟨mid, houter, hinner⟩
      · rw [hinner] at hrefill
        exact absurd (by simp) hrefill
      · cases mid with
        | nil =>
          rw [List.nil_append] at hinner
          rw [← hinner] at hrefill
          exact absurd (by simp) hrefill
        | cons first mid =>
          injection hinner with hfirst hafter
          rw [← hfirst] at houter
          obtain ⟨log₁, order₁, hbefore, hmid⟩ := ih houter
          refine ⟨log₁, order₁, hbefore, ?_⟩
          rw [show after = mid ++ _ from hafter]
          exact .call hmid hcall

section

variable {lo hi : ℕ} {ids rest : List NodeId} {member : Member} {evs : List Event}

lemma Skipped.not_mem (h : Skipped tables lo hi ids)
    (hlive : ∀ k, lo ≤ k → k < hi → Live (tables k) x) : x ∉ ids := by
  intro hx
  obtain ⟨k, hlo, hhi, hnot⟩ := h x hx
  exact hnot (hlive k hlo hhi)

/-- A member nobody could skip is the one found, or still ahead. -/
lemma Passed.mem_rest (h : Passed tables lo hi order (some member) rest)
    (hlive : ∀ k, lo ≤ k → k < hi → Live (tables k) x) (hx : x ∈ order) (hne : member.id ≠ x) :
    x ∈ rest := by
  cases h with
  | found skipped _ _ horder hskipped _ =>
    rw [horder, List.mem_append, List.mem_cons] at hx
    rcases hx with hx | hx | hx
    · exact absurd hx (hskipped.not_mem hlive)
    · exact absurd hx.symm hne
    · exact hx

lemma Passed.length_lt (h : Passed tables lo hi order (some member) rest) :
    rest.length < order.length := by
  cases h with
  | found skipped _ _ horder _ _ =>
    rw [horder, List.length_append, List.length_cons]
    omega

lemma Live.mem_ids {table : MemberTable} (h : Live table x) : x ∈ table.ids := by
  obtain ⟨member, hget, _⟩ := h
  rw [MemberTable.mem_ids_iff, hget]
  rfl

lemma length_of_perm {table : MemberTable} (h : ids.Perm table.ids) : ids.length = table.len := by
  rw [h.length_eq]
  exact List.length_map _

end

/-- As long as a member has not come up: before the first refill every call takes one id more
from the order, and from then on the member is in it. -/
structure Due (tables : TableHistory) (x : NodeId) (log₀ : OpLog) (order₀ : List NodeId)
    (log : OpLog) (order : List NodeId) (events : List Event) : Prop where
  unfilled : Event.firstRefill events = none → order.length + Event.calls events ≤ order₀.length
  filled : ∀ k, Event.firstRefill events = some k → log₀.length ≤ k ∧ k < log.length ∧ x ∈ order ∧
    order.length + Event.calls events ≤ order₀.length + (tables k).len

/-- What one call adds to the events: its refills, and what it returned. -/
lemma calls_call {evs : List Event} (hevs : ∀ event ∈ evs, event.isRefill = true) :
    Event.calls (events ++ evs ++ [.returned found]) = Event.calls events + 1 := by
  have hnone : Event.calls evs = 0 := by
    unfold Event.calls
    rw [List.countP_eq_zero]
    intro event hevent
    simp [hevs event hevent]
  rw [Event.calls_append, Event.calls_append, hnone]
  rfl

lemma Rotation.due (h : Rotation node tables log₀ order₀ log order events)
    (hlive : ∀ k, log₀.length ≤ k → k < log.length → Live (tables k) x)
    (hnot : x ∉ Event.returnedIds events) : Due tables x log₀ order₀ log order events := by
  induction h with
  | start =>
    exact ⟨fun _ => by simp [Event.calls], fun k hk => absurd hk (by simp [Event.firstRefill])⟩
  | @call log log' order order' events found h hcall ih =>
    obtain ⟨hle, hcalled⟩ := hcall.called
    have hle₀ := h.length_le
    have hevs : ∀ event ∈ refills log.length (log'.drop log.length), event.isRefill = true :=
      fun event => isRefill_of_mem_refills
    generalize refills log.length (log'.drop log.length) = evs at hcalled hnot hevs ⊢
    rw [Event.returnedIds_append, Event.returnedIds_append, List.mem_append, List.mem_append,
      not_or, not_or] at hnot
    have hdue := ih (fun k hk hk' => hlive k hk (lt_of_lt_of_le hk' hle)) hnot.1.1
    have hlive : ∀ k, log.length ≤ k → k < log'.length → Live (tables k) x :=
      fun k hk hk' => hlive k (hle₀.trans hk) hk'
    have hcalls : Event.calls (events ++ evs ++ [.returned found]) = Event.calls events + 1 :=
      calls_call hevs
    have hne : ∀ member, found = some member → member.id ≠ x := by
      rintro member rfl rfl
      exact hnot.2 (by simp [Event.returnedIds])
    constructor
    · intro hnone
      rw [hcalls]
      rw [Event.firstRefill_append, Event.firstRefill_append, Option.or_eq_none_iff,
        Option.or_eq_none_iff] at hnone
      have hcount := hdue.unfilled hnone.1.1
      cases hcalled with
      | kept member _ hpassed =>
        have hshorter := hpassed.length_lt
        omega
      | refilled => exact absurd hnone.1.2 (by simp [Event.firstRefill])
      | exhausted => exact absurd hnone.1.2 (by simp [Event.firstRefill])
    · intro k hk
      rw [hcalls]
      rw [Event.firstRefill_append, Event.firstRefill_append] at hk
      cases hfirst : Event.firstRefill events with
      | some k₁ =>
        -- the member is in the order, so this call cannot refill it
        rw [hfirst] at hk
        obtain rfl : k₁ = k := by simpa using hk
        obtain ⟨hlo, hhi, hx, hcount⟩ := hdue.filled k₁ hfirst
        cases hcalled with
        | kept member _ hpassed =>
          have hshorter := hpassed.length_lt
          refine ⟨hlo, lt_of_lt_of_le hhi hle, hpassed.mem_rest hlive hx (hne member rfl), ?_⟩
          omega
        | refilled _ _ _ _ hskipped => exact absurd hx (hskipped.not_mem hlive)
        | exhausted _ _ _ _ hskipped => exact absurd hx (hskipped.not_mem hlive)
      | none =>
        have hcount := hdue.unfilled hfirst
        rw [hfirst] at hk
        cases hcalled with
        | kept member _ hpassed => exact absurd hk (by simp [Event.firstRefill])
        | refilled k₁ ids member _ _ hlo hhi hids hpassed =>
          obtain rfl : k₁ = k := by simpa [Event.firstRefill] using hk
          have hx : x ∈ ids := hids.mem_iff.mpr (hlive k₁ hlo hhi).mem_ids
          have hshorter := hpassed.length_lt
          have hlen := length_of_perm hids
          refine ⟨hle₀.trans hlo, hhi, hpassed.mem_rest hlive hx (hne member rfl), ?_⟩
          omega
        | exhausted k₁ _ ids _ _ hlo hhi hids hskipped' =>
          have hx : x ∈ ids := hids.mem_iff.mpr (hlive k₁ hlo hhi).mem_ids
          exact absurd hx (hskipped'.not_mem hlive)

/-! ## Between two refills -/

/-- Without a refill a rotation only takes ids from the order it started with. -/
lemma Rotation.sublist (h : Rotation node tables log₀ order₀ log order events)
    (hnone : ∀ event ∈ events, event.isRefill = false) :
    (Event.returnedIds events ++ order).Sublist order₀ := by
  induction h with
  | start => exact List.Sublist.refl _
  | @call log log' order order' events found h hcall ih =>
    have hcalled := hcall.called.2
    generalize refills log.length (log'.drop log.length) = evs at hcalled hnone ⊢
    have hsub := ih fun event hevent => hnone event (by simp [hevent])
    cases hcalled with
    | kept member _ hpassed =>
      cases hpassed with
      | found skipped _ _ horder _ _ =>
        have hids : Event.returnedIds (events ++ [] ++ [.returned (some member)]) =
            Event.returnedIds events ++ [member.id] := by
          simp [Event.returnedIds]
        rw [hids, List.append_assoc]
        refine List.Sublist.trans ?_ hsub
        refine List.Sublist.append_left ?_ _
        rw [horder]
        exact List.sublist_append_right _ _
    | refilled k =>
      have hrefill := hnone (.refill k) (by simp)
      exact absurd hrefill (by simp [Event.isRefill])
    | exhausted k =>
      have hrefill := hnone (.refill k) (by simp)
      exact absurd hrefill (by simp [Event.isRefill])

lemma MemberTable.nodup_ids (table : MemberTable) : table.ids.Nodup := table.nodup

/-- After a refill the order has no id twice, and neither has it the id just returned. -/
lemma Rotation.nodup (h : Rotation node tables log₀ order₀ log order events)
    (hrefill : ∃ event ∈ events, event.isRefill = true) :
    order.Nodup ∧ ∀ before member, events = before ++ [.returned (some member)] →
      member.id ∉ order := by
  induction h with
  | start => exact absurd hrefill (by simp)
  | @call log log' order order' events found h hcall ih =>
    have hcalled := hcall.called.2
    generalize refills log.length (log'.drop log.length) = evs at hcalled hrefill ⊢
    -- what the last call returned is the last event
    have hlast : ∀ {before : List Event} {member : Member},
        events ++ evs ++ [.returned found] = before ++ [.returned (some member)] →
          found = some member := by
      intro before member hevents
      obtain ⟨_, hsame⟩ := List.append_inj' hevents rfl
      injection List.singleton_injective hsame
    -- the returned id is taken off the order together with those skipped before it
    have hpass : ∀ {lo hi : ℕ} {ids rest : List NodeId} {member : Member}, ids.Nodup →
        Passed tables lo hi ids (some member) rest → (member.id :: rest).Nodup := by
      intro lo hi ids rest member hnodup hpassed
      cases hpassed with
      | found skipped _ _ horder _ _ =>
        rw [horder] at hnodup
        exact (List.nodup_append.mp hnodup).2.1
    cases hcalled with
    | kept member _ hpassed =>
      obtain ⟨event, hevent, hrefilled⟩ := hrefill
      have hold : event ∈ events := by
        rw [List.append_nil, List.mem_append] at hevent
        rcases hevent with hevent | hevent
        · exact hevent
        · rw [List.mem_singleton.mp hevent] at hrefilled
          exact absurd hrefilled (by simp [Event.isRefill])
      have hnodup := hpass (ih ⟨event, hold, hrefilled⟩).1 hpassed
      refine ⟨(List.nodup_cons.mp hnodup).2, fun before member' hevents => ?_⟩
      rw [← Option.some.inj (hlast hevents)]
      exact (List.nodup_cons.mp hnodup).1
    | refilled k ids member _ _ _ _ hids hpassed =>
      have hnodup := hpass (hids.nodup_iff.mpr (tables k).nodup_ids) hpassed
      refine ⟨(List.nodup_cons.mp hnodup).2, fun before member' hevents => ?_⟩
      rw [← Option.some.inj (hlast hevents)]
      exact (List.nodup_cons.mp hnodup).1
    | exhausted k k' ids ids' _ _ _ _ _ _ _ hids' =>
      refine ⟨hids'.nodup_iff.mpr (tables k').nodup_ids, fun before member' hevents => ?_⟩
      exact absurd (hlast hevents) (by simp)

/-- Between two refills no id is returned twice. -/
theorem Rotation.ne_of_no_refill {member member' : Member} {before mid after : List Event}
    (h : Rotation node tables log₀ order₀ log order events)
    (hevents : events = before ++ .returned (some member) :: mid ++
      .returned (some member') :: after)
    (hrefill : ∃ event ∈ before, event.isRefill = true)
    (hnone : ∀ event ∈ mid, event.isRefill = false) : member.id ≠ member'.id := by
  obtain ⟨log₁, order₁, hbefore, hrest⟩ := h.split (hevents.trans (List.append_assoc _ _ _))
  obtain ⟨log₂, order₂, hmid, _⟩ := hrest.split rfl
  obtain ⟨event, hevent, hrefilled⟩ := hrefill
  have hout := (hbefore.nodup ⟨event, by simp [hevent], hrefilled⟩).2 before member rfl
  have hsub := hmid.sublist (by
    intro event hevent
    rcases List.mem_append.mp hevent with hevent | hevent
    · exact hnone event hevent
    · rw [List.mem_singleton.mp hevent]
      rfl)
  have hin : member'.id ∈ order₁ := hsub.subset (by simp [Event.returnedIds])
  intro hsame
  exact hout (hsame ▸ hin)

/-! ## A fixed set of members -/

/-- Every id of `ids` was taken from the order or is still in it. -/
def Leftover (ids order : List NodeId) : Prop :=
  ∃ taken, (taken ++ order).Perm ids

lemma Passed.leftover {lo hi : ℕ} {ids rest : List NodeId} {member : Member}
    (h : Passed tables lo hi order (some member) rest) (hleft : Leftover ids order) :
    Leftover ids (member.id :: rest) := by
  cases h with
  | found skipped _ _ horder _ _ =>
    obtain ⟨taken, hperm⟩ := hleft
    refine ⟨taken ++ skipped, ?_⟩
    rw [List.append_assoc, ← horder]
    exact hperm

lemma Leftover.tail {ids : List NodeId} (h : Leftover ids (x :: order)) : Leftover ids order := by
  obtain ⟨taken, hperm⟩ := h
  exact ⟨taken ++ [x], by simpa using hperm⟩

lemma Leftover.of_perm {ids : List NodeId} (h : order.Perm ids) : Leftover ids order :=
  ⟨[], h⟩

/-- What is left of an order stays what is left of a shuffle of the members, and so it is with
the id just returned in front. -/
lemma Rotation.leftover {ids : List NodeId}
    (h : Rotation node tables log₀ order₀ log order events) (hleft : Leftover ids order₀)
    (hfixed : ∀ k, log₀.length ≤ k → k < log.length → (tables k).ids.Perm ids) :
    Leftover ids order ∧ ∀ before member, events = before ++ [.returned (some member)] →
      Leftover ids (member.id :: order) := by
  induction h with
  | start => exact ⟨hleft, fun _ _ hevents => absurd hevents (by simp)⟩
  | @call log log' order order' events found h hcall ih =>
    obtain ⟨hle, hcalled⟩ := hcall.called
    have hle₀ := h.length_le
    have hbefore := (ih fun k hk hk' => hfixed k hk (lt_of_lt_of_le hk' hle)).1
    have hfixed : ∀ k, log.length ≤ k → k < log'.length → (tables k).ids.Perm ids :=
      fun k hk hk' => hfixed k (hle₀.trans hk) hk'
    generalize refills log.length (log'.drop log.length) = evs at hcalled ⊢
    have hlast : ∀ {before : List Event} {member : Member},
        events ++ evs ++ [.returned found] = before ++ [.returned (some member)] →
          found = some member := by
      intro before member hevents
      obtain ⟨_, hsame⟩ := List.append_inj' hevents rfl
      injection List.singleton_injective hsame
    cases hcalled with
    | kept member _ hpassed =>
      have hafter := hpassed.leftover hbefore
      refine ⟨hafter.tail, fun before member' hevents => ?_⟩
      rw [← Option.some.inj (hlast hevents)]
      exact hafter
    | refilled k order member _ _ hlo hhi horder hpassed =>
      have hafter := hpassed.leftover (.of_perm (horder.trans (hfixed k hlo hhi)))
      refine ⟨hafter.tail, fun before member' hevents => ?_⟩
      rw [← Option.some.inj (hlast hevents)]
      exact hafter
    | exhausted k k' _ _ _ _ _ _ _ hlo' hhi' horder =>
      refine ⟨.of_perm (horder.trans (hfixed k' hlo' hhi')), fun before member' hevents => ?_⟩
      exact absurd (hlast hevents) (by simp)

/-- With a fixed set of `n` members, one that is never dead comes up again within `2n - 1`
calls. -/
theorem Rotation.comes_up_again {ids : List NodeId} {member : Member} {before after : List Event}
    (h : Rotation node tables log₀ order₀ log order events) (hleft : Leftover ids order₀)
    (hfixed : ∀ k, log₀.length ≤ k → k < log.length → (tables k).ids.Perm ids)
    (hlive : ∀ k, log₀.length ≤ k → k < log.length → Live (tables k) member.id)
    (hevents : events = before ++ .returned (some member) :: after)
    (hnot : member.id ∉ Event.returnedIds after) : Event.calls after < 2 * ids.length - 1 := by
  obtain ⟨log₁, order₁, hbefore, hafter⟩ := h.split hevents
  have hle₀ := hbefore.length_le
  have hle₁ := hafter.length_le
  have hfixed₁ : ∀ k, log₀.length ≤ k → k < log₁.length → (tables k).ids.Perm ids :=
    fun k hk hk' => hfixed k hk (lt_of_lt_of_le hk' hle₁)
  obtain ⟨taken, hperm⟩ := (hbefore.leftover hleft hfixed₁).2 before member rfl
  have hlen : order₁.length + 1 ≤ ids.length := by
    rw [← hperm.length_eq, List.length_append, List.length_cons]
    exact Nat.le_add_left _ _
  have hdue := hafter.due (fun k hk hk' => hlive k (hle₀.trans hk) hk') hnot
  cases hfirst : Event.firstRefill after with
  | none =>
    have hcount := hdue.unfilled hfirst
    omega
  | some k =>
    obtain ⟨hlo, hhi, hx, hcount⟩ := hdue.filled k hfirst
    have hsize : (tables k).len = ids.length := by
      rw [← length_of_perm (List.Perm.refl (tables k).ids)]
      exact (hfixed k (hle₀.trans hlo) hhi).length_eq
    have hpos : 0 < order.length := List.length_pos_of_mem hx
    omega

/-! ## A call while the table stands still -/

lemma TableChange.get_own {me : NodeId} {table table' : MemberTable}
    (h : TableChange me table table') (hget : table.get me = none) : table'.get me = none := by
  induction h with
  | refl => exact hget
  | merge now rumor _ ih =>
    rw [MemberTable.get_merge, if_neg (by simp)]
    exact ih
  | remove ids _ ih =>
    rw [MemberTable.get_remove, ih]
    exact ite_self _

/-- The own id never gets into the table. -/
lemma Possible.get_own {me : NodeId} (h : Possible me tables) (k : ℕ) :
    (tables k).get me = none := by
  induction k with
  | zero => exact h.start
  | succ k ih => exact (h.next k).get_own ih

/-- A member a call saw is one of the table's, and not the node itself. -/
lemma Seen.of_same {lo hi : ℕ} {member : Member} {table : MemberTable} {me : NodeId}
    (h : Seen tables lo hi member) (hpossible : Possible me tables)
    (hsame : ∀ k, lo ≤ k → k < hi → tables k = table) :
    table.get member.id = some member ∧ member.state.isDead = false ∧ member.id ≠ me := by
  obtain ⟨k, hlo, hhi, hget, hlive⟩ := h
  have hown := hpossible.get_own k
  rw [hsame k hlo hhi] at hget hown
  refine ⟨hget, hlive, fun hid => ?_⟩
  rw [hid, hown] at hget
  exact absurd hget (by simp)

/-- While the table stands still a call finds somebody exactly if somebody in it is not dead. -/
theorem Call.found_iff {table : MemberTable} (h : Call node tables log order found log' order')
    (hpossible : Possible node.id tables)
    (hsame : ∀ k, log.length ≤ k → k < log'.length → tables k = table) :
    (found.isSome ↔ ∃ member ∈ table.members, member.state.isDead = false) ∧
      ∀ member, found = some member → table.get member.id = some member ∧
        member.state.isDead = false ∧ member.id ≠ node.id := by
  have hcalled := h.called.2
  generalize refills log.length (log'.drop log.length) = evs at hcalled
  have hfound : ∀ {order rest : List NodeId} {member : Member},
      Passed tables log.length log'.length order (some member) rest →
        ((some member).isSome ↔ ∃ member ∈ table.members, member.state.isDead = false) ∧
          ∀ member', some member = some member' → table.get member'.id = some member' ∧
            member'.state.isDead = false ∧ member'.id ≠ node.id := by
    intro order rest member hpassed
    cases hpassed with
    | found _ _ _ _ _ hseen =>
      have hmember := hseen.of_same hpossible hsame
      refine ⟨iff_of_true rfl ⟨member, MemberTable.mem_of_get hmember.1, hmember.2.1⟩, ?_⟩
      intro member' hsame'
      rw [← Option.some.inj hsame']
      exact hmember
  cases hcalled with
  | kept member _ hpassed => exact hfound hpassed
  | refilled _ _ member _ _ _ _ _ hpassed => exact hfound hpassed
  | exhausted k _ ids _ _ hlo hhi hids hskipped' =>
    refine ⟨iff_of_false (by simp) ?_, by simp⟩
    rintro ⟨member, hmember, hlive⟩
    have hget := MemberTable.get_of_mem hmember
    have hin : member.id ∈ ids := by
      rw [hids.mem_iff, hsame k hlo hhi]
      exact Live.mem_ids ⟨member, hget, hlive⟩
    refine absurd hin (hskipped'.not_mem fun k hk hk' => ?_)
    rw [hsame k hk hk']
    exact ⟨member, hget, hlive⟩

/-! ## Every call returns -/

lemma inward_nextInPass (order : List NodeId) : Inward (nextInPass order) := by
  induction order with
  | nil => trivial
  | cons id order ih =>
    refine Inward.call_bind rfl rfl fun entry => ?_
    cases entry with
    | none => exact ih
    | some member =>
      show Inward (if member.state.isDead then nextInPass order else pure (some member, order))
      split_ifs
      · exact ih
      · trivial

lemma inward_nextInPasses (passes : ℕ) (order : List NodeId) :
    Inward (nextInPasses passes order) := by
  induction passes generalizing order with
  | zero => trivial
  | succ passes ih =>
    refine (inward_nextInPass order).bind fun found => ?_
    obtain ⟨member, rest⟩ := found
    cases member with
    | some member => trivial
    | none =>
      exact Inward.call_bind rfl rfl fun ids => ih ids

lemma exists_call (node : LocalNode) (tables : TableHistory) (log : OpLog) (order : List NodeId) :
    ∃ found log' order', Call node tables log order found log' order' := by
  have hresult : ∀ o : Op, ¬ (o.awaits = true ∨ o.talks = true) → ∀ s : OpLog × World, ∃ r t,
      amid (othersWrite tables) (fun _ => Op.Run node 0) o s r t := by
    intro o ho s
    obtain ⟨r, w', hrun, _⟩ := Op.exists_run node 0 ho
      { s.2 with shared := { s.2.shared with table := tables s.1.length } }
    exact ⟨r, (s.1 ++ [⟨o, r⟩], w'), rfl, _, rfl, hrun⟩
  obtain ⟨⟨found, order'⟩, ⟨log', w'⟩, hpath⟩ :=
    AtWaits.exists_path hresult (inward_nextInPasses 2 order) (log, ⟨.new, []⟩)
  exact ⟨found, log', order', 0, _, w', hpath.exec⟩

/-- The rotation misses nobody: between two refills no id comes up twice, a member that stays
comes up within what was left of the order and the next shuffle, with a fixed set of `n` members
within `2n - 1` calls, and a call always returns, empty-handed only if there was nobody. -/
theorem rotation_fair (node : LocalNode) (tables : TableHistory)
    (hpossible : Possible node.id tables) :
    (∀ log₀ order₀ log order events, Rotation node tables log₀ order₀ log order events →
      (∀ before mid after member member', events = before ++ .returned (some member) :: mid ++
          .returned (some member') :: after → (∃ event ∈ before, event.isRefill = true) →
        (∀ event ∈ mid, event.isRefill = false) → member.id ≠ member'.id) ∧
      (∀ x, (∀ k, log₀.length ≤ k → k < log.length → Live (tables k) x) →
        x ∉ Event.returnedIds events →
          (Event.firstRefill events = none → Event.calls events ≤ order₀.length) ∧
          ∀ k, Event.firstRefill events = some k →
            Event.calls events < order₀.length + (tables k).len) ∧
      ∀ ids, Leftover ids order₀ →
        (∀ k, log₀.length ≤ k → k < log.length → (tables k).ids.Perm ids) →
          ∀ before member after, events = before ++ .returned (some member) :: after →
            (∀ k, log₀.length ≤ k → k < log.length → Live (tables k) member.id) →
              member.id ∉ Event.returnedIds after → Event.calls after < 2 * ids.length - 1) ∧
    (∀ log order, ∃ found log' order', Call node tables log order found log' order') ∧
    ∀ log order found log' order' table, Call node tables log order found log' order' →
      (∀ k, log.length ≤ k → k < log'.length → tables k = table) →
        (found.isSome ↔ ∃ member ∈ table.members, member.state.isDead = false) ∧
          ∀ member, found = some member → table.get member.id = some member ∧
            member.state.isDead = false ∧ member.id ≠ node.id := by
  refine ⟨?_, exists_call node tables, ?_⟩
  · intro log₀ order₀ log order events h
    refine ⟨?_, ?_, ?_⟩
    · intro before mid after member member' hevents hrefill hnone
      exact h.ne_of_no_refill hevents hrefill hnone
    · intro x hlive hnot
      -- until it comes up, `x` stays ahead in the order
      have hdue := h.due hlive hnot
      constructor
      · intro hnone
        have hcount := hdue.unfilled hnone
        omega
      · intro k hk
        obtain ⟨_, _, hx, hcount⟩ := hdue.filled k hk
        have hpos : 0 < order.length := List.length_pos_of_mem hx
        omega
    · intro ids hleft hfixed before member after hevents hlive hnot
      exact h.comes_up_again hleft hfixed hlive hevents hnot
  · intro log order found log' order' table h hsame
    exact h.found_iff hpossible hsame

/-! ### A rotation over a table that changes -/

/-- One pass over `order` can come to `out`. -/
def Passes (node : LocalNode) (tables : TableHistory) (log : OpLog) (order : List NodeId)
    (out : Option Member × List NodeId) (log' : OpLog) : Prop :=
  ∀ w, ∃ w', Exec (amid (othersWrite tables) fun _ => Op.Run node 0) (nextInPass order) (log, w) out
    (log', w')

lemma Passes.head {member : Member} (hget : (tables log.length).get x = some member)
    (hlive : member.state.isDead = false) :
    Passes node tables log (x :: order) (some member, order) (log ++ [⟨.get x, some member⟩]) := by
  intro w
  let w' : World := { w with shared := { w.shared with table := tables log.length } }
  refine ⟨w', exec_call_bind.mpr ⟨some member, (log ++ [⟨.get x, some member⟩], w'),
    ⟨rfl, _, rfl, hget.symm, rfl⟩, ?_⟩⟩
  simp only [hlive, Bool.false_eq_true, if_false]
  exact exec_pure.mpr ⟨rfl, rfl⟩

lemma Passes.skip {member : Member} {out : Option Member × List NodeId}
    (hget : (tables log.length).get x = some member) (hdead : member.state.isDead = true)
    (hrest : Passes node tables (log ++ [⟨.get x, some member⟩]) order out log') :
    Passes node tables log (x :: order) out log' := by
  intro w
  let w₁ : World := { w with shared := { w.shared with table := tables log.length } }
  obtain ⟨w', hrest⟩ := hrest w₁
  refine ⟨w', exec_call_bind.mpr ⟨some member, (log ++ [⟨.get x, some member⟩], w₁),
    ⟨rfl, _, rfl, hget.symm, rfl⟩, ?_⟩⟩
  simpa [hdead] using hrest

lemma Call.of_passes {member : Member}
    (hpass : Passes node tables log order (some member, order') log') :
    Call node tables log order (some member) log' order' := by
  obtain ⟨w', hpass⟩ := hpass ⟨.new, []⟩
  exact ⟨0, _, w', exec_bind.mpr ⟨_, _, hpass, exec_pure.mpr ⟨rfl, rfl⟩⟩⟩

lemma Call.of_refill {member : Member} (ids : List NodeId)
    (hids : ids.Perm (tables log.length).ids)
    (hpass : Passes node tables (log ++ [⟨.shuffledIds, ids⟩]) ids (some member, order') log') :
    Call node tables log [] (some member) log' order' := by
  let w : World := ⟨{ Shared.new with table := tables log.length }, []⟩
  obtain ⟨w', hpass⟩ := hpass w
  refine ⟨0, ⟨.new, []⟩, w', exec_bind.mpr ⟨(none, []), _, exec_pure.mpr ⟨rfl, rfl⟩, ?_⟩⟩
  refine exec_call_bind.mpr ⟨ids, (log ++ [⟨.shuffledIds, ids⟩], w), ⟨rfl, _, rfl, hids, rfl⟩, ?_⟩
  exact exec_bind.mpr ⟨_, _, hpass, exec_pure.mpr ⟨rfl, rfl⟩⟩

/-- The node whose detector turns. -/
def prober : LocalNode := ⟨⟨Vector.replicate 16 0⟩, (sampleRumor .alive 0).addr, []⟩

/-- What it hears of its peers. -/
def peerNews (number : UInt8) (state : WireMemberState) : WireMember :=
  { sampleRumor state 0 with id := ⟨Vector.replicate 16 number⟩ }

/-- Two peers at first. From the fourth read on the second one is dead, and there is a third. -/
def rotated : TableHistory := fun k =>
  MemberTable.new.mergeAll prober.id (([peerNews 1 .alive, peerNews 2 .alive] ++
    if k < 3 then [] else [peerNews 2 .dead, peerNews 3 .alive]).map fun rumor => (rumor, 0))

lemma possible_rotated : Possible prober.id rotated where
  start := by decide
  next k := by
    rcases Nat.lt_trichotomy k 2 with hlt | rfl | hgt
    · have hsame : rotated (k + 1) = rotated k := by
        simp [rotated, show k < 3 by omega, show k + 1 < 3 by omega]
      rw [hsame]
      exact .refl _
    · exact .merge 0 (peerNews 3 .alive) (.merge 0 (peerNews 2 .dead) (.refl (rotated 2)))
    · have hsame : rotated (k + 1) = rotated k := by
        simp [rotated, show ¬ k < 3 by omega, show ¬ k + 1 < 3 by omega]
      rw [hsame]
      exact .refl _

/-- Two peers are probed in turn. Then the order is refilled, the dead one passed over and the new
one found. -/
theorem rotation_fair_refilled : ∃ (log log' : OpLog) (order : List NodeId) (events : List Event)
    (one two three : Member), one = (peerNews 1 .alive).toMember 0 ∧
    two = (peerNews 2 .alive).toMember 0 ∧ three = (peerNews 3 .alive).toMember 0 ∧
    events = [.returned (some two), .refill 3, .returned (some three)] ∧
    Rotation prober rotated [] [] log' order (.refill 0 :: .returned (some one) :: events) ∧
    Rotation prober rotated log [two.id] log' order events ∧
    one.id ≠ two.id ∧ Event.calls events < [two.id].length + (rotated 3).len := by
  set one := (peerNews 1 .alive).toMember 0 with hone
  set two := (peerNews 2 .alive).toMember 0 with htwo
  set three := (peerNews 3 .alive).toMember 0 with hthree
  let log₁ : OpLog := [⟨.shuffledIds, [one.id, two.id]⟩, ⟨.get one.id, some one⟩]
  let log₂ : OpLog := log₁ ++ [⟨.get two.id, some two⟩]
  let dead : Member := two.update 0 (peerNews 2 .dead)
  let log₃ : OpLog := log₂ ++ [⟨.shuffledIds, [two.id, three.id, one.id]⟩] ++
    [⟨.get two.id, some dead⟩] ++ [⟨.get three.id, some three⟩]
  have hfirst : Call prober rotated [] [] (some one) log₁ [two.id] :=
    .of_refill [one.id, two.id] (by decide) (.head (by decide) rfl)
  have hsecond : Call prober rotated log₁ [two.id] (some two) log₂ [] :=
    .of_passes (.head (by decide) rfl)
  have hdead : dead.state.isDead = true := rfl
  have hthird : Call prober rotated log₂ [] (some three) log₃ [one.id] :=
    .of_refill [two.id, three.id, one.id] (by decide)
      (.skip (by decide) hdead (.head (by decide) rfl))
  have hwhole : Rotation prober rotated [] [] log₃ [one.id] [.refill 0, .returned (some one),
      .returned (some two), .refill 3, .returned (some three)] :=
    ((Rotation.start.call hfirst).call hsecond).call hthird
  have hrest : Rotation prober rotated log₁ [two.id] log₃ [one.id]
      [.returned (some two), .refill 3, .returned (some three)] :=
    (Rotation.start.call hsecond).call hthird
  have hfair := (rotation_fair prober rotated possible_rotated).1
  refine ⟨log₁, log₃, [one.id], _, one, two, three, rfl, rfl, rfl, rfl, hwhole, hrest, ?_, ?_⟩
  · exact (hfair _ _ _ _ _ hwhole).1 [.refill 0] [] _ one two rfl ⟨_, List.mem_singleton_self _, rfl⟩
      (by simp)
  · -- the first peer is there all the time, and was probed before
    have hlive : ∀ k, Live (rotated k) one.id := by
      intro k
      by_cases hk : k < 3
      · have hsame : rotated k = rotated 0 := by simp [rotated, hk]
        exact hsame ▸ ⟨one, by decide, rfl⟩
      · have hsame : rotated k = rotated 3 := by simp [rotated, hk]
        exact hsame ▸ ⟨one, by decide, rfl⟩
    exact ((hfair _ _ _ _ _ hrest).2.1 one.id (fun k _ _ => hlive k) (by decide)).2 3 rfl

end Dalila
