import Mathlib.Data.List.Destutter
import Mathlib.Data.List.Lex
import Dalila.Lib.Walk
import Dalila.LocalNode
import Dalila.State

/-!
# The proxy

`backends` is the list a client's connection finds, and `forward` hands it to the first of them that
accepts, from where the shared counter is. The file proves that the list is ascending and holds
exactly the ready members with the tag (`mem_backends_iff`), and when each of them gets one try
(`forward_tries_iff`).
-/

namespace Dalila

/-! ## Addresses in order -/

/-- The octets, most significant first, with every v4 address below every v6 one. -/
def IpAddr.key : IpAddr → Bool ×ₗ List ℕ
  | .v4 octets => toLex (false, octets.toList.map UInt8.toNat)
  | .v6 octets => toLex (true, octets.toList.map UInt8.toNat)

/-- `SocketAddr` compares the ip, then the port. -/
def SocketAddr.key (addr : SocketAddr) : (Bool ×ₗ List ℕ) ×ₗ ℕ :=
  toLex (addr.ip.key, addr.port.toNat)

lemma map_toNat_injective {n : ℕ} {a b : Vector UInt8 n}
    (h : a.toList.map UInt8.toNat = b.toList.map UInt8.toNat) : a = b := by
  have hinj : Function.Injective UInt8.toNat := fun x y hxy => UInt8.toNat_inj.mp hxy
  exact Vector.toList_inj.mp (List.map_injective_iff.mpr hinj h)

lemma IpAddr.key_injective : Function.Injective IpAddr.key := by
  intro a b h
  have h := toLex.injective.eq_iff.mp (show toLex (ofLex a.key) = toLex (ofLex b.key) from h)
  cases a with
  | v4 octets =>
    cases b with
    | v4 octets' => rw [map_toNat_injective (congrArg Prod.snd h)]
    | v6 octets' => exact absurd (congrArg Prod.fst h) (by simp [IpAddr.key])
  | v6 octets =>
    cases b with
    | v4 octets' => exact absurd (congrArg Prod.fst h) (by simp [IpAddr.key])
    | v6 octets' => rw [map_toNat_injective (congrArg Prod.snd h)]

lemma SocketAddr.key_injective : Function.Injective SocketAddr.key := by
  intro a b h
  have h := toLex.injective.eq_iff.mp (show toLex (ofLex a.key) = toLex (ofLex b.key) from h)
  have hip : a.ip = b.ip := IpAddr.key_injective (congrArg Prod.fst h)
  have hport : a.port = b.port := UInt16.toNat_inj.mp (congrArg Prod.snd h)
  cases a
  cases b
  simp only at hip hport
  rw [hip, hport]

instance : LinearOrder SocketAddr := LinearOrder.lift' SocketAddr.key SocketAddr.key_injective

/-! ## Who can take work -/

/-- `none`: any member. -/
def carries (tags : List String) (tag : Option String) : Bool :=
  tag.all fun tag => tags.any fun t => t = tag

/-- `backends`, from what `ready` and `is_ready` read. -/
def backends (node : LocalNode) (isReady : Bool) (ready : List Member) (backendPort : UInt16)
    (tag : Option String) : List SocketAddr :=
  let addrs := (ready.filter fun member => carries member.tags tag).map fun member =>
    (⟨member.addr.ip, backendPort⟩ : SocketAddr)
  -- we're not in our own table
  let addrs :=
    if isReady && tag.all node.hasTag then addrs ++ [⟨node.addr.ip, backendPort⟩] else addrs
  -- `dedup` drops what is equal to its neighbour
  (addrs.mergeSort fun a b => a ≤ b).destutter (· ≠ ·)

/-! ## Trying them -/

/-- What the proxy is built for: the size of a `usize`, and whether overflow panics. -/
structure Target where
  bits : ℕ
  overflowChecks : Bool

/-- `a + b`, of two `usize`. -/
def Target.add (target : Target) (a b : ℕ) : Option ℕ :=
  if a + b < 2 ^ target.bits then some (a + b)
  else if target.overflowChecks then none
  else some ((a + b) % 2 ^ target.bits)

/-- `backends[(start + i) % backends.len()]`, which is `none` where it panics. -/
def Target.pick (target : Target) (backends : List SocketAddr) (start i : ℕ) : Option SocketAddr :=
  match target.add start i with
  | none => none
  | some sum => if backends.length = 0 then none else backends[sum % backends.length]?

/-- How one connect turns out. -/
inductive Connect where
  | accepted
  | refused
  | timedOut
deriving DecidableEq, Repr

/-- How it ends for the client. -/
inductive Ended where
  | panicked
  | forwarded (backend : SocketAddr)
  | noBackend
deriving DecidableEq, Repr

/-- The loop of `forward`, over what is left of its range: the addresses tried, and how it ends.
`connect i` is how the try in turn `i` turns out. -/
def tryEach (target : Target) (backends : List SocketAddr) (start : ℕ) (connect : ℕ → Connect) :
    List ℕ → List SocketAddr × Ended
  | [] => ([], .noBackend)
  | i :: rest =>
    match target.pick backends start i with
    | none => ([], .panicked)
    | some backend =>
      match connect i with
      | .accepted => ([backend], .forwarded backend)
      | .refused | .timedOut =>
        let later := tryEach target backends start connect rest
        (backend :: later.1, later.2)

/-- One connection: what it tries, how it ends, and what it leaves of the counter. -/
def forward (target : Target) (node : LocalNode) (isReady : Bool) (ready : List Member)
    (backendPort : UInt16) (tag : Option String) (next : BitVec target.bits)
    (connect : ℕ → Connect) : (List SocketAddr × Ended) × BitVec target.bits :=
  let backends := backends node isReady ready backendPort tag
  (tryEach target backends next.toNat connect (List.range backends.length), next + 1)

/-! ## The backends are a set in order -/

section

variable {node : LocalNode} {isReady : Bool} {ready : List Member} {table : MemberTable}
  {backendPort : UInt16} {tag : Option String}

lemma mem_destutter'_ne {α : Type} [DecidableEq α] {a b : α} {l : List α} :
    b ∈ l.destutter' (· ≠ ·) a ↔ b = a ∨ b ∈ l := by
  induction l generalizing a with
  | nil => simp
  | cons c l ih =>
    by_cases hac : a = c
    · rw [List.destutter'_cons_neg l (by simpa using hac), ih, hac, List.mem_cons]
      tauto
    · rw [List.destutter'_cons_pos l hac, List.mem_cons, ih, List.mem_cons]

lemma mem_destutter_ne {α : Type} [DecidableEq α] {b : α} {l : List α} :
    b ∈ l.destutter (· ≠ ·) ↔ b ∈ l := by
  cases l with
  | nil => rfl
  | cons a l => rw [List.destutter_cons', mem_destutter'_ne, List.mem_cons]

/-- Sorted, then deduplicated: strictly ascending. -/
lemma pairwise_lt_of_isChain {α : Type} [LinearOrder α] {l : List α} (hsorted : l.Pairwise (· ≤ ·))
    (hchain : l.IsChain (· ≠ ·)) : l.Pairwise (· < ·) := by
  induction l with
  | nil => exact .nil
  | cons a l ih =>
    have htail := ih hsorted.of_cons hchain.of_cons
    refine List.pairwise_cons.mpr ⟨?_, htail⟩
    cases l with
    | nil => exact fun _ hc => absurd hc List.not_mem_nil
    | cons b l =>
      have hab : a < b := lt_of_le_of_ne (List.rel_of_pairwise_cons hsorted List.mem_cons_self)
        (List.isChain_cons_cons.mp hchain).1
      intro c hc
      rcases List.mem_cons.mp hc with rfl | hc
      · exact hab
      · exact hab.trans (List.rel_of_pairwise_cons htail hc)

lemma pairwise_lt_dedup (l : List SocketAddr) :
    ((l.mergeSort fun a b => a ≤ b).destutter (· ≠ ·)).Pairwise (· < ·) := by
  have hsorted : (l.mergeSort fun a b => a ≤ b).Pairwise (· ≤ ·) := by
    have hpairs : (l.mergeSort fun a b => a ≤ b).Pairwise fun a b => decide (a ≤ b) = true :=
      List.pairwise_mergeSort
      (fun a b c hab hbc =>
        decide_eq_true ((of_decide_eq_true hab).trans (of_decide_eq_true hbc)))
      (fun a b => by
        rw [Bool.or_eq_true, decide_eq_true_eq, decide_eq_true_eq]
        exact le_total a b) l
    exact hpairs.imp fun hab => of_decide_eq_true hab
  exact pairwise_lt_of_isChain (hsorted.sublist (List.destutter_sublist _ _))
    (List.isChain_destutter _ _)

theorem pairwise_backends (node : LocalNode) (isReady : Bool) (ready : List Member)
    (backendPort : UInt16) (tag : Option String) :
    (backends node isReady ready backendPort tag).Pairwise (· < ·) := by
  unfold backends
  exact pairwise_lt_dedup _

/-- The backends are the ready members with the tag, and this node if it is one of them. -/
theorem mem_backends_iff (hready : ready.Perm table.ready) {addr : SocketAddr} :
    addr ∈ backends node isReady ready backendPort tag ↔
      (∃ member ∈ table.members, member.state = .alive ∧ member.ready = true ∧
        carries member.tags tag = true ∧ addr = ⟨member.addr.ip, backendPort⟩) ∨
      isReady = true ∧ carries node.tags tag = true ∧ addr = ⟨node.addr.ip, backendPort⟩ := by
  have hmembers : addr ∈ ((ready.filter fun member => carries member.tags tag).map fun member =>
      (⟨member.addr.ip, backendPort⟩ : SocketAddr)) ↔
      ∃ member ∈ table.members, member.state = .alive ∧ member.ready = true ∧
        carries member.tags tag = true ∧ addr = ⟨member.addr.ip, backendPort⟩ := by
    rw [List.mem_map]
    constructor
    · rintro ⟨member, hmember, rfl⟩
      obtain ⟨hmember, htag⟩ := List.mem_filter.mp hmember
      obtain ⟨hmem, hstate⟩ := List.mem_filter.mp (hready.mem_iff.mp hmember)
      rw [Bool.and_eq_true, decide_eq_true_eq] at hstate
      exact ⟨member, hmem, hstate.1, hstate.2, htag, rfl⟩
    · rintro ⟨member, hmem, hstate, hisReady, htag, rfl⟩
      refine ⟨member, List.mem_filter.mpr ⟨hready.mem_iff.mpr ?_, htag⟩, rfl⟩
      exact List.mem_filter.mpr ⟨hmem, by simp [hstate, hisReady]⟩
  have hself : tag.all node.hasTag = carries node.tags tag := rfl
  unfold backends
  rw [mem_destutter_ne, List.mem_mergeSort, hself, ← hmembers]
  by_cases hown : (isReady && carries node.tags tag) = true
  · rw [if_pos hown, List.mem_append, List.mem_singleton]
    rw [Bool.and_eq_true] at hown
    simp [hown]
  · rw [if_neg hown]
    rw [Bool.and_eq_true] at hown
    tauto

end

/-! ## One round -/

section

variable {target : Target} {backends : List SocketAddr} {start i : ℕ} {connect : ℕ → Connect}

/-- Whether an index overflows, and whether anybody notices. -/
lemma Target.pick_eq (hi : i < backends.length) :
    target.pick backends start i = if target.overflowChecks = true ∧ 2 ^ target.bits ≤ start + i
      then none else backends[(start + i) % 2 ^ target.bits % backends.length]? := by
  have hne : backends.length ≠ 0 := by omega
  unfold pick add
  by_cases hfits : start + i < 2 ^ target.bits
  · rw [if_pos hfits, if_neg (by omega), Nat.mod_eq_of_lt hfits]
    simp only
    rw [if_neg hne]
  · rw [if_neg hfits]
    by_cases hchecks : target.overflowChecks = true
    · rw [if_pos hchecks, if_pos ⟨hchecks, by omega⟩]
    · rw [if_neg hchecks, if_neg (fun h => hchecks h.1)]
      simp only
      rw [if_neg hne]

/-- A loop that finds a backend in every turn tries them in turn. -/
lemma tryEach_spec {turns : List ℕ} {sequence : List SocketAddr} (connect : ℕ → Connect)
    (hpick : turns.map (target.pick backends start) = sequence.map some) :
    (tryEach target backends start connect turns).1 <+: sequence ∧
      (tryEach target backends start connect turns).2 ≠ .panicked ∧
      ((∀ i, connect i ≠ .accepted) →
        tryEach target backends start connect turns = (sequence, .noBackend)) := by
  induction turns generalizing sequence with
  | nil =>
    have hnil : sequence = [] := by simpa using hpick.symm
    rw [hnil]
    exact ⟨List.prefix_rfl, by simp [tryEach], fun _ => rfl⟩
  | cons i turns ih =>
    cases sequence with
    | nil => exact absurd hpick (by simp)
    | cons backend sequence =>
      rw [List.map_cons, List.map_cons, List.cons.injEq] at hpick
      obtain ⟨hfirsts, hended, hall⟩ := ih hpick.2
      unfold tryEach
      rw [hpick.1]
      simp only
      cases hconnect : connect i with
      | accepted => exact ⟨⟨sequence, rfl⟩, by simp, fun hfail => absurd hconnect (hfail i)⟩
      | refused | timedOut =>
        refine ⟨(List.prefix_cons_inj _).mpr hfirsts, hended, fun hfail => ?_⟩
        simp only
        rw [hall hfail]

/-- A loop that comes to an index nobody can compute panics. -/
lemma tryEach_panics {turns : List ℕ} (hi : i ∈ turns)
    (hpick : target.pick backends start i = none) (hfail : ∀ i, connect i ≠ .accepted) :
    (tryEach target backends start connect turns).2 = .panicked := by
  induction turns with
  | nil => exact absurd hi List.not_mem_nil
  | cons j turns ih =>
    unfold tryEach
    cases hj : target.pick backends start j with
    | none => rfl
    | some backend =>
      simp only
      rcases List.mem_cons.mp hi with rfl | hi
      · exact absurd (hj.symm.trans hpick) (by simp)
      · cases hconnect : connect j with
        | accepted => exact absurd hconnect (hfail j)
        | refused | timedOut => exact ih hi

/-- Without an overflow that panics, the loop walks the backends. -/
lemma map_pick_range
    (hfits : target.overflowChecks = true → start + backends.length ≤ 2 ^ target.bits) :
    (List.range backends.length).map (target.pick backends start) =
      (List.walk (2 ^ target.bits) start backends).map some := by
  apply List.ext_getElem?
  intro i
  by_cases hi : i < backends.length
  · have hnot : ¬ (target.overflowChecks = true ∧ 2 ^ target.bits ≤ start + i) := by
      intro ⟨hchecks, hover⟩
      have hall := hfits hchecks
      omega
    have hidx : (start + i) % 2 ^ target.bits % backends.length < backends.length :=
      Nat.mod_lt _ (by omega)
    rw [List.getElem?_map, List.getElem?_range hi, List.getElem?_map,
      List.getElem_walk (by simpa using hi), Option.map_some, Target.pick_eq hi, if_neg hnot,
      List.getElem?_eq_getElem hidx]
    rfl
  · rw [List.getElem?_eq_none (by simpa using hi), List.getElem?_eq_none (by simpa using hi)]

end

/-! ## Every backend once -/

section

variable {bits : ℕ} {overflowChecks : Bool} {node : LocalNode} {isReady : Bool}
  {ready : List Member} {table : MemberTable} {backendPort : UInt16} {tag : Option String}
  {next : BitVec bits}

/-- Whoever accepts, the backends are tried in one order, which is a rotation of theirs: all of
them if nobody does, and a first part of them otherwise. -/
def EachOnce (target : Target) (node : LocalNode) (isReady : Bool) (ready : List Member)
    (backendPort : UInt16) (tag : Option String) (next : BitVec target.bits) : Prop :=
  ∃ sequence, sequence ~r backends node isReady ready backendPort tag ∧
    ∀ connect : ℕ → Connect,
      let round := (forward target node isReady ready backendPort tag next connect).1
      round.1 <+: sequence ∧ round.2 ≠ .panicked ∧
        ((∀ i, connect i ≠ .accepted) → round = (sequence, .noBackend))

/-- A round that doesn't panic is a walk. -/
lemma eachOnce_iff_of_fits (hfits : overflowChecks = true →
      next.toNat + (backends node isReady ready backendPort tag).length ≤ 2 ^ bits) :
    EachOnce ⟨bits, overflowChecks⟩ node isReady ready backendPort tag next ↔
      List.walk (2 ^ bits) next.toNat (backends node isReady ready backendPort tag) ~r
        backends node isReady ready backendPort tag := by
  have hpick : List.map (Target.pick ⟨bits, overflowChecks⟩ _ _) _ = _ := map_pick_range hfits
  constructor
  · rintro ⟨sequence, hrotated, hrounds⟩
    obtain ⟨_, _, hall⟩ := hrounds fun _ => .refused
    obtain ⟨_, _, hwalk⟩ := tryEach_spec (fun _ => .refused) hpick
    have hsame := (hwalk (by simp)).symm.trans (hall (by simp))
    have hsequence : List.walk (2 ^ bits) next.toNat (backends node isReady ready backendPort tag) =
        sequence := congrArg Prod.fst hsame
    rw [hsequence]
    exact hrotated
  · exact fun hrotated => ⟨_, hrotated, fun connect => tryEach_spec connect hpick⟩

/-- Where overflow panics, no index may overflow. -/
lemma fits_of_eachOnce
    (honce : EachOnce ⟨bits, true⟩ node isReady ready backendPort tag next) :
    next.toNat + (backends node isReady ready backendPort tag).length ≤ 2 ^ bits := by
  by_contra hover
  have hstart : next.toNat < 2 ^ bits := next.isLt
  obtain ⟨_, _, hrounds⟩ := honce
  obtain ⟨_, hended, _⟩ := hrounds fun _ => .refused
  set l := backends node isReady ready backendPort tag with hl
  -- the last index of the range is too much
  have hlast : l.length - 1 < l.length := by omega
  have hpick : Target.pick ⟨bits, true⟩ l next.toNat (l.length - 1) = none := by
    rw [Target.pick_eq hlast]
    apply if_pos
    refine ⟨rfl, ?_⟩
    show 2 ^ bits ≤ _
    omega
  exact hended (tryEach_panics (List.mem_range.mpr hlast) hpick (by simp))

/-- The backends are in order and no others than those that can take work. Each of them gets one
try, whatever is checked, exactly if the counter doesn't overflow on the way through them. Where
an overflow isn't noticed, their number may also divide what the counter wraps at. -/
theorem forward_tries_iff (hready : ready.Perm table.ready) :
    (backends node isReady ready backendPort tag).Pairwise (· < ·) ∧
    (∀ addr, addr ∈ backends node isReady ready backendPort tag ↔
      (∃ member ∈ table.members, member.state = .alive ∧ member.ready = true ∧
        carries member.tags tag = true ∧ addr = ⟨member.addr.ip, backendPort⟩) ∨
      isReady = true ∧ carries node.tags tag = true ∧ addr = ⟨node.addr.ip, backendPort⟩) ∧
    ((∀ overflowChecks, EachOnce ⟨bits, overflowChecks⟩ node isReady ready backendPort tag next) ↔
      next.toNat + (backends node isReady ready backendPort tag).length ≤ 2 ^ bits) ∧
    (EachOnce ⟨bits, false⟩ node isReady ready backendPort tag next ↔
      next.toNat + (backends node isReady ready backendPort tag).length ≤ 2 ^ bits ∨
        (backends node isReady ready backendPort tag).length ∣ 2 ^ bits) := by
  have hpairs := pairwise_backends node isReady ready backendPort tag
  have hnodup : (backends node isReady ready backendPort tag).Nodup := hpairs.imp ne_of_lt
  refine ⟨hpairs, fun addr => mem_backends_iff hready, ⟨fun honce => fits_of_eachOnce (honce true),
    fun hfits overflowChecks => ?_⟩, ?_⟩
  · rw [eachOnce_iff_of_fits fun _ => hfits, List.walk_isRotated_iff hnodup next.isLt]
    exact .inl hfits
  · rw [eachOnce_iff_of_fits (by simp), List.walk_isRotated_iff hnodup next.isLt]

end

/-! ### Three backends -/

/-- 10.0.0.`host`, at the port of the service. -/
def serviceAddr (host : UInt8) : SocketAddr := ⟨.v4 #v[10, 0, 0, host], 8080⟩

def proxyNode : LocalNode where
  id := ⟨Vector.replicate 16 3⟩
  addr := ⟨.v4 #v[10, 0, 0, 3], 7946⟩
  tags := []

def proxyTable : MemberTable where
  members := [1, 2].map fun host => {
    id := ⟨Vector.replicate 16 host⟩
    addr := ⟨.v4 #v[10, 0, 0, host], 7946⟩
    incarnation := 0
    state := .alive
    ready := true
    tags := [] }
  nodup := by decide

lemma backends_proxyTable : backends proxyNode true proxyTable.ready 8080 none =
    [serviceAddr 1, serviceAddr 2, serviceAddr 3] := by
  have haddrs : ((proxyTable.ready.filter fun member => carries member.tags none).map fun member =>
      (⟨member.addr.ip, 8080⟩ : SocketAddr)) ++ [⟨proxyNode.addr.ip, 8080⟩] =
      [serviceAddr 1, serviceAddr 2, serviceAddr 3] := by decide
  show (List.mergeSort (_ ++ _) _).destutter _ = _
  rw [haddrs, List.mergeSort_of_pairwise (by decide)]
  decide

/-- Right below the end of the counter every backend still gets its try. -/
theorem forward_tries_iff_three :
    EachOnce ⟨64, true⟩ proxyNode true proxyTable.ready 8080 none (BitVec.ofNat 64 (2 ^ 64 - 3)) ∧
    EachOnce ⟨64, false⟩ proxyNode true proxyTable.ready 8080 none
      (BitVec.ofNat 64 (2 ^ 64 - 3)) := by
  have hready : proxyTable.ready.Perm proxyTable.ready := .refl _
  have honce : ∀ overflowChecks, EachOnce ⟨64, overflowChecks⟩ proxyNode true proxyTable.ready 8080
      none (BitVec.ofNat 64 (2 ^ 64 - 3)) := by
    refine (forward_tries_iff hready).2.2.1.mpr ?_
    rw [backends_proxyTable]
    decide
  exact ⟨honce true, honce false⟩

/-- At its end the first backend is tried twice and the third never, or the proxy panics. -/
theorem backend_skipped_at_wrap :
    ¬ (∀ overflowChecks, EachOnce ⟨64, overflowChecks⟩ proxyNode true proxyTable.ready 8080 none
      (BitVec.allOnes 64)) ∧
    (forward ⟨64, false⟩ proxyNode true proxyTable.ready 8080 none (BitVec.allOnes 64)
      fun _ => .refused).1 = ([serviceAddr 1, serviceAddr 1, serviceAddr 2], .noBackend) ∧
    (forward ⟨64, true⟩ proxyNode true proxyTable.ready 8080 none (BitVec.allOnes 64)
      fun _ => .refused).1 = ([serviceAddr 1], .panicked) := by
  refine ⟨fun honce => ?_, ?_, ?_⟩
  · have hfits := fits_of_eachOnce (honce true)
    rw [backends_proxyTable] at hfits
    exact absurd hfits (by decide)
  · unfold forward
    rw [backends_proxyTable]
    decide
  · unfold forward
    rw [backends_proxyTable]
    decide

end Dalila
