import Dalila.Proxy

/-!
# How the proxy shares out connections

`startProxy` is the loop of the proxy: its connections draw their starts from one counter. The file
counts who gets the first try of how many of them, and bounds what one backend gets when others fail
(`proxy_shares_out`).
-/

namespace Dalila

/-! ## The loop -/

/-- What a connection finds: the table and the app's state as it reads them, and how its connects
turn out. -/
structure Client where
  isReady : Bool
  ready : List Member
  connect : ℕ → Connect

/-- The addresses a connection tried, and how it ended. -/
abbrev Served := List SocketAddr × Ended

/-- The rounds of `start_proxy`, in the order in which they draw from the counter. -/
def startProxy (target : Target) (node : LocalNode) (backendPort : UInt16) (tag : Option String) :
    BitVec target.bits → List Client → List Served
  | _, [] => []
  | next, client :: clients =>
    let round := forward target node client.isReady client.ready backendPort tag next client.connect
    round.1 :: startProxy target node backendPort tag round.2 clients

/-- A round whose turn was not `backend`'s. -/
def Served.passesOver (backend : SocketAddr) (round : Served) : Bool :=
  round.1.head? = some backend && round.2 ≠ .forwarded backend

variable {target : Target} {node : LocalNode} {backendPort : UInt16} {tag : Option String}
  {next : BitVec target.bits} {clients : List Client} {l : List SocketAddr}

/-! ## One round -/

/-- The first try is the one whose turn it is. -/
lemma head?_forward {isReady : Bool} {ready : List Member} {connect : ℕ → Connect}
    (hl : backends node isReady ready backendPort tag = l) :
    (forward target node isReady ready backendPort tag next connect).1.1.head? =
      l[next.toNat % l.length]? := by
  unfold forward
  rw [hl]
  show (tryEach target l next.toNat connect (List.range l.length)).1.head? = _
  rcases Nat.eq_zero_or_pos l.length with hlen | hlen
  · rw [List.length_eq_zero_iff.mp hlen]
    rfl
  · have hfirst : target.pick l next.toNat 0 = l[next.toNat % l.length]? := by
      rw [Target.pick_eq hlen, if_neg (by omega), Nat.add_zero,
        Nat.mod_eq_of_lt (show next.toNat < 2 ^ target.bits from next.isLt)]
    have hrange : List.range l.length = 0 :: (List.range (l.length - 1)).map Nat.succ := by
      rw [← List.range_succ_eq_map, Nat.sub_add_cancel hlen]
    rw [hrange, tryEach, hfirst, List.getElem?_eq_getElem (Nat.mod_lt _ hlen)]
    simp only
    cases connect 0 <;> rfl

/-- Whoever a connection goes to, somebody had his turn first. -/
lemma exists_head? {start : ℕ} {connect : ℕ → Connect} {turns : List ℕ} {backend : SocketAddr}
    (h : (tryEach target l start connect turns).2 = .forwarded backend) :
    ∃ first, (tryEach target l start connect turns).1.head? = some first := by
  cases turns with
  | nil => exact absurd h (by simp [tryEach])
  | cons i turns =>
    unfold tryEach at h ⊢
    cases hpick : target.pick l start i with
    | none =>
      rw [hpick] at h
      exact absurd h (by simp)
    | some first =>
      refine ⟨first, ?_⟩
      simp only
      cases connect i <;> rfl

/-! ## Many rounds -/

lemma toNat_succ {bits : ℕ} {next : BitVec bits} (h : next.toNat + 1 < 2 ^ bits) :
    (next + 1).toNat = next.toNat + 1 := by
  have hone : (1 : BitVec bits).toNat = 1 % 2 ^ bits := BitVec.toNat_ofNat ..
  rw [Nat.mod_eq_of_lt (by omega)] at hone
  rw [BitVec.toNat_add, hone, Nat.mod_eq_of_lt h]

/-- Whose turn it is, round by round. -/
lemma map_head?_startProxy
    (hl : ∀ client ∈ clients, backends node client.isReady client.ready backendPort tag = l)
    (hfits : next.toNat + clients.length ≤ 2 ^ target.bits) :
    (startProxy target node backendPort tag next clients).map (fun round => round.1.head?) =
      (List.range clients.length).map fun k => l[(next.toNat + k) % l.length]? := by
  induction clients generalizing next with
  | nil => rfl
  | cons client clients ih =>
    rw [List.length_cons] at hfits ⊢
    have hrange : (List.range (clients.length + 1)).map
        (fun k => l[(next.toNat + k) % l.length]?) = l[next.toNat % l.length]? ::
          (List.range clients.length).map fun k => l[(next.toNat + 1 + k) % l.length]? := by
      rw [List.range_succ_eq_map, List.map_cons, List.map_map]
      refine congrArg₂ _ rfl (List.map_congr_left fun k _ => ?_)
      rw [Function.comp_apply, Nat.succ_eq_add_one, Nat.add_right_comm, Nat.add_assoc]
    have hfirst : (forward target node client.isReady client.ready backendPort tag next
        client.connect).1.1.head? = l[next.toNat % l.length]? :=
      head?_forward (hl client List.mem_cons_self)
    have hrest : (startProxy target node backendPort tag (next + 1) clients).map
        (fun round => round.1.head?) =
          (List.range clients.length).map fun k => l[(next.toNat + 1 + k) % l.length]? := by
      rcases Nat.eq_zero_or_pos clients.length with hnone | hsome
      · rw [List.length_eq_zero_iff.mp hnone]
        rfl
      · rw [← toNat_succ (by omega)]
        refine ih (fun client hclient => hl client (List.mem_cons_of_mem _ hclient)) ?_
        rw [toNat_succ (by omega)]
        omega
    rw [hrange, ← hfirst, ← hrest]
    rfl

lemma countP_le_add {β : Type} (p q : β → Bool) (l : List β) :
    l.countP p ≤ l.countP q + l.countP fun b => p b && !q b := by
  induction l with
  | nil => exact Nat.zero_le _
  | cons b l ih =>
    simp only [List.countP_cons]
    cases p b <;> cases q b <;> simp <;> omega

/-- What is always for one of a few reasons is not more than they are. -/
lemma countP_le_mul {α β : Type} {S : List α} {l : List β} {B : ℕ} (q : α → β → Bool)
    {p : β → Bool} (hp : ∀ b ∈ l, p b = true → ∃ a ∈ S, q a b = true)
    (hq : ∀ a ∈ S, l.countP (q a) ≤ B) : l.countP p ≤ S.length * B := by
  induction S generalizing p with
  | nil =>
    have hnone : l.countP p = 0 := by
      rw [List.countP_eq_zero]
      intro b hb hpb
      obtain ⟨a, ha, _⟩ := hp b hb hpb
      exact absurd ha List.not_mem_nil
    rw [hnone]
    exact Nat.zero_le _
  | cons a S ih =>
    have hrest : l.countP (fun b => p b && !q a b) ≤ S.length * B := by
      refine ih (fun b hb hpb => ?_) fun a' ha' => hq a' (List.mem_cons_of_mem _ ha')
      rw [Bool.and_eq_true, Bool.not_eq_true'] at hpb
      obtain ⟨a', ha', hqa'⟩ := hp b hb hpb.1
      rcases List.mem_cons.mp ha' with rfl | ha'
      · exact absurd hqa' (by simp [hpb.2])
      · exact ⟨a', ha', hqa'⟩
    have hsplit := countP_le_add p (q a) l
    rw [List.length_cons, Nat.add_one_mul]
    have hone := hq a List.mem_cons_self
    omega

/-- Whoever a connection goes to, it was the turn of one of the backends. -/
lemma exists_passed_turn
    (hl : ∀ client ∈ clients, backends node client.isReady client.ready backendPort tag = l)
    (hfits : next.toNat + clients.length ≤ 2 ^ target.bits) {round : Served}
    (hround : round ∈ startProxy target node backendPort tag next clients) {backend : SocketAddr}
    (hended : round.2 = .forwarded backend) :
    ∃ first, round.1.head? = some first ∧ first ∈ l := by
  have hsome : ∃ first, round.1.head? = some first := by
    clear hl hfits
    induction clients generalizing next with
    | nil => exact absurd hround List.not_mem_nil
    | cons client clients ih =>
      rcases List.mem_cons.mp hround with rfl | hround
      · exact exists_head? hended
      · exact ih hround
  obtain ⟨first, hfirst⟩ := hsome
  have hmem : round.1.head? ∈ (startProxy target node backendPort tag next clients).map
      fun round => round.1.head? := List.mem_map.mpr ⟨round, hround, rfl⟩
  rw [map_head?_startProxy hl hfits, List.mem_map] at hmem
  obtain ⟨k, _, hk⟩ := hmem
  exact ⟨first, hfirst, List.mem_of_getElem? (hk.trans hfirst)⟩

/-- How many connections have gone to a backend. -/
def forwarded (backend : SocketAddr) (rounds : List Served) : ℕ :=
  rounds.countP fun round => round.2 = .forwarded backend

/-- As long as the same backends can take work and the counter has not come to its end, a proxy is
fair. Of `n` connections each of the backends gets the first try of `n / m` or one more, where `m` is
how many they are. A backend that accepts in its turn gets at least these; and only those for which
others failed in theirs come on top, so that nobody gets more than his share and that of the backends
that failed. -/
theorem proxy_shares_out
    (hl : ∀ client ∈ clients, backends node client.isReady client.ready backendPort tag = l)
    (hfits : next.toNat + clients.length ≤ 2 ^ target.bits) {backend : SocketAddr}
    (hbackend : backend ∈ l) :
    let rounds := startProxy target node backendPort tag next clients
    let share := clients.length / l.length
    let turns := rounds.countP fun round => round.1.head? = some backend
    (share ≤ turns ∧ turns ≤ share + 1) ∧
      ((∀ round ∈ rounds, round.passesOver backend = false) →
        share ≤ forwarded backend rounds) ∧
      forwarded backend rounds ≤
        ((l.filter fun other => rounds.any (Served.passesOver other)).length + 1) * (share + 1) := by
  intro rounds share turns
  have hheads := map_head?_startProxy hl hfits
  have hturns : ∀ other ∈ l, share ≤ rounds.countP (fun round => round.1.head? = some other) ∧
      rounds.countP (fun round => round.1.head? = some other) ≤ share + 1 := by
    intro other hother
    cases clients with
    | nil => exact ⟨(Nat.zero_div _).le, Nat.zero_le _⟩
    | cons client clients =>
      have hnodup : l.Nodup := by
        rw [← hl client List.mem_cons_self]
        exact (pairwise_backends ..).imp ne_of_lt
      -- first tries go round the list, so one backend's are counted in a rotation
      have hcount : rounds.countP (fun round => round.1.head? = some other) =
          (rounds.map fun round => round.1.head?).count (some other) := by
        rw [List.count_eq_countP, List.countP_map]
        exact List.countP_congr fun round _ => by simp
      rw [hcount, hheads]
      exact List.count_turns hnodup hother next.toNat _
  refine ⟨hturns backend hbackend, fun hnever => (hturns backend hbackend).1.trans ?_, ?_⟩
  · refine List.countP_mono_left fun round hround hturn => ?_
    have hpasses := hnever round hround
    unfold Served.passesOver at hpasses
    rw [hturn, Bool.true_and] at hpasses
    simpa using hpasses
  · -- a connection that ends at `backend` was first tried there or where the try failed
    set failing := l.filter fun other => rounds.any (Served.passesOver other) with hfailing
    refine countP_le_mul (S := backend :: failing)
      (fun other round => decide (round.1.head? = some other)) (fun round hround hended => ?_)
      fun other hother => (hturns other ?_).2
    · obtain ⟨first, hfirst, hmem⟩ := exists_passed_turn hl hfits hround (of_decide_eq_true hended)
      refine ⟨first, ?_, decide_eq_true hfirst⟩
      by_cases hsame : first = backend
      · rw [hsame]
        exact List.mem_cons_self
      · refine List.mem_cons_of_mem _ (List.mem_filter.mpr ⟨hmem, ?_⟩)
        refine List.any_eq_true.mpr ⟨round, hround, ?_⟩
        have hother : round.2 ≠ .forwarded first := by
          rw [of_decide_eq_true hended]
          simpa using Ne.symm hsame
        simp [Served.passesOver, hfirst, hother]
    · rcases List.mem_cons.mp hother with rfl | hother
      · exact hbackend
      · exact (List.mem_filter.mp hother).1

/-- Seven connections, and three backends that accept. -/
theorem proxy_shares_out_three :
    let rounds := startProxy ⟨64, false⟩ proxyNode 8080 none 0
      (List.replicate 7 ⟨true, proxyTable.ready, fun _ => .accepted⟩)
    let turns := rounds.countP fun round => round.1.head? = some (serviceAddr 2)
    2 ≤ turns ∧ turns ≤ 3 := by
  have hl : ∀ client ∈ List.replicate 7 (Client.mk true proxyTable.ready fun _ => .accepted),
      backends proxyNode client.isReady client.ready 8080 none =
        [serviceAddr 1, serviceAddr 2, serviceAddr 3] := by
    intro client hclient
    rw [List.eq_of_mem_replicate hclient]
    exact backends_proxyTable
  exact (@proxy_shares_out ⟨64, false⟩ proxyNode 8080 none 0 _ _ hl (by decide) _ (by decide)).1

end Dalila
