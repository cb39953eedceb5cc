import Dalila.Pair
import Dalila.Watch

/-!
# A member that answers no probe

`Process.Due` bounds how many turns of the detector an alive entry outlasts, by what is left of the
shuffle. From it follows that a member that answers no probe is suspected within this many turns,
declared dead at the first turn after `SUSPICION_TIMEOUT`, and dropped at the first one after
`REAP_TIMEOUT` (`crash_detected`).
-/

namespace Dalila

open Program

section

variable {q id : NodeId} {p p' : Process} {c c' : Cluster} {l : Label} {kind : Kind} {T : Instant}
  {k : Sight}

/-! ## How long an alive entry lasts -/

/-- How many turns end before the entry is suspected: at most one for each member of the
leftover shuffle, of length `L`, and once a fresh one of `size` members was made fewer than
one for each member of both. -/
def Within (L n : ℕ) : Option ℕ → Prop
  | none => n ≤ L
  | some size => n < L + size

/-- After `n` turns, what is left of the shuffle keeps within that. -/
def Ahead (id : NodeId) (L n : ℕ) (left : List NodeId) : Option ℕ → Prop
  | none => n + left.length ≤ L
  | some size => ∃ before after, left = before ++ id :: after ∧ n + before.length < L + size

/-- Whatever the detector is at, the turn of `id` comes in time. -/
def Task.Due (id : NodeId) (L n : ℕ) (order : List NodeId) (size : Option ℕ) : Task → Prop
  | ⟨.choosing _, prog⟩ =>
    (∃ passes left, prog = nextInPasses (passes + 1) left ∧ (passes = 0 → size ≠ none) ∧
      Ahead id L n left size) ∨
    ∃ target left, prog = .ret (some target, left) ∧
      (target.id = id ∨ Ahead id L (n + 1) left size)
  | ⟨.probing target, _⟩ => target.id = id ∨ Ahead id L (n + 1) order size
  | ⟨.judging target acked, _⟩ =>
    target.id = id ∧ acked = false ∨ Ahead id L (n + 1) order size
  | _ => Ahead id L (n + 1) order size

def Process.Due (id : NodeId) (L n : ℕ) (size : Option ℕ) (p : Process) : Prop :=
  match p.tasks .detector with
  | none => p.aborted = true ∨ Ahead id L n p.order size
  | some task => task.Due id L n p.order size

variable {L n : ℕ} {size : Option ℕ} {left : List NodeId}

lemma Ahead.within (h : Ahead id L n left size) : Within L n size := by
  cases size with
  | none => exact le_trans (Nat.le_add_right _ _) h
  | some size =>
    obtain ⟨before, after, _, hlt⟩ := h
    exact lt_of_le_of_lt (Nat.le_add_right _ _) hlt

/-- Another member's turn. -/
lemma Ahead.skip {i : NodeId} (h : Ahead id L n (i :: left) size) (hne : i ≠ id) :
    Ahead id L (n + 1) left size := by
  cases size with
  | none =>
    have h : n + (left.length + 1) ≤ L := h
    show n + 1 + left.length ≤ L
    omega
  | some size =>
    obtain ⟨before, after, hleft, hlt⟩ := h
    cases before with
    | nil => exact absurd (List.cons.inj hleft).1 hne
    | cons i' before =>
      refine ⟨before, after, (List.cons.inj hleft).2, ?_⟩
      rw [List.length_cons] at hlt
      omega

lemma Ahead.mono {n' : ℕ} (h : Ahead id L n left size) (hn : n' ≤ n) : Ahead id L n' left size := by
  cases size with
  | none =>
    have h : n + left.length ≤ L := h
    show n' + left.length ≤ L
    omega
  | some size =>
    obtain ⟨before, after, hleft, hlt⟩ := h
    exact ⟨before, after, hleft, by omega⟩

lemma nextInPasses_nil (passes : ℕ) :
    nextInPasses (passes + 1) [] = .step .shuffledIds (nextInPasses passes) := rfl

lemma nextInPasses_cons (passes : ℕ) (i : NodeId) (left : List NodeId) :
    nextInPasses (passes + 1) (i :: left) = .step (Op.get i) fun found : Option Member =>
      match found with
      | some member =>
        if member.state.isDead then nextInPasses (passes + 1) left else .ret (some member, left)
      | none => nextInPasses (passes + 1) left := by
  show Program.step (Op.get i) _ = _
  congr 1
  funext found
  cases found with
  | none => rfl
  | some member =>
    cases hdead : member.state.isDead with
    | true =>
      simp only [ret_bind, hdead, if_true]
      rfl
    | false =>
      simp only [ret_bind, hdead, Bool.false_eq_true, if_false]
      rfl

/-- One operation of `next_target`, while the entry is there and alive. -/
lemma Ahead.chooses {passes : ℕ} {o : Op} {next : o.Res → Prog (Option Member × List NodeId)}
    {r : o.Res} {node : LocalNode} {w w' : World} {now : Instant} {m : Member}
    (hahead : Ahead id L n left size) (hpasses : passes = 0 → size ≠ none)
    (hprog : .step o next = nextInPasses (passes + 1) left) (hop : o.Run node now w r w')
    (hm : w.shared.table.get id = some m) (hdead : m.state.isDead = false) :
    o = .shuffledIds ∧ size = none ∧ n ≤ L ∧
        (∃ passes' left', next r = nextInPasses (passes' + 1) left' ∧
          Ahead id L n left' (some w.shared.table.len)) ∨
      o ≠ .shuffledIds ∧ ((∃ left', next r = nextInPasses (passes + 1) left' ∧
          Ahead id L n left' size) ∨
        ∃ target left', next r = .ret (some target, left') ∧
          (target.id = id ∨ Ahead id L (n + 1) left' size)) := by
  -- the order is looked through from its head, and shuffled anew when it is used up
  cases left with
  | nil =>
    have hsize : size = none := by
      cases size with
      | none => rfl
      | some size =>
        obtain ⟨before, after, hleft, _⟩ := hahead
        exact absurd hleft (by simp)
    subst hsize
    cases passes with
    | zero => exact absurd rfl (hpasses rfl)
    | succ passes =>
      rw [nextInPasses_nil] at hprog
      obtain ⟨rfl, hnext⟩ := Program.step.inj hprog
      obtain rfl := eq_of_heq hnext
      -- the new shuffle has everybody in it, `id` too, and as many as the table
      have hperm : r.Perm w.shared.table.ids := hop.1
      have hmem : id ∈ r := by
        rw [hperm.mem_iff, MemberTable.mem_ids_iff, hm]
        rfl
      have hlen : r.length = w.shared.table.len := by
        rw [hperm.length_eq]
        simp [MemberTable.ids, MemberTable.len]
      obtain ⟨before, after, hsplit⟩ := List.append_of_mem hmem
      have hL : n + 0 ≤ L := hahead
      refine .inl ⟨rfl, rfl, hL, passes, r, rfl, before, after, hsplit, ?_⟩
      rw [hsplit, List.length_append, List.length_cons] at hlen
      omega
  | cons i left =>
    rw [nextInPasses_cons] at hprog
    obtain ⟨rfl, hnext⟩ := Program.step.inj hprog
    obtain rfl := eq_of_heq hnext
    have hr : r = w.shared.table.get i := hop.1
    refine .inr ⟨by simp, ?_⟩
    cases hfound : r with
    | none =>
      have hne : i ≠ id := by
        rintro rfl
        rw [← hr, hfound] at hm
        exact absurd hm (by simp)
      exact .inl ⟨left, rfl, (hahead.skip hne).mono (Nat.le_succ n)⟩
    | some member =>
      have hget : w.shared.table.get i = some member := hr.symm.trans hfound
      by_cases hid : i = id
      · subst hid
        obtain rfl := Option.some.inj (hget.symm.trans hm)
        refine .inr ⟨member, left, ?_, .inl (MemberTable.id_of_get hget)⟩
        simp [hdead]
      · cases hdead' : member.state.isDead with
        | true =>
          refine .inl ⟨left, ?_, (hahead.skip hid).mono (Nat.le_succ n)⟩
          simp [hdead']
        | false =>
          refine .inr ⟨member, left, ?_, .inr (hahead.skip hid)⟩
          simp [hdead']

lemma Label.turns_eq_zero (hfinish : ∀ kind out, l ≠ .finish q .detector kind out) :
    l.turns q = 0 := by
  cases l with
  | finish q' slot kind out =>
    cases slot with
    | detector =>
      cases kind with
      | reaping =>
        refine if_neg fun hq => ?_
        subst hq
        exact hfinish .reaping out rfl
      | _ => rfl
    | _ => rfl
  | _ => rfl

lemma Label.reshuffles_eq_none (hop : ∀ kind o r, l ≠ .op q .detector kind o r) (c : Cluster) :
    l.reshuffles q c = none := by
  cases l with
  | op q' slot kind o r =>
    have hq : slot = .detector → q' ≠ q := by
      rintro rfl rfl
      exact hop kind o r rfl
    cases slot with
    | detector =>
      cases kind with
      | choosing order =>
        cases o with
        | shuffledIds => exact if_neg (hq rfl)
        | _ => rfl
      | _ => rfl
    | _ => rfl
  | _ => rfl

/-- A failed probe of the entry leaves it no longer alive. -/
lemma Task.Watched.judged {node : LocalNode} {target : Member} {m : Member}
    (h : Task.Watched node id T k ⟨.judging target false, .ret ()⟩) (hid : target.id = id)
    (hm : k.entry = some m) : m.state ≠ .alive := by
  intro hstate
  have hkey := h.follows.result hid rfl m hm
  obtain ⟨m', hm', hi⟩ := h.told hid
  obtain rfl := Option.some.inj (hm'.symm.trans hm)
  rw [← WireMember.key_new, WireMember.key_le_iff] at hkey
  rcases hkey with hlt | ⟨_, hrank⟩
  · exact absurd hi (ne_of_lt hlt)
  · have hrank : 1 ≤ rank m'.state.toWire := hrank
    rw [hstate] at hrank
    exact absurd hrank (by decide)

/-- One step of the process, while its entry is alive. -/
lemma Process.Due.step {m : Member} (hdue : p.Due id L n size) (hwithin : Within L n size)
    (hm : p.shared.table.get id = some m) (hstate : m.state = .alive) (hstep : Step c l c')
    (hquiet : Undisturbed q id c l) (hp : c.procs q = some p)
    (hplace : p.stopped = false → p.InPlace) (hp' : c'.procs q = some p')
    (hwatched : ∀ task, p.tasks .detector = some task →
      task.Watched p.node id T (p.sight c.clock id)) :
    p'.Due id L (n + l.turns q) (size.or (l.reshuffles q c)) ∧
      Within L (n + l.turns q) (size.or (l.reshuffles q c)) := by
  have hdead : m.state.isDead = false := by rw [hstate]; rfl
  unfold Process.Due at hdue ⊢
  -- only the detector's own steps move it in its order; a turn is over when it has reaped
  cases hstep.turns hp hplace hp' with
  | aside _ _ htasks horder haborted hop hfinish =>
    rw [Label.turns_eq_zero hfinish, Label.reshuffles_eq_none hop, Option.or_none, htasks,
      horder]
    refine ⟨?_, hwithin⟩
    cases htask : p.tasks .detector with
    | none =>
      rw [htask] at hdue
      exact hdue.imp_left haborted
    | some task =>
      rw [htask] at hdue
      exact hdue
  | begun kind _ hidle haborted horder htasks =>
    rw [Label.turns_eq_zero (by simp), Label.reshuffles_eq_none (by simp), Option.or_none,
      htasks]
    rw [hidle] at hdue
    refine ⟨.inl ⟨1, p.order, rfl, by simp, ?_⟩, hwithin⟩
    exact hdue.resolve_left (by simp [haborted])
  | moved kind o next r _ htask horder htasks =>
    rw [Label.turns_eq_zero (by simp), htasks, horder]
    rw [htask] at hdue
    cases kind with
    | choosing order =>
      rcases hdue with ⟨passes, left, hprog, hpasses, hahead⟩ | ⟨_, _, hprog, _⟩
      · obtain ⟨p₀, _, shared, net, hp₀, _, _, hop, _⟩ := hstep.of_op
        obtain rfl := Option.some.inj (hp.symm.trans hp₀)
        -- while it chooses, the turn shuffles, passes over an id or settles on a target
        rcases hahead.chooses hpasses hprog hop hm hdead with
          ⟨rfl, rfl, hL, passes', left', hnext, hahead'⟩ | ⟨hother, hnext⟩
        · have hsize : (Label.op q .detector (.choosing order) .shuffledIds r).reshuffles q c =
              some p.shared.table.len := by
            simp [Label.reshuffles, hp]
          rw [hsize]
          exact ⟨.inl ⟨passes', left', hnext, by simp, hahead'⟩, hahead'.within⟩
        · have hsize : (Label.op q .detector (.choosing order) o r).reshuffles q c = none := by
            cases o with
            | shuffledIds => exact absurd rfl hother
            | _ => rfl
          rw [hsize, Option.or_none]
          refine ⟨?_, hwithin⟩
          rcases hnext with ⟨left', hnext, hahead'⟩ | ⟨target, left', hnext, hahead'⟩
          · exact .inl ⟨passes, left', hnext, hpasses, hahead'⟩
          · exact .inr ⟨target, left', hnext, hahead'⟩
      · exact absurd hprog (by simp)
    | _ =>
      rw [show Label.reshuffles q c _ = none from rfl, Option.or_none]
      exact ⟨hdue, hwithin⟩
  | finished kind out _ htask horder htasks =>
    rw [Label.reshuffles_eq_none (by simp), Option.or_none, htasks, horder]
    rw [htask] at hdue
    cases kind with
    | choosing order =>
      rw [show Label.turns q _ = 0 from rfl]
      rcases hdue with ⟨passes, left, hprog, _, _⟩ | ⟨target, left, hprog, hdue⟩
      · cases left with
        | nil => exact absurd hprog (by simp [nextInPasses_nil])
        | cons i left => exact absurd hprog (by simp [nextInPasses_cons])
      · obtain rfl := Program.ret.inj hprog
        exact ⟨hdue, hwithin⟩
    | probing target =>
      rw [show Label.turns q _ = 0 from rfl]
      refine ⟨hdue.imp_left fun hid => ⟨hid, hquiet rfl hid⟩, hwithin⟩
    | judging target acked =>
      rw [show Label.turns q _ = 0 from rfl]
      refine ⟨hdue.resolve_left ?_, hwithin⟩
      rintro ⟨hid, rfl⟩
      -- whoever has just been judged on a failed probe is not alive
      exact (hwatched _ htask).judged hid hm hstate
    | sweeping =>
      rw [show Label.turns q _ = 0 from rfl]
      exact ⟨hdue, hwithin⟩
    | reaping =>
      rw [show (Label.finish q .detector .reaping out).turns q = 1 from if_pos rfl]
      have hahead : Ahead id L (n + 1) p.order size := hdue
      exact ⟨.inr hahead, hahead.within⟩
    | _ => exact absurd (hwatched _ htask).detects (by simp [Kind.detects])
  | cancelled _ haborted horder htasks =>
    rw [Label.turns_eq_zero (by simp), Label.reshuffles_eq_none (by simp), Option.or_none,
      htasks]
    exact ⟨.inl haborted, hwithin⟩

variable {h h' : Trace} {m : Member}

/-- Until its state leaves `P`, the entry does not go away either, unless it is dead. -/
lemma Watch.crosses {P : MemberState → Prop} (hP : ∀ state, P state → state.isDead = false)
    (hwatch : Watch q id h n size h') (hp : h.now.procs q = some p) (hne : p.node.id ≠ id)
    (hplace : p.InPlace) (hidle : p.tasks .detector = none)
    (hm : h.now.entry q id = some m) (hstate : P m.state) :
    (∃ m', h'.now.entry q id = some m' ∧ P m'.state) ∨
      ∃ h₁ n₁ size₁ m₁ l c m₂, Watch q id h n₁ size₁ h₁ ∧ h₁.now.entry q id = some m₁ ∧
        P m₁.state ∧ Step h₁.now l c ∧ Undisturbed q id h₁.now l ∧ Later (h₁.push l c) h' ∧
        c.entry q id = some m₂ ∧ ¬ P m₂.state := by
  induction hwatch with
  | refl => exact .inl ⟨m, hm, hstate⟩
  | @push n size h' l c hwatch hstep hquiet ih =>
    rcases ih with ⟨m₁, hm₁, hstate₁⟩ | ⟨h₁, n₁, size₁, m₁, l₁, c₁, m₂, hwatch₁, hm₁, hstate₁,
      hstep₁, hquiet₁, hlater, hm₂, hstate₂⟩
    · obtain ⟨p', hwatched⟩ := hwatch.watched hp hne hplace hidle
      obtain ⟨p'', hp'', _⟩ := hstep.exists_evolves hwatched.here
      have hkept := (hstep.ages hquiet hwatched.here hp'' hwatched.detector).1
      rw [Cluster.entry_of_procs hwatched.here] at hm₁
      obtain ⟨m₂, hm₂⟩ := Option.isSome_iff_exists.mp (hkept m₁ hm₁ (hP _ hstate₁))
      rw [← Cluster.entry_of_procs hp''] at hm₂
      rw [← Cluster.entry_of_procs hwatched.here] at hm₁
      by_cases hstate₂ : P m₂.state
      · exact .inl ⟨m₂, hm₂, hstate₂⟩
      · exact .inr ⟨h', n, size, m₁, l, c, m₂, hwatch, hm₁, hstate₁, hstep, hquiet, .refl _, hm₂,
          hstate₂⟩
    · exact .inr ⟨h₁, n₁, size₁, m₁, l₁, c₁, m₂, hwatch₁, hm₁, hstate₁, hstep₁, hquiet₁,
        hlater.push hstep, hm₂, hstate₂⟩

/-- While the entry is alive, its turn is still to come, and in time. -/
lemma Watch.due (hwatch : Watch q id h n size h') (hp : h.now.procs q = some p)
    (hne : p.node.id ≠ id) (hplace : p.InPlace) (hidle : p.tasks .detector = none) {p' : Process}
    {m' : Member} (hp' : h'.now.procs q = some p') (hm' : p'.shared.table.get id = some m')
    (hstate' : m'.state = .alive) :
    p'.Due id p.order.length n size ∧ Within p.order.length n size := by
  induction hwatch generalizing p' m' with
  | refl =>
    obtain rfl := Option.some.inj (hp.symm.trans hp')
    have hahead : Ahead id p.order.length 0 p.order none := by
      show 0 + p.order.length ≤ p.order.length
      omega
    refine ⟨?_, hahead.within⟩
    unfold Process.Due
    rw [hidle]
    exact .inr hahead
  | @push n size h' l c hwatch hstep hquiet ih =>
    obtain ⟨p₁, hwatched⟩ := hwatch.watched hp hne hplace hidle
    have hlater : (p₁.sight h'.now.clock id).Later (p'.sight c.clock id) := by
      rcases (hstep.ages hquiet hwatched.here hp' hwatched.detector).2 with
        hages | ⟨_, _, _, _, hages⟩
      · exact hages.1
      · exact hages.1
    obtain ⟨m₁, hm₁, _, hrank⟩ := hlater.exists_before hm'
    have hstate₁ : m₁.state = .alive := by
      rw [hstate'] at hrank
      cases hs : m₁.state with
      | alive => rfl
      | _ =>
        rw [hs] at hrank
        exact absurd hrank (by simp [MemberState.toWire, rank])
    obtain ⟨hdue, hwithin⟩ := ih hwatched.here hm₁ hstate₁
    exact hdue.step hwithin hm₁ hstate₁ hstep hquiet hwatched.here hwatched.place hp'
      hwatched.detector

/-- The entry keeps its incarnation, and its state only gets worse. -/
lemma Watch.worse (hwatch : Watch q id h n size h') (hp : h.now.procs q = some p)
    (hne : p.node.id ≠ id) (hplace : p.InPlace) (hidle : p.tasks .detector = none)
    (hm : p.shared.table.get id = some m) {m' : Member} (hm' : h'.now.entry q id = some m') :
    m'.incarnation = m.incarnation ∧
      (m'.state = m.state ∨ rank m.state.toWire < rank m'.state.toWire) := by
  obtain ⟨p', hwatched⟩ := hwatch.watched hp hne hplace hidle
  rw [Cluster.entry_of_procs hwatched.here] at hm'
  obtain ⟨m₀, hm₀, hi, hstate⟩ := hwatched.later.2 m' hm'
  obtain rfl := Option.some.inj (hm.symm.trans hm₀)
  exact ⟨hi, hstate.imp_right fun h => h.1⟩

/-- An entry that is alive is so no longer after the turns it takes to come to it. -/
lemma Watch.noticed (hwatch : Watch q id h n size h') (hp : h.now.procs q = some p)
    (hne : p.node.id ≠ id) (hplace : p.InPlace) (hidle : p.tasks .detector = none)
    (hm : h.now.entry q id = some m) (halive : m.state = .alive) :
    (∃ m', h'.now.entry q id = some m' ∧ m'.state = .alive ∧ Within p.order.length n size) ∨
      ∃ h₁ n₁ size₁ m₁, Watch q id h n₁ size₁ h₁ ∧ Later h₁ h' ∧
        Within p.order.length n₁ size₁ ∧ h₁.now.entry q id = some m₁ ∧ m₁.state ≠ .alive := by
  have hP : ∀ state : MemberState, state = .alive → state.isDead = false := by
    rintro _ rfl
    rfl
  rcases hwatch.crosses hP hp hne hplace hidle hm halive with ⟨m', hm', hstate'⟩ |
    ⟨h₁, n₁, size₁, m₁, l, c, m₂, hwatch₁, hm₁, hstate₁, hstep, hquiet, hlater, hm₂, hstate₂⟩
  · obtain ⟨p', hwatched⟩ := hwatch.watched hp hne hplace hidle
    refine .inl ⟨m', hm', hstate', ?_⟩
    rw [Cluster.entry_of_procs hwatched.here] at hm'
    exact (hwatch.due hp hne hplace hidle hwatched.here hm' hstate').2
  · -- the last moment before it was noticed, and the step that noticed it
    obtain ⟨p₁, hwatched₁⟩ := hwatch₁.watched hp hne hplace hidle
    rw [Cluster.entry_of_procs hwatched₁.here] at hm₁
    obtain ⟨hdue, hwithin⟩ := hwatch₁.due hp hne hplace hidle hwatched₁.here hm₁ hstate₁
    obtain ⟨p₂, hp₂, _⟩ := hstep.exists_evolves hwatched₁.here
    have hwithin' := (hdue.step hwithin hm₁ hstate₁ hstep hquiet hwatched₁.here
      hwatched₁.place hp₂ hwatched₁.detector).2
    exact .inr ⟨_, _, _, m₂, hwatch₁.push hstep hquiet, hlater, hwithin', hm₂, hstate₂⟩

/-- An entry whose suspicion is due is dead after a turn. -/
lemma Watch.dead (hwatch : Watch q id h n size h') (hp : h.now.procs q = some p)
    (hne : p.node.id ≠ id) (hplace : p.InPlace) (hidle : p.tasks .detector = none)
    (hm : p.shared.table.get id = some m) {since : Instant} (hstate : m.state = .suspect since)
    (hexpired : suspicionExpired h.now.clock m = true) (hpos : 0 < n) {m' : Member}
    (hm' : h'.now.entry q id = some m') : m'.state.isDead = true := by
  obtain ⟨p', hwatched⟩ := hwatch.watched hp hne hplace hidle
  have hget' := (Cluster.entry_of_procs hwatched.here).symm.trans hm'
  have hswept := (hwatched.ended hpos).1 m' hget'
  rcases (hwatch.worse hp hne hplace hidle hm hm').2 with hsame | hrank
  · rw [suspicionExpired_congr hsame, hexpired] at hswept
    exact absurd hswept (by simp)
  · rw [hstate] at hrank
    cases hs : m'.state with
    | dead since' => rfl
    | _ =>
      rw [hs] at hrank
      exact absurd hrank (by simp [MemberState.toWire, rank])

/-- An entry whose death is due is gone after a turn. -/
lemma Watch.gone (hwatch : Watch q id h n size h') (hp : h.now.procs q = some p)
    (hne : p.node.id ≠ id) (hplace : p.InPlace) (hidle : p.tasks .detector = none)
    (hm : p.shared.table.get id = some m) {since : Instant} (hstate : m.state = .dead since)
    (hexpired : deathExpired h.now.clock m = true) (hpos : 0 < n) :
    h'.now.entry q id = none := by
  obtain ⟨p', hwatched⟩ := hwatch.watched hp hne hplace hidle
  cases hgone : h'.now.entry q id with
  | none => rfl
  | some m' =>
    have hget' := (Cluster.entry_of_procs hwatched.here).symm.trans hgone
    have hreaped := (hwatched.ended hpos).2 m' hget'
    rcases (hwatch.worse hp hne hplace hidle hm hgone).2 with hsame | hrank
    · rw [deathExpired_congr hsame, hexpired] at hreaped
      exact absurd hreaped (by simp)
    · -- nothing is worse than dead
      rw [hstate] at hrank
      have hle : rank m'.state.toWire ≤ 2 := by cases m'.state.toWire <;> decide
      have hrank : 2 < rank m'.state.toWire := hrank
      omega

/-- Let `id` answer no probe of `q`, and nobody tell `q` anything about it above `q`'s entry.
Then the entry is suspect or dead after at most one turn for each member of the leftover
shuffle and of the next one, its clocks never start again, and the first turn at or after
either timeout ends with it dead or gone. -/
theorem crash_detected (hp : h.now.procs q = some p) (hne : p.node.id ≠ id)
    (hplace : p.InPlace) (hidle : p.tasks .detector = none)
    (hm : p.shared.table.get id = some m) (hwatch : Watch q id h n size h') :
    ((∃ m', h'.now.entry q id = some m' ∧ m'.state = .alive ∧ Within p.order.length n size) ∨
      ∃ h₁ n₁ size₁ m₁, Watch q id h n₁ size₁ h₁ ∧ Later h₁ h' ∧
        Within p.order.length n₁ size₁ ∧ h₁.now.entry q id = some m₁ ∧ m₁.state ≠ .alive) ∧
    (∀ m', h'.now.entry q id = some m' → m'.incarnation = m.incarnation ∧
      (m'.state = m.state ∨ rank m.state.toWire < rank m'.state.toWire)) ∧
    (∀ since, m.state = .suspect since → since + SUSPICION_TIMEOUT ≤ h.now.clock → 0 < n →
      (∀ m', h'.now.entry q id = some m' → m'.state.isDead = true) ∧
      ∃ h₁ n₁ size₁ m₁, Watch q id h n₁ size₁ h₁ ∧ Later h₁ h' ∧
        h₁.now.entry q id = some m₁ ∧ m₁.state.isDead = true) ∧
    (∀ since, m.state = .dead since → since + REAP_TIMEOUT ≤ h.now.clock → 0 < n →
      h'.now.entry q id = none) := by
  have hentry : h.now.entry q id = some m := by rw [Cluster.entry_of_procs hp, hm]
  -- noticed in time, never better again, and each of the two timeouts acted on
  refine ⟨?_, fun m' hm' => hwatch.worse hp hne hplace hidle hm hm', ?_, ?_⟩
  · by_cases halive : m.state = .alive
    · exact hwatch.noticed hp hne hplace hidle hentry halive
    · exact .inr ⟨h, 0, none, m, .refl, hwatch.later, Nat.zero_le _, hentry, halive⟩
  · intro since hstate hdue hpos
    have hexpired : suspicionExpired h.now.clock m = true := by
      unfold suspicionExpired
      rw [hstate]
      refine decide_eq_true ?_
      unfold Instant at *
      omega
    have hdead : ∀ m', h'.now.entry q id = some m' → m'.state.isDead = true := fun m' hm' =>
      hwatch.dead hp hne hplace hidle hm hstate hexpired hpos hm'
    refine ⟨hdead, ?_⟩
    have hlives : m.state.isDead = false := by rw [hstate]; rfl
    rcases hwatch.crosses (P := fun state => state.isDead = false) (fun _ hP => hP) hp hne hplace
      hidle hentry hlives with ⟨m', hm', hstate'⟩ |
        ⟨h₁, n₁, size₁, m₁, l, c, m₂, hwatch₁, _, _, hstep, hquiet, hlater, hm₂, hstate₂⟩
    · rw [hdead m' hm'] at hstate'
      exact absurd hstate' (by simp)
    · exact ⟨_, _, _, m₂, hwatch₁.push hstep hquiet, hlater, hm₂, by simpa using hstate₂⟩
  · intro since hstate hdue hpos
    have hexpired : deathExpired h.now.clock m = true := by
      unfold deathExpired
      rw [hstate]
      refine decide_eq_true ?_
      unfold Instant at *
      omega
    exact hwatch.gone hp hne hplace hidle hm hstate hexpired hpos

lemma Label.fruitless.undisturbed (hl : l.fruitless q) (id : NodeId) (c : Cluster) :
    Undisturbed q id c l := by
  cases l with
  | op q' slot kind o r =>
    cases o with
    | merge rumor me => exact fun _ hslot => absurd hl.2.1 hslot
    | remove ids => exact fun _ hslot => absurd hl.2.1 hslot
    | _ => trivial
  | finish q' slot kind out =>
    cases kind with
    | probing target => exact fun _ _ => hl.2.2
    | _ => trivial
  | _ => trivial

lemma Watch.of_fruitless (hlater : LaterBy (Label.fruitless q) h h') (id : NodeId) :
    ∃ n size, Watch q id h n size h' := by
  induction hlater with
  | refl => exact ⟨0, none, .refl⟩
  | push _ hstep ih =>
    obtain ⟨n, size, hwatch⟩ := ih
    exact ⟨_, _, hwatch.push hstep.1 (hstep.2.undisturbed id _)⟩

/-- One turn once the suspicion is due. -/
theorem crash_detected_pair : ∃ h n size h', Watch alpha.id beta.id h n size h' ∧ 0 < n ∧
    (∃ m, h.now.entry alpha.id beta.id = some m ∧ m.state = .suspect 0) ∧
    ∀ m', h'.now.entry alpha.id beta.id = some m' → m'.state.isDead = true := by
  obtain ⟨h₀, shared₀, shared', hrun₀, hnow₀, _, _, hmembers₀, _⟩ :=
    exists_pair alpha_ne_beta alpha_mayStart beta_mayStart
  obtain ⟨h₁, shared, hlater, hnow₁, hmarked⟩ := exists_pair_suspects hrun₀ hnow₀ alpha_ne_beta
    hmembers₀ alpha_ne_beta.symm rfl
  -- nothing happens for as long as it takes
  set h := h₁.push (.tick SUSPICION_TIMEOUT)
    { h₁.now with clock := h₁.now.clock + SUSPICION_TIMEOUT } with hh
  have hrun : Run h := Run.push (hrun₀.extends hlater.later) (.tick _ _)
  have hnow : h.now = .pair SUSPICION_TIMEOUT alpha beta shared shared' := by
    rw [hh, History.now_push, hnow₁]
    simp [Cluster.pair]
  have hp : h.now.procs alpha.id = some { Process.new alpha [] with shared := shared } := by
    rw [hnow]
    exact Cluster.procs_pair_left alpha_ne_beta
  have htasks : ∀ slot, (Process.new alpha []).tasks slot = none := by simp [Process.new]
  have hclock : (0 : Instant) + SUSPICION_TIMEOUT ≤ h.now.clock := by
    rw [hnow]
    exact Nat.le_of_eq (Nat.zero_add _)
  obtain ⟨h₂, shared₂, hturn, _, hends⟩ :=
    exists_turn_buries hrun hp rfl rfl rfl (htasks .detector) rfl
    hmarked.members alpha_ne_beta.symm rfl hclock
  obtain ⟨n, size, hwatch⟩ := Watch.of_fruitless hturn beta.id
  have hwatch' := hwatch.push hends (by trivial)
  have hget : shared.table.get beta.id =
      some { (beta.aliveRumor Guarded.new.current).toMember 0 with state := .suspect 0 } :=
    MemberTable.get_of_mem (by rw [hmarked.members]; exact List.mem_singleton_self _)
  have hplace : ({ Process.new alpha [] with shared := shared } : Process).InPlace := by
    intro slot task htask
    exact absurd ((htasks slot).symm.trans htask) (by simp)
  have hpos : 0 < n + Label.turns alpha.id (.finish alpha.id .detector .reaping ()) := by
    have hturns : Label.turns alpha.id (.finish alpha.id .detector .reaping ()) = 1 := by
      simp [Label.turns]
    omega
  have hdetected := crash_detected hp alpha_ne_beta hplace (htasks .detector) hget hwatch'
  exact ⟨h, _, _, _, hwatch', hpos, ⟨_, (Cluster.entry_of_procs hp).trans hget, rfl⟩,
    (hdetected.2.2.1 0 rfl hclock hpos).1⟩

end

end Dalila
