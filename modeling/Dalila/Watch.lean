import Dalila.Detection

/-!
# Watching one member

`Watch` is a run seen from one entry of one table: the detector's turns, one after another, while
the rest of the process merges nothing that disturbs the entry. `Watched` is what the detector knows
of it, and that the sweeps at the end of a turn leave nothing whose time was up when it began.
-/

namespace Dalila

open Program

/-! ## Operations, as one entry sees them -/

section

variable {node : LocalNode} {id : NodeId} {now : Instant} {drops : Bool} {o : Op}

/-- An operation that leaves the entry alone but for rumors no higher than it ages it. -/
lemma Op.ages (now : Instant) (drops : Bool) (o : Op) (table : MemberTable)
    (hmerge : ∀ rumor me, o = .merge rumor me → rumor.id = id →
      ∃ m, table.get id = some m ∧ rumor.incarnation ≤ m.incarnation)
    (hremove : ∀ ids, o = .remove ids → id ∈ ids → drops = true) :
    Sight.Ages drops ⟨now, table.get id⟩ ⟨now, (o.tableAfter now table).get id⟩ := by
  cases hget : table.get id with
  | none =>
    have hnone : (o.tableAfter now table).get id = none := by
      cases o with
      | merge rumor me =>
        have hid : rumor.id ≠ id := fun hid => by
          obtain ⟨m, hm, _⟩ := hmerge rumor me rfl hid
          exact absurd (hget.symm.trans hm) (by simp)
        have hother := table.get_merge now rumor me id
        rw [if_neg (fun h => hid h.1.symm)] at hother
        exact hother.trans hget
      | remove ids =>
        show (table.remove ids).get id = none
        rw [MemberTable.get_remove, hget, ite_self]
      | _ => exact hget
    rw [hnone]
    exact .refl ..
  | some m =>
    -- dropped, left alone, or updated by a rumor at its own incarnation
    rcases o.get_tableAfter now hget with ⟨ids, ho, hid, hafter⟩ | hafter |
      ⟨rumor, me, ho, hid, _, hkey, hafter⟩
    · rw [hafter]
      refine ⟨⟨le_refl _, fun m' hm' => absurd hm' (by simp)⟩, fun hdrops => ?_⟩
      exact absurd (hdrops.symm.trans (hremove ids ho hid)) (by simp)
    · rw [hafter]
      exact .refl ..
    · rw [hafter]
      refine ⟨⟨le_refl _, fun m' hm' => ⟨m, rfl, ?_⟩⟩, fun _ _ => rfl⟩
      obtain rfl := Option.some.inj hm'
      obtain ⟨m₀, hm₀, hle⟩ := hmerge rumor me ho hid
      obtain rfl := Option.some.inj (hget.symm.trans hm₀)
      rw [← WireMember.key_new, WireMember.key_lt_iff] at hkey
      rcases hkey with hlt | ⟨hi, hrank⟩
      · exact absurd hle (not_le_of_gt hlt)
      · refine ⟨hi.symm, .inr ⟨?_, ?_⟩⟩
        · show rank m.state.toWire < rank (rumor.state.toMember now).toWire
          rw [WireMemberState.toWire_toMember]
          exact hrank
        · intro since hsince
          have hsince : since ∈ (rumor.state.toMember now).since := hsince
          cases hs : rumor.state <;> rw [hs] at hsince <;>
            simp only [WireMemberState.toMember, MemberState.since, Option.mem_def,
              Option.some.injEq, reduceCtorEq] at hsince
          · exact le_of_eq hsince
          · exact le_of_eq hsince

/-- What the detector's operations do is what the contract says. -/
lemma Op.aging_post {w w' : World} {r : o.Res} (hne : node.id ≠ id)
    (hrun : o.Run node now w r w')
    (hpre : (aging node id drops).pre o ⟨now, w.shared.table.get id⟩) :
    (aging node id drops).post o r ⟨now, w'.shared.table.get id⟩ := by
  have htable := hrun.table
  cases o with
  | merge rumor me =>
    intro hid m hm
    obtain ⟨rfl, hheld⟩ := hpre
    obtain ⟨m₀, hm₀, _⟩ := hheld hid
    rw [← hid] at hne hm₀ hm
    obtain ⟨m', hm', hkey, _⟩ := MemberTable.le_get_merge now hne.symm hm₀
    rw [htable] at hm
    obtain rfl := Option.some.inj (hm'.symm.trans hm)
    exact hkey
  | get i =>
    obtain ⟨rfl, rfl⟩ := hrun
    refine ⟨fun m hm => MemberTable.id_of_get hm, ?_⟩
    rintro rfl
    rfl
  | membersWhere f =>
    obtain ⟨hperm, rfl⟩ := hrun
    have hmem : ∀ m, m ∈ r ↔ m ∈ w'.shared.table.members ∧ f now m = true := fun m =>
      hperm.mem_iff.trans List.mem_filter
    refine ⟨fun m hm => ?_, fun m hm hid => ?_⟩
    · exact ⟨MemberTable.id_of_get hm, fun hf => (hmem m).mpr ⟨MemberTable.mem_of_get hm, hf⟩⟩
    · obtain ⟨hmember, hf⟩ := (hmem m).mp hm
      have hget := MemberTable.get_of_mem hmember
      rw [hid] at hget
      exact ⟨hget, hf⟩
  | remove ids =>
    intro hid
    show w'.shared.table.get id = none
    rw [htable]
    show (w.shared.table.remove ids).get id = none
    rw [MemberTable.get_remove, if_pos hid]
  | _ => trivial

end

/-! ## Watching one member -/

/-- The entry of `id`, as the process has it at time `now`. -/
def Process.sight (p : Process) (now : Instant) (id : NodeId) : Sight :=
  ⟨now, p.shared.table.get id⟩

/-- Outside its detector `q` merges nothing about `id` at a higher incarnation than its entry
for it, nor anything once it has none, and does not drop it. No probe of `id` is answered. -/
def Undisturbed (q id : NodeId) (c : Cluster) : Label → Prop
  | .op q' slot _ (.merge rumor _) _ => q' = q → slot ≠ .detector → rumor.id = id →
      ∃ p m, c.procs q = some p ∧ p.shared.table.get id = some m ∧
        rumor.incarnation ≤ m.incarnation
  | .op q' slot _ (.remove ids) _ => q' = q → slot ≠ .detector → id ∉ ids
  | .finish q' _ (.probing target) acked => q' = q → target.id = id → acked = false
  | _ => True

/-- The turns of `q`'s detector that end here. -/
def Label.turns (q : NodeId) : Label → ℕ
  | .finish q' .detector .reaping _ => if q' = q then 1 else 0
  | _ => 0

/-- The size of `q`'s table, if its detector reshuffles here. -/
def Label.reshuffles (q : NodeId) (c : Cluster) : Label → Option ℕ
  | .op q' .detector (.choosing _) .shuffledIds _ =>
    if q' = q then (c.procs q).map fun p => p.shared.table.len else none
  | _ => none

/-- From `h` to `h'` nothing disturbs `q`'s detection of `id`. `n` of its turns have ended
since, and `size` was the size of the table at its first reshuffle. -/
inductive Watch (q id : NodeId) (h : Trace) : (n : ℕ) → (size : Option ℕ) → (h' : Trace) → Prop where
  | refl : Watch q id h 0 none h
  | push {n : ℕ} {size : Option ℕ} {h' : Trace} {l : Label} {c : Cluster}
      (hwatch : Watch q id h n size h') (hstep : Step h'.now l c)
      (hquiet : Undisturbed q id h'.now l) :
      Watch q id h (n + l.turns q) (size.or (l.reshuffles q h'.now)) (h'.push l c)

/-- A watch is a run. -/
lemma Watch.later {q id : NodeId} {h h' : Trace} {n : ℕ} {size : Option ℕ}
    (hwatch : Watch q id h n size h') : Later h h' := by
  induction hwatch with
  | refl => exact .refl h
  | push _ hstep _ ih => exact ih.push hstep

/-! ## One step of the detector -/

/-- What comes after a part of the turn, and what is left of the shuffle. -/
def Kind.handsOver (order : List NodeId) : (kind : Kind) → kind.Out → Option Kind × List NodeId
  | .choosing _, (some target, rest) => (some (.probing target), rest)
  | .choosing _, (none, rest) => (some .sweeping, rest)
  | .probing target, acked => (some (.judging target acked), order)
  | .judging _ _, _ => (some .sweeping, order)
  | .sweeping, _ => (some .reaping, order)
  | _, _ => (none, order)

/-- What a step does to the detector of a process. -/
inductive Process.Turns (q : NodeId) (p : Process) : Label → Process → Prop where
  /-- Nothing. -/
  | aside (l : Label) (p' : Process) (htasks : p'.tasks .detector = p.tasks .detector)
      (horder : p'.order = p.order) (haborted : p.aborted = true → p'.aborted = true)
      (hop : ∀ kind o r, l ≠ .op q .detector kind o r)
      (hfinish : ∀ kind out, l ≠ .finish q .detector kind out) : Turns q p l p'
  /-- A turn begins. -/
  | begun (kind : Kind) (p' : Process) (hidle : p.tasks .detector = none)
      (haborted : p.aborted = false) (horder : p'.order = p.order)
      (htasks : p'.tasks .detector = some (.start p.node (.choosing p.order))) :
      Turns q p (.begins q .detector kind) p'
  | moved (kind : Kind) (o : Op) (next : o.Res → Prog kind.Out) (r : o.Res) (p' : Process)
      (htask : p.tasks .detector = some ⟨kind, .step o next⟩) (horder : p'.order = p.order)
      (htasks : p'.tasks .detector = some ⟨kind, next r⟩) :
      Turns q p (.op q .detector kind o r) p'
  | finished (kind : Kind) (out : kind.Out) (p' : Process)
      (htask : p.tasks .detector = some ⟨kind, .ret out⟩)
      (horder : p'.order = (kind.handsOver p.order out).2)
      (htasks : p'.tasks .detector = (kind.handsOver p.order out).1.map (.start p.node)) :
      Turns q p (.finish q .detector kind out) p'
  | cancelled (p' : Process) (haborted : p'.aborted = true) (horder : p'.order = p.order)
      (htasks : p'.tasks .detector = none) : Turns q p (.cancel q .detector) p'

section

variable {q id : NodeId} {p p' : Process} {c c' : Cluster} {l : Label} {slot : Slot} {kind : Kind}

lemma Process.finish_aside (hslot : slot ≠ .detector) (hruns : slot.Runs kind) (free : ℕ)
    (out : kind.Out) :
    (p.finish slot free kind out).tasks .detector = p.tasks .detector ∧
      (p.finish slot free kind out).order = p.order ∧
      (p.aborted = true → (p.finish slot free kind out).aborted = true) := by
  have hset : ∀ task, (p.set slot task).tasks .detector = p.tasks .detector := fun task => by
    rw [tasks_set, if_neg hslot.symm]
  cases kind with
  | datagram src body =>
    cases out with
    | none => exact ⟨hset none, rfl, fun h => h⟩
    | some relay =>
      refine ⟨?_, rfl, fun h => h⟩
      show ((p.set slot none).set (.spawned free) _).tasks .detector = _
      rw [tasks_set, if_neg (by simp)]
      exact hset none
  | relay | serve | sync | health => exact ⟨hset none, rfl, fun h => h⟩
  | join seeds =>
    cases out with
    | true => exact ⟨hset none, rfl, fun h => h⟩
    | false => exact ⟨rfl, rfl, fun h => h⟩
  | leaving => exact ⟨hset _, rfl, fun _ => rfl⟩
  | announcing => exact ⟨rfl, rfl, fun h => h⟩
  | _ => cases slot <;> simp_all [Slot.Runs]

lemma Process.finish_detector (hdetects : kind.detects = true) (free : ℕ) (out : kind.Out) :
    (p.finish .detector free kind out).order = (kind.handsOver p.order out).2 ∧
      (p.finish .detector free kind out).tasks .detector =
        (kind.handsOver p.order out).1.map (.start p.node) := by
  cases kind with
  | choosing order =>
    obtain ⟨target, rest⟩ := out
    cases target <;> exact ⟨rfl, by simp [finish, set, Kind.handsOver]⟩
  | probing | judging | sweeping | reaping =>
    exact ⟨rfl, by simp [finish, set, Kind.handsOver]⟩
  | _ => exact absurd hdetects (by simp [Kind.detects])

/-- What one step does to the detector of a process. -/
lemma Step.turns (hstep : Step c l c') (hp : c.procs q = some p)
    (hplace : p.stopped = false → p.InPlace) (hp' : c'.procs q = some p') : p.Turns q l p' := by
  have hset : ∀ {slot : Slot} (task : Option Task), slot ≠ .detector →
      (p.set slot task).tasks .detector = p.tasks .detector := fun task hslot => by
    rw [Process.tasks_set, if_neg hslot.symm]
  have hset' : ∀ task : Option Task, (p.set .detector task).tasks .detector = task := fun task => by
    rw [Process.tasks_set, if_pos rfl]
  by_cases hq : l.actor = some q
  · cases hstep with
    | tick | lose | duplicate | query => exact absurd hq (by simp [Label.actor])
    | start node seeds hnew hmay =>
      obtain rfl := Option.some.inj hq
      exact absurd (hp.symm.trans hnew) (by simp)
    | begins q₀ p₀ slot kind hp₀ hstopped haborted hidle hbegins =>
      obtain rfl := Option.some.inj hq
      obtain rfl := Option.some.inj (hp.symm.trans hp₀)
      obtain rfl := Cluster.eq_of_procs_setProc hp'
      -- the detector begins, moves, ends and is cancelled in its own slot only
      by_cases hslot : slot = .detector
      · subst hslot
        cases hbegins with
        | detector _ => exact .begun _ _ hidle haborted rfl (hset' _)
      · exact .aside _ _ (hset _ hslot) rfl (fun h => h) (by simp) (by simp)
    | receive q₀ p₀ src body hp₀ hstopped haborted hidle hnet =>
      obtain rfl := Option.some.inj hq
      obtain rfl := Option.some.inj (hp.symm.trans hp₀)
      obtain rfl := Cluster.eq_of_procs_setProc (c := c) hp'
      exact .aside _ _ (hset _ (by simp)) rfl (fun h => h) (by simp) (by simp)
    | accept q₀ p₀ n conn body hp₀ hstopped haborted hidle hserver hnet =>
      obtain rfl := Option.some.inj hq
      obtain rfl := Option.some.inj (hp.symm.trans hp₀)
      obtain rfl := Cluster.eq_of_procs_setProc (c := c) hp'
      exact .aside _ _ (hset _ (by simp)) rfl (fun h => h) (by simp) (by simp)
    | op q₀ p₀ slot kind o next r shared net hp₀ hstopped htask hop =>
      obtain rfl := Option.some.inj hq
      obtain rfl := Option.some.inj (hp.symm.trans hp₀)
      obtain rfl := Cluster.eq_of_procs_setProc (c := c) hp'
      by_cases hslot : slot = .detector
      · subst hslot
        exact .moved kind o next r _ htask rfl (hset' _)
      · refine .aside _ _ (hset _ hslot) rfl (fun h => h) ?_ (by simp)
        intro kind' o' r' hl
        injection hl with _ hslot'
        exact hslot hslot'
    | finish q₀ p₀ slot kind out free hp₀ hstopped htask hfree =>
      obtain rfl := Option.some.inj hq
      obtain rfl := Option.some.inj (hp.symm.trans hp₀)
      obtain rfl := Cluster.eq_of_procs_setProc hp'
      have hruns : slot.Runs kind := hplace hstopped slot _ htask
      by_cases hslot : slot = .detector
      · subst hslot
        have hafter := p.finish_detector hruns free out
        exact .finished kind out _ htask hafter.1 hafter.2
      · have hafter := p.finish_aside hslot hruns free out
        refine .aside _ _ hafter.1 hafter.2.1 hafter.2.2 (by simp) ?_
        intro kind' out' hl
        injection hl with _ hslot'
        exact hslot hslot'
    | cancel q₀ p₀ slot hp₀ hstopped haborted hslot =>
      obtain rfl := Option.some.inj hq
      obtain rfl := Option.some.inj (hp.symm.trans hp₀)
      obtain rfl := Cluster.eq_of_procs_setProc hp'
      by_cases hslot : slot = .detector
      · subst hslot
        exact .cancelled _ haborted rfl (hset' _)
      · exact .aside _ _ (hset _ hslot) rfl (fun h => h) (by simp) (by simp)
    | stop q₀ p₀ hp₀ =>
      obtain rfl := Option.some.inj hq
      obtain rfl := Option.some.inj (hp.symm.trans hp₀)
      obtain rfl := Cluster.eq_of_procs_setProc hp'
      exact .aside _ _ rfl rfl (fun h => h) (by simp) (by simp)
  · -- a step of another process
    rw [hstep.procs_eq hq, hp] at hp'
    obtain rfl := Option.some.inj hp'
    refine .aside l p rfl rfl (fun h => h) ?_ ?_
    · rintro kind o r rfl
      exact hq rfl
    · rintro kind out rfl
      exact hq rfl

/-! ## What the detector knows of the entry -/

/-- No suspicion whose time was up at `T`. -/
def Sight.Swept (T : Instant) (k : Sight) : Prop :=
  ∀ m, k.entry = some m → suspicionExpired T m = false

/-- No death whose time was up at `T`. -/
def Sight.Reaped (T : Instant) (k : Sight) : Prop :=
  ∀ m, k.entry = some m → deathExpired T m = false

/-- A part of the turn that runs as it should, where the sweep comes before the reaping. -/
structure Task.Watched (node : LocalNode) (id : NodeId) (T : Instant) (k : Sight) (task : Task) :
    Prop where
  detects : task.kind.detects = true
  told : task.kind.Told id k
  follows : Follows (aging node id task.kind.drops) (task.kind.Leaves id T) task.prog k
  swept : task.kind.drops = true → k.Swept T

variable {T : Instant} {k k' : Sight} {task : Task}

lemma Sight.Ages.weaken {drops : Bool} (h : Sight.Ages false k k') : Sight.Ages drops k k' :=
  ⟨h.1, fun _ => h.2 rfl⟩

lemma Sight.Ages.isSome {m : Member} (h : Sight.Ages false k k') (hm : k.entry = some m) :
    k'.entry.isSome = true := h.2 rfl (by rw [hm]; rfl)

/-- Time passes. -/
lemma Sight.ages_of_clock {now now' : Instant} (hle : now ≤ now') (entry : Option Member) :
    Sight.Ages false ⟨now, entry⟩ ⟨now', entry⟩ :=
  ⟨⟨hle, fun m hm => ⟨m, hm, rfl, .inl rfl⟩⟩, fun _ h => h⟩

/-- What was swept by `T` stays so: later doubts have later clocks. -/
lemma Sight.Swept.later (h : k.Swept T) (hT : T ≤ k.clock) (hk : k.Later k') : k'.Swept T := by
  intro m' hm'
  by_contra hexpired
  have hexpired : suspicionExpired T m' = true := by simpa using hexpired
  obtain ⟨m, hm, _, hstate⟩ := hk.suspicionExpired hT hm' hexpired
  rw [suspicionExpired_congr hstate, h m hm] at hexpired
  exact absurd hexpired (by simp)

lemma Sight.Reaped.later (h : k.Reaped T) (hT : T ≤ k.clock) (hk : k.Later k') :
    k'.Reaped T := by
  intro m' hm'
  by_contra hexpired
  have hexpired : deathExpired T m' = true := by simpa using hexpired
  obtain ⟨m, hm, _, hstate⟩ := hk.deathExpired hT hm' hexpired
  rw [deathExpired_congr hstate, h m hm] at hexpired
  exact absurd hexpired (by simp)

lemma Task.Watched.ages {node : LocalNode} (h : task.Watched node id T k) (hT : T ≤ k.clock)
    (hk : Sight.Ages task.kind.drops k k') : task.Watched node id T k' where
  detects := h.detects
  told := h.told.ages hk
  follows := h.follows.mono hk
  swept hdrops := (h.swept hdrops).later hT hk.1

/-- One step ages the entry: only a reaping drops it, and only if it is dead. -/
lemma Step.ages (hstep : Step c l c') (hquiet : Undisturbed q id c l) (hp : c.procs q = some p)
    (hp' : c'.procs q = some p')
    (hwatched : ∀ task, p.tasks .detector = some task →
      task.Watched p.node id T (p.sight c.clock id)) :
    (∀ m, p.shared.table.get id = some m → m.state.isDead = false →
      (p'.shared.table.get id).isSome = true) ∧
    (Sight.Ages false (p.sight c.clock id) (p'.sight c'.clock id) ∨
      ∃ kind o r, l = .op q .detector kind o r ∧
        Sight.Ages kind.drops (p.sight c.clock id) (p'.sight c'.clock id)) := by
  have hclock := hstep.clock_le
  obtain ⟨p'', hp'', hev⟩ := hstep.exists_evolves hp
  obtain rfl := Option.some.inj (hp''.symm.trans hp')
  cases hev with
  | quiet _ _ hshared =>
    have hages : Sight.Ages false (p.sight c.clock id) (p''.sight c'.clock id) := by
      unfold Process.sight
      rw [hshared]
      exact Sight.ages_of_clock hclock _
    exact ⟨fun m hm _ => hages.isSome hm, .inl hages⟩
  | op slot kind o next r shared net halive htask hl hop =>
    subst hl
    have htable : shared.table = o.tableAfter c.clock p.shared.table := hop.table
    have hsight : ({ p with shared := shared }.set slot (some ⟨kind, next r⟩)).sight c'.clock id =
        ⟨c'.clock, (o.tableAfter c.clock p.shared.table).get id⟩ := by
      show (⟨c'.clock, shared.table.get id⟩ : Sight) = _
      rw [htable]
    rw [hsight]
    show (∀ m, p.shared.table.get id = some m → m.state.isDead = false →
      (shared.table.get id).isSome = true) ∧ _
    rw [htable]
    -- the detector is bound by its contract, the other tasks by the quiet around the entry
    by_cases hslot : slot = .detector
    · subst hslot
      have hpre := ((hwatched _ htask).follows.step).1
      have hages := Op.ages c.clock kind.drops o p.shared.table
        (by rintro rumor me rfl hid; exact hpre.2 hid)
        (by rintro ids rfl hid; exact (hpre hid).1)
      refine ⟨fun m hm hdead => ?_, .inr ⟨kind, o, r, rfl, ?_⟩⟩
      · rcases o.get_tableAfter c.clock hm with
          ⟨ids, rfl, hid, _⟩ | hafter | ⟨_, _, _, _, _, _, hafter⟩
        · exact absurd ((hpre hid).2 m hm) (by simp [hdead])
        · rw [hafter]
          rfl
        · rw [hafter]
          rfl
      · exact hages.trans (Sight.ages_of_clock hclock _).weaken
    · have hages : Sight.Ages false _ _ := Op.ages c.clock false o p.shared.table
        (by
          rintro rumor me rfl hid
          obtain ⟨p₀, m, hp₀, hm, hle⟩ := hquiet rfl hslot hid
          obtain rfl := Option.some.inj (hp₀.symm.trans hp)
          exact ⟨m, hm, hle⟩)
        (by
          rintro ids rfl hid
          exact absurd hid (hquiet rfl hslot))
      have hages := hages.trans (Sight.ages_of_clock hclock _)
      exact ⟨fun m hm _ => hages.isSome hm, .inl hages⟩

/-- What follows a part of the turn runs as it should. -/
lemma Kind.watched_handsOver {node : LocalNode} {out : kind.Out} (order : List NodeId)
    (hT : T ≤ k.clock) (htold : kind.Told id k)
    (hleaves : kind.Leaves id T out k) {kind' : Kind}
    (hnext : (kind.handsOver order out).1 = some kind') :
    (Task.start node kind').Watched node id T k := by
  have hstart : kind'.detects = true → kind'.Told id k → (kind'.drops = true → k.Swept T) →
      (Task.start node kind').Watched node id T k := fun hdetects htold' hswept =>
    ⟨hdetects, htold', follows_part hdetects hT htold', hswept⟩
  cases kind with
  | choosing order' =>
    obtain ⟨target, rest⟩ := out
    cases target with
    | some target =>
      obtain rfl := Option.some.inj hnext
      exact hstart rfl (hleaves target rfl) (fun hdrops => absurd hdrops (by simp [Kind.drops]))
    | none =>
      obtain rfl := Option.some.inj hnext
      exact hstart rfl trivial (fun hdrops => absurd hdrops (by simp [Kind.drops]))
  | probing target =>
    obtain rfl := Option.some.inj hnext
    exact hstart rfl htold (fun hdrops => absurd hdrops (by simp [Kind.drops]))
  | judging target acked =>
    obtain rfl := Option.some.inj hnext
    exact hstart rfl trivial (fun hdrops => absurd hdrops (by simp [Kind.drops]))
  | sweeping =>
    obtain rfl := Option.some.inj hnext
    exact hstart rfl trivial fun _ => hleaves
  | _ => exact absurd hnext (by simp [Kind.handsOver])

/-- Where a watch has come to. -/
structure Watched (q id : NodeId) (T : Instant) (n : ℕ) (p : Process) (c c' : Cluster)
    (p' : Process) : Prop where
  here : c'.procs q = some p'
  node : p'.node = p.node
  place : p'.stopped = false → p'.InPlace
  clock : T ≤ c'.clock
  later : (p.sight c.clock id).Later (p'.sight c'.clock id)
  detector : ∀ task, p'.tasks .detector = some task →
    task.Watched p'.node id T (p'.sight c'.clock id)
  /-- The turns that have ended swept and reaped. -/
  ended : 0 < n → (p'.sight c'.clock id).Swept T ∧ (p'.sight c'.clock id).Reaped T

/-- One step of a watch. -/
lemma Watched.step {c₀ : Cluster} {p₀ : Process} {n : ℕ} (h : Watched q id T n p₀ c₀ c p)
    (hne : p₀.node.id ≠ id) (hstep : Step c l c') (hquiet : Undisturbed q id c l) :
    ∃ p', Watched q id T (n + l.turns q) p₀ c₀ c' p' := by
  obtain ⟨p', hp', hev⟩ := hstep.exists_evolves h.here
  have hne : p.node.id ≠ id := by rw [h.node]; exact hne
  have hages := (hstep.ages hquiet h.here hp' h.detector).2
  have hlater : (p.sight c.clock id).Later (p'.sight c'.clock id) := by
    rcases hages with hages | ⟨_, _, _, _, hages⟩
    · exact hages.1
    · exact hages.1
  have hclock' : T ≤ c'.clock := h.clock.trans hstep.clock_le
  -- a step that is not the detector's own keeps what it knows
  have hquietly : (∀ kind o r, l ≠ .op q .detector kind o r) →
      ∀ {drops}, Sight.Ages drops (p.sight c.clock id) (p'.sight c'.clock id) := by
    intro hop drops
    rcases hages with hages | ⟨kind, o, r, hl, _⟩
    · exact hages.weaken
    · exact absurd hl (hop kind o r)
  refine ⟨p', hp', hev.node.trans h.node, ?_, hclock', h.later.trans hlater, ?_, ?_⟩
  · refine fun halive' => hstep.inPlace (fun p₁ hp₁ halive => ?_) hp' halive'
    obtain rfl := Option.some.inj (h.here.symm.trans hp₁)
    exact h.place halive
  · intro task htask
    rw [hev.node]
    cases hstep.turns h.here h.place hp' with
    | aside l _ htasks horder haborted hop hfinish =>
      rw [htasks] at htask
      exact (h.detector task htask).ages h.clock (hquietly hop)
    | begun kind _ hidle haborted horder htasks =>
      obtain rfl := Option.some.inj (htask.symm.trans htasks)
      exact ⟨rfl, trivial, follows_part rfl hclock' trivial,
        fun hdrops => absurd hdrops (by simp [Task.start, Kind.drops])⟩
    | moved kind o next r _ htask₀ horder htasks =>
      obtain rfl := Option.some.inj (htask.symm.trans htasks)
      have hwatched := h.detector _ htask₀
      have hages : Sight.Ages kind.drops (p.sight c.clock id) (p'.sight c'.clock id) := by
        rcases hages with hages | ⟨_, _, _, hl, hages⟩
        · exact hages.weaken
        · obtain ⟨_, _, rfl, _⟩ := Label.op.inj hl
          exact hages
      obtain ⟨hpre, hnext⟩ := hwatched.follows.step
      refine ⟨hwatched.detects, hwatched.told.ages hages, hnext r _ hages ?_, fun hdrops =>
        (hwatched.swept hdrops).later h.clock hlater⟩
      obtain ⟨p₁, _, shared, net, hp₁, _, _, hop, rfl⟩ := hstep.of_op
      obtain rfl := Option.some.inj (h.here.symm.trans hp₁)
      have hshared : p'.shared = shared := by
        obtain rfl := Cluster.eq_of_procs_setProc (c := c) hp'
        rfl
      have hpost := Op.aging_post hne hop hpre
      rw [← hshared] at hpost
      exact hpost
    | finished kind out _ htask₀ horder htasks =>
      have hwatched := (h.detector _ htask₀).ages h.clock (hquietly (by simp))
      rw [htasks] at htask
      obtain ⟨kind', hnext, rfl⟩ := Option.map_eq_some_iff.mp htask
      exact Kind.watched_handsOver p.order hclock' hwatched.told hwatched.follows.result hnext
    | cancelled _ haborted horder htasks =>
      rw [htasks] at htask
      exact absurd htask (by simp)
  · intro hpos
    by_cases hn : 0 < n
    · exact ⟨(h.ended hn).1.later h.clock hlater, (h.ended hn).2.later h.clock hlater⟩
    · -- the first turn has just ended
      have hturn : 0 < l.turns q := by omega
      cases l with
      | finish q' slot kind out =>
        cases slot with
        | detector =>
          cases kind with
          | reaping =>
            have hq : q' = q := by
              by_contra hq
              simp [Label.turns, hq] at hturn
            subst hq
            cases hstep with
            | finish _ p₁ _ _ _ free hp₁ halive htask =>
              obtain rfl := Option.some.inj (h.here.symm.trans hp₁)
              have hwatched := (h.detector _ htask).ages h.clock (hquietly (by simp))
              exact ⟨hwatched.swept rfl, hwatched.follows.result⟩
          | _ => simp [Label.turns] at hturn
        | _ => simp [Label.turns] at hturn
      | _ => simp [Label.turns] at hturn

variable {h h' : Trace} {n : ℕ} {size : Option ℕ}

/-- What the detector knows holds from turn to turn. -/
lemma Watch.watched (hwatch : Watch q id h n size h') (hp : h.now.procs q = some p)
    (hne : p.node.id ≠ id) (hplace : p.InPlace) (hidle : p.tasks .detector = none) :
    ∃ p', Watched q id h.now.clock n p h.now h'.now p' := by
  induction hwatch with
  | refl =>
    refine ⟨p, hp, rfl, fun _ => hplace, le_refl _, .refl _, fun task htask => ?_, by simp⟩
    exact absurd (hidle.symm.trans htask) (by simp)
  | push _ hstep hquiet ih =>
    obtain ⟨p', hp'⟩ := ih
    exact hp'.step hne hstep hquiet

end

end Dalila
