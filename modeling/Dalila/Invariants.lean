import Dalila.Spread

/-!
# Invariants of every run

Who a process is (`Process.Sane`), how its incarnation moves (`Process.Grows`), which task runs in
which slot (`Process.InPlace`), that only who has left says goodbye, and what the detector knows
about the table while it has a target (`Task.Grounded`).
-/

namespace Dalila

open Program

/-- What holds of the empty cluster and is kept by every step holds in every run. -/
lemma Run.invariant {P : Cluster → Prop} {h : Trace} (hrun : Run h) (hempty : P .empty)
    (hstep : ∀ h l c, Run h → P h.now → Step h.now l c → P c) : P h.now := by
  refine History.IsRun.induction (P := fun h => P h.now) hrun ?_ ?_
  · intro c hc
    rw [hc]
    exact hempty
  · intro h l c hrun hP hs
    exact hstep h l c hrun hP hs

lemma Run.push {h : Trace} (hrun : Run h) {l : Label} {c : Cluster} (hstep : Step h.now l c) :
    Run (h.push l c) := hrun.extends (.single hstep)

/-! ## What every task keeps to -/

/-- The knowledge of everything. Its contract only says what the programs never do. -/
def Knowledge.everything : Knowledge where
  knows _ _ := True
  holds _ _ := True
  copied _ _ := True
  said _ _ := True
  departs _ _ := True
  postmortem := True
  knows_later _ _ := trivial
  holds_later _ _ := trivial
  copied_later _ _ := trivial
  said_later _ _ := trivial
  departs_later _ _ := trivial
  knows_of_holds _ := trivial
  copied_of_holds _ := trivial
  knows_of_expired _ _ := trivial
  knows_of_departs _ := trivial

/-- Everything there is may be known, so this knowledge is sound. -/
lemma Knowledge.sound_everything : Knowledge.everything.Sound Run where
  own _ _ _ := ⟨trivial, trivial⟩
  leaving _ _ _ _ := trivial
  fresh _ _ _ := trivial
  update _ _ _ _ _ := trivial
  marked _ _ _ _ _ _ _ := trivial

variable {h h' : Trace} {q : NodeId} {p p' : Process} {slot : Slot} {kind : Kind}

/-- Rumors are merged under the node's own id, and only reaping drops entries. -/
lemma Run.pre (hrun : Run h) (hp : h.now.procs q = some p) (halive : p.stopped = false) {o : Op}
    {next : o.Res → Prog kind.Out} (htask : p.tasks slot = some ⟨kind, .step o next⟩) :
    (Knowledge.everything.contract p.node kind).pre o h :=
  ((Knowledge.sound_everything.covers hrun).tasks hp halive htask).2.step.1

/-- Who merges says its own id. -/
lemma Run.merge_me (hrun : Run h) (hp : h.now.procs q = some p) (halive : p.stopped = false)
    {rumor : WireMember} {me : NodeId} {next : MergeOutcome → Prog kind.Out}
    (htask : p.tasks slot = some ⟨kind, .step (.merge rumor me) next⟩) : me = p.node.id :=
  (hrun.pre hp halive htask).1

/-- Nobody but the reaping part of a turn removes entries. -/
lemma Run.remove_kind (hrun : Run h) (hp : h.now.procs q = some p) (halive : p.stopped = false)
    {ids : List NodeId} {next : Unit → Prog kind.Out}
    (htask : p.tasks slot = some ⟨kind, .step (.remove ids) next⟩) : kind = .reaping :=
  hrun.pre hp halive htask

/-! ## Who a process is -/

/-- A process runs under its own id, at an address others can connect to, and never has an
entry for itself. -/
structure Process.Sane (q : NodeId) (p : Process) : Prop where
  id : p.node.id = q
  mayStart : Process.mayStart p.node
  own : p.shared.table.get q = none

lemma Process.Sane.of_op (hsane : p.Sane q) {c : Cluster} {o : Op} {r : o.Res} {shared : Shared}
    {net : List Packet} (hme : ∀ rumor me, o = .merge rumor me → me = p.node.id)
    (hop : o.Run p.node c.clock ⟨p.shared, c.net⟩ r ⟨shared, net⟩) : shared.table.get q = none := by
  have htable : shared.table = o.tableAfter c.clock p.shared.table := hop.table
  rw [htable]
  cases o with
  | merge rumor me =>
    have hid : me = q := (hme rumor me rfl).trans hsane.id
    show (p.shared.table.merge c.clock rumor me).2.get q = none
    rw [MemberTable.get_merge, if_neg (by simp [hid]), hsane.own]
  | remove ids =>
    show (p.shared.table.remove ids).get q = none
    rw [MemberTable.get_remove, hsane.own]
    exact ite_self none
  | _ => exact hsane.own

/-- A process keeps its id and has no entry for itself. -/
lemma Run.sane (hrun : Run h) (hp : h.now.procs q = some p) : p.Sane q := by
  have hall : ∀ q p, h.now.procs q = some p → p.Sane q := by
    refine hrun.invariant (P := fun c => ∀ q p, c.procs q = some p → p.Sane q) ?_ ?_
    · exact fun q p hp => absurd hp (by simp [Cluster.empty])
    · intro h l c hrun ih hstep q p' hp'
      rcases hstep.proc_cases hp' with ⟨p, hp, hev⟩ | ⟨_, node, seeds, _, hid, hmay, rfl⟩
      · have hsane := ih q p hp
        cases hev with
        | quiet _ hnode hshared =>
          refine ⟨?_, ?_, ?_⟩
          · rw [hnode]; exact hsane.id
          · rw [hnode]; exact hsane.mayStart
          · rw [hshared]; exact hsane.own
        | op slot kind o next r shared net halive htask hl hop =>
          refine ⟨hsane.id, hsane.mayStart, hsane.of_op ?_ hop⟩
          rintro rumor me rfl
          exact hrun.merge_me hp halive htask
      · exact ⟨hid, hmay, rfl⟩
  exact hall q p hp

/-! ## How an incarnation moves -/

/-- What later steps keep of a process: its identity and, once it is leaving or has stopped,
its incarnation. The incarnation never goes down. -/
structure Process.Grows (p p' : Process) : Prop where
  node : p'.node = p.node
  incarnation : p.shared.guarded.incarnation ≤ p'.shared.guarded.incarnation
  leaving : p.shared.guarded.leaving = true → p'.shared.guarded = p.shared.guarded
  ready : p.shared.guarded.incarnation < Incarnation.max →
    p'.shared.guarded.incarnation = p.shared.guarded.incarnation →
    p'.shared.guarded.ready = p.shared.guarded.ready
  running : p'.stopped = false → p.stopped = false

/-- A process grows by every step, its own or anybody else's. -/
lemma Process.Evolves.grows {c : Cluster} {l : Label} (hev : p.Evolves c l q p') : p.Grows p' := by
  have hguarded : p'.shared.guarded = p.shared.guarded ∨
      ∃ o : Op, p'.shared.guarded = o.guardedAfter p.shared.guarded := by
    rcases hev.shared with hshared | ⟨_, _, o, r, net, _, hop⟩
    · exact .inl (congrArg Shared.guarded hshared)
    · exact .inr ⟨o, hop.guarded⟩
  rcases hguarded with hsame | ⟨o, hafter⟩
  · refine ⟨hev.node, ?_, fun _ => hsame, fun _ _ => by rw [hsame], hev.running⟩
    rw [hsame]
  · refine ⟨hev.node, ?_, ?_, ?_, hev.running⟩
    · rw [hafter]
      exact o.incarnation_le_guardedAfter p.shared.guarded
    · intro hleaving
      rw [hafter]
      exact o.guardedAfter_of_leaving hleaving
    · intro hmax heq
      rw [hafter] at heq ⊢
      exact o.ready_guardedAfter hmax heq

lemma Process.Grows.trans {p'' : Process} (h : p.Grows p') (h' : p'.Grows p'') :
    p.Grows p'' := by
  refine ⟨h'.node.trans h.node, h.incarnation.trans h'.incarnation, ?_, ?_, ?_⟩
  · intro hleaving
    have hsame := h.leaving hleaving
    rw [← hsame]
    exact h'.leaving (by rw [hsame]; exact hleaving)
  · intro hmax heq
    have hmid : p'.shared.guarded.incarnation = p.shared.guarded.incarnation :=
      le_antisymm (heq ▸ h'.incarnation) h.incarnation
    rw [h'.ready (hmid ▸ hmax) (heq.trans hmid.symm), h.ready hmax hmid]
  · exact fun halive => h.running (h'.running halive)

lemma Step.grows {c c' : Cluster} {l : Label} (hstep : Step c l c') (hp : c.procs q = some p)
    (hp' : c'.procs q = some p') : p.Grows p' := by
  obtain ⟨p'', hp'', hev⟩ := hstep.exists_evolves hp
  obtain rfl : p'' = p' := Option.some.inj (hp''.symm.trans hp')
  exact hev.grows

/-- A process is never forgotten. -/
lemma Later.exists_grows (hlater : Later h h') (hp : h.now.procs q = some p) :
    ∃ p', h'.now.procs q = some p' ∧ p.Grows p' := by
  induction hlater with
  | refl => exact ⟨p, hp, (Process.Evolves.refl .empty (.stop q) q p).grows⟩
  | push hext hstep ih =>
    obtain ⟨p', hp', hgrows⟩ := ih
    obtain ⟨p'', hp'', hev⟩ := hstep.exists_evolves hp'
    exact ⟨p'', hp'', hgrows.trans hev.grows⟩

lemma Later.grows (hlater : Later h h') (hp : h.now.procs q = some p)
    (hp' : h'.now.procs q = some p') : p.Grows p' := by
  obtain ⟨p'', hp'', hgrows⟩ := hlater.exists_grows hp
  obtain rfl : p'' = p' := Option.some.inj (hp''.symm.trans hp')
  exact hgrows

/-- Time does not go back. -/
lemma Later.clock_le (hlater : Later h h') : h.now.clock ≤ h'.now.clock := by
  induction hlater with
  | refl => exact le_refl _
  | push _ hstep ih => exact ih.trans hstep.clock_le

/-! ## Which task runs where -/

/-- Each slot has its kinds of task, and the parts of a turn share the detector's. -/
def Slot.Runs : Slot → Kind → Prop
  | .main, .join _ | .main, .leaving | .main, .announcing => True
  | .udp, .datagram _ _ => True
  | .sync, .sync => True
  | .health, .health _ => True
  | .detector, kind => kind.detects = true
  | .spawned _, .relay _ | .spawned _, .serve _ _ => True
  | _, _ => False

lemma Kind.Next.runs {slot' : Slot} {free : ℕ} {out : kind.Out} {kind' : Kind}
    (hnext : kind.Next slot free out slot' kind') (hruns : slot.Runs kind) : slot'.Runs kind' := by
  cases hnext <;> cases slot <;> simp_all [Slot.Runs, Kind.detects]

/-- Every task is where it runs. -/
def Process.InPlace (p : Process) : Prop :=
  ∀ slot task, p.tasks slot = some task → slot.Runs task.kind

lemma Step.inPlace {c c' : Cluster} {l : Label} (hstep : Step c l c')
    (hplace : ∀ p, c.procs q = some p → p.stopped = false → p.InPlace) {p' : Process}
    (hp' : c'.procs q = some p') (halive' : p'.stopped = false) : p'.InPlace := by
  intro slot task htask
  cases Task.arises hstep hp' halive' htask with
  | kept p _ hp halive htask => exact hplace p hp halive slot task htask
  | moved p kind o next r net hp halive htask₀ =>
    have hruns := hplace p hp halive slot _ htask₀
    exact hruns
  | followed p slot₀ kind₀ out free kind hp halive htask₀ hl hnext =>
    exact hnext.runs (hplace p hp halive slot₀ _ htask₀)
  | begun p kind hp halive haborted hl hbegins => cases hbegins <;> trivial
  | received p src body hp halive hslot => subst hslot; trivial
  | accepted p n conn body hp halive hslot => subst hslot; trivial
  | joining seeds hslot => subst hslot; trivial

/-- In every run, a task is in a slot where its kind belongs. -/
lemma Run.slots (hrun : Run h) (hp : h.now.procs q = some p) (halive : p.stopped = false)
    {task : Task} (htask : p.tasks slot = some task) : slot.Runs task.kind := by
  have hall : ∀ q p, h.now.procs q = some p → p.stopped = false → p.InPlace := by
    refine hrun.invariant (P := fun c => ∀ q p, c.procs q = some p → p.stopped = false →
      p.InPlace) ?_ ?_
    · exact fun q p hp => absurd hp (by simp [Cluster.empty])
    · intro h l c hrun ih hstep q p' hp' halive
      exact hstep.inPlace (ih q) hp' halive
  exact hall q p hp halive slot task htask

/-! ## Room for one more task -/

/-- Only finitely many tasks have been spawned. -/
def Process.Roomy (p : Process) : Prop :=
  ∃ N, ∀ n, N ≤ n → p.tasks (.spawned n) = none

lemma Process.Roomy.set (hroom : p.Roomy) (slot : Slot) (task : Option Task) :
    (p.set slot task).Roomy := by
  obtain ⟨N, hN⟩ := hroom
  have hother : ∀ n, N ≤ n → .spawned n ≠ slot → (p.set slot task).tasks (.spawned n) = none := by
    intro n hn hne
    rw [Process.tasks_set, if_neg hne]
    exact hN n hn
  cases slot with
  | spawned m =>
    refine ⟨max N (m + 1), fun n hn => hother n (le_trans (le_max_left _ _) hn) ?_⟩
    have hlt : m < n := lt_of_lt_of_le (Nat.lt_succ_self m) (le_trans (le_max_right _ _) hn)
    rintro heq
    injection heq with heq
    omega
  | _ => exact ⟨N, fun n hn => hother n hn (by simp)⟩

lemma Process.Roomy.finish (hroom : p.Roomy) (slot : Slot) (free : ℕ) (out : kind.Out) :
    (p.finish slot free kind out).Roomy := by
  cases kind with
  | datagram src body =>
    cases out with
    | none => exact hroom.set slot none
    | some relay => exact (hroom.set slot none).set _ _
  | join seeds => cases out <;> first | exact hroom | exact hroom.set slot none
  | choosing order =>
    obtain ⟨target, order⟩ := out
    cases target <;> exact hroom.set slot _
  | announcing => exact hroom
  | _ => exact hroom.set slot _

lemma Run.roomy (hrun : Run h) (hp : h.now.procs q = some p) : p.Roomy := by
  have hall : ∀ q p, h.now.procs q = some p → p.Roomy := by
    refine hrun.invariant (P := fun c => ∀ q p, c.procs q = some p → p.Roomy) ?_ ?_
    · exact fun q p hp => absurd hp (by simp [Cluster.empty])
    · intro h l c hrun ih hstep q p' hp'
      have hother : ∀ {q₀ : NodeId} {p₀ : Process},
          (h.now.setProc q₀ p₀).procs q = some p' → p₀.Roomy → p'.Roomy := by
        intro q₀ p₀ hp' hroom
        rw [Cluster.procs_setProc] at hp'
        split_ifs at hp'
        · exact Option.some.inj hp' ▸ hroom
        · exact ih q p' hp'
      cases hstep with
      | tick | lose | duplicate | query => exact ih q p' hp'
      | start node seeds => exact hother hp' ⟨0, fun n _ => by simp [Process.new]⟩
      | begins _ p slot kind hp => exact hother hp' ((ih _ p hp).set _ _)
      | receive q₀ p src body hp => exact hother hp' ((ih q₀ p hp).set _ _)
      | accept q₀ p n conn body hp => exact hother hp' ((ih q₀ p hp).set _ _)
      | op q₀ p slot kind o next r shared net hp =>
        have hroom : ({ p with shared := shared } : Process).Roomy := ih q₀ p hp
        exact hother hp' (hroom.set _ _)
      | finish _ p slot kind out free hp => exact hother hp' ((ih _ p hp).finish _ _ _)
      | cancel _ p slot hp => exact hother hp' ((ih _ p hp).set _ _)
      | stop _ p hp => exact hother hp' (ih _ p hp)
  exact hall q p hp

/-- There is always a number for one more task. -/
lemma Run.exists_free (hrun : Run h) (hp : h.now.procs q = some p) :
    ∃ n, p.tasks (.spawned n) = none := by
  obtain ⟨N, hN⟩ := hrun.roomy hp
  exact ⟨N, hN N (le_refl N)⟩

/-! ## Nobody says goodbye before leaving -/

/-- How far the goodbye has come. -/
def Task.Leaves (g : Guarded) : Task → Prop
  | ⟨.leaving, prog⟩ => (∃ next, prog = .step .leave next ∧ ∀ r, next r = .ret ()) ∨
      prog = .ret () ∧ g.leaving = true
  | ⟨.announcing, _⟩ => g.leaving = true
  | _ => True

lemma Task.Leaves.of_grows {task : Task} (h : task.Leaves p.shared.guarded)
    (hgrows : p.Grows p') : task.Leaves p'.shared.guarded := by
  obtain ⟨kind, prog⟩ := task
  cases kind with
  | leaving =>
    rcases h with h | ⟨hret, hleaving⟩
    · exact .inl h
    · exact .inr ⟨hret, by rw [hgrows.leaving hleaving]; exact hleaving⟩
  | announcing =>
    have hleaving : p.shared.guarded.leaving = true := h
    show p'.shared.guarded.leaving = true
    rw [hgrows.leaving hleaving]
    exact hleaving
  | _ => trivial

/-- A goodbye is sent by a node that has left. -/
lemma Run.leaves (hrun : Run h) (hp : h.now.procs q = some p) (halive : p.stopped = false)
    {task : Task} (htask : p.tasks slot = some task) : task.Leaves p.shared.guarded := by
  have hall : ∀ q p slot task, h.now.procs q = some p → p.stopped = false →
      p.tasks slot = some task → task.Leaves p.shared.guarded := by
    refine hrun.invariant (P := fun c => ∀ q p slot task, c.procs q = some p →
      p.stopped = false → p.tasks slot = some task → task.Leaves p.shared.guarded) ?_ ?_
    · exact fun q p slot task hp => absurd hp (by simp [Cluster.empty])
    · intro h l c hrun ih hstep q p' slot task hp' halive htask
      cases Task.arises hstep hp' halive htask with
      | kept p _ hp halive htask =>
        have hgrows := hstep.grows hp hp'
        exact (ih q p slot task hp halive htask).of_grows hgrows
      | moved p kind o next r net hp halive htask₀ hl hop =>
        have hgrows := hstep.grows hp hp'
        have hih := ih q p slot _ hp halive htask₀
        cases kind with
        | leaving =>
          -- the one operation of `leave` sets the flag
          rcases hih with ⟨next', heq, hret⟩ | ⟨heq, _⟩
          · injection heq with ho hn
            subst ho
            obtain rfl := eq_of_heq hn
            refine .inr ⟨hret r, ?_⟩
            have hguarded : p'.shared.guarded = p.shared.guarded.leave := hop.guarded
            rw [hguarded]
            rfl
          · exact absurd heq (by simp)
        | announcing =>
          have hleaving : p.shared.guarded.leaving = true := hih
          show p'.shared.guarded.leaving = true
          rw [hgrows.leaving hleaving]
          exact hleaving
        | _ => trivial
      | followed p slot₀ kind₀ out free kind hp halive htask₀ hl hnext =>
        have hgrows := hstep.grows hp hp'
        have hih := ih q p slot₀ _ hp halive htask₀
        cases hnext with
        | announcing =>
          rcases hih with ⟨next, heq, _⟩ | ⟨_, hleaving⟩
          · exact absurd heq (by simp)
          · show p'.shared.guarded.leaving = true
            rw [hgrows.leaving hleaving]
            exact hleaving
        | _ => trivial
      | begun p kind hp halive haborted hl hbegins =>
        cases hbegins with
        | shutdown hserving => exact .inl ⟨.ret, rfl, fun _ => rfl⟩
        | _ => trivial
      | _ => trivial
  exact hall q p slot task hp halive htask

/-! ## What a goodbye is taken for -/

/-- Merging one rumor and no other. -/
def mergingOnly (rumor : WireMember) : Contract Op Op.Res Unit where
  later _ _ := True
  later_refl _ := trivial
  later_trans _ _ := trivial
  pre o _ :=
    match o with
    | .merge rumor' _ => rumor' = rumor
    | _ => True
  post _ _ _ := True

lemma follows_apply_only (node : LocalNode) (rumor : WireMember) :
    Follows (mergingOnly rumor) (fun _ _ => True) (apply node rumor) () := by
  unfold apply
  refine Follows.call_bind (fun _ _ => rfl) fun outcome _ _ _ => ?_
  refine Follows.call_bind (fun _ _ => trivial) fun len _ _ _ => ?_
  cases outcome with
  | ignored => exact Follows.pure fun _ _ => trivial
  | refute rumored =>
    refine Follows.call_bind (fun _ _ => trivial) fun _ _ _ _ => ?_
    refine Follows.call_bind (fun _ _ => trivial) fun answer _ _ _ => ?_
    cases answer with
    | none => exact Follows.pure fun _ _ => trivial
    | some _ =>
      refine Follows.call_bind (fun _ _ => trivial) fun _ _ _ _ => ?_
      exact Follows.call_bind (fun _ _ => trivial) fun _ _ _ _ => Follows.pure fun _ _ => trivial
  | _ => exact Follows.call_bind (fun _ _ => trivial) fun _ _ _ _ => Follows.pure fun _ _ => trivial

/-- A task that handles a goodbye merges the sender's death, and nothing else. -/
def Task.Buries : Task → Prop
  | ⟨.datagram _ (.leave sender), prog⟩ =>
    Follows (mergingOnly sender.intoLeave) (fun _ _ => True) prog ()
  | _ => True

lemma Task.buries_start (node : LocalNode) (kind : Kind) : (Task.start node kind).Buries := by
  cases kind with
  | datagram src body =>
    cases body with
    | leave sender =>
      refine Follows.bind (Q := fun _ _ => True) ?_ fun _ _ _ _ => Follows.pure fun _ _ => trivial
      exact Follows.bind (follows_apply_only node sender.intoLeave) fun _ _ _ _ =>
        Follows.pure fun _ _ => trivial
    | _ => trivial
  | _ => trivial

/-- Handling a goodbye merges its death and nothing else. -/
lemma Run.buries (hrun : Run h) (hp : h.now.procs q = some p) (halive : p.stopped = false)
    {task : Task} (htask : p.tasks slot = some task) : task.Buries := by
  have hall : ∀ q p slot task, h.now.procs q = some p → p.stopped = false →
      p.tasks slot = some task → task.Buries := by
    refine hrun.invariant (P := fun c => ∀ q p slot task, c.procs q = some p →
      p.stopped = false → p.tasks slot = some task → task.Buries) ?_ ?_
    · exact fun q p slot task hp => absurd hp (by simp [Cluster.empty])
    · intro h l c hrun ih hstep q p' slot task hp' halive htask
      cases Task.arises hstep hp' halive htask with
      | kept p _ hp halive htask₀ => exact ih q p slot task hp halive htask₀
      | moved p kind o next r net hp halive htask₀ =>
        have hih := ih q p slot _ hp halive htask₀
        cases kind with
        | datagram src body =>
          cases body with
          | leave sender => exact (Follows.step (C := mergingOnly _) hih).2 r () trivial trivial
          | _ => trivial
        | _ => trivial
      | _ => exact Task.buries_start p'.node _
  exact hall q p slot task hp halive htask

/-! ## What the detector knows of its target -/

/-- Every entry is still there, no lower. -/
def MemberTable.Grows (table table' : MemberTable) : Prop :=
  ∀ id member, table.get id = some member →
    ∃ member', table'.get id = some member' ∧ member.key ≤ member'.key

lemma MemberTable.Grows.refl (table : MemberTable) : table.Grows table :=
  fun _ member hget => ⟨member, hget, le_refl _⟩

lemma MemberTable.Grows.trans {a b c : MemberTable} (hab : a.Grows b) (hbc : b.Grows c) :
    a.Grows c := by
  intro id member hget
  obtain ⟨member', hget', hle⟩ := hab id member hget
  obtain ⟨member'', hget'', hle'⟩ := hbc id member' hget'
  exact ⟨member'', hget'', hle.trans hle'⟩

/-- The table still has an entry for `target`, no lower than the copy. -/
def MemberTable.Has (table : MemberTable) (target : Member) : Prop :=
  ∃ member, table.get target.id = some member ∧ target.key ≤ member.key

lemma MemberTable.Has.of_grows {table table' : MemberTable} {target : Member}
    (hhas : table.Has target) (hgrows : table.Grows table') : table'.Has target := by
  obtain ⟨member, hget, hle⟩ := hhas
  obtain ⟨member', hget', hle'⟩ := hgrows target.id member hget
  exact ⟨member', hget', hle.trans hle'⟩

/-- Everything but a removal raises entries or leaves them. -/
lemma Op.grows_tableAfter (o : Op) (now : Instant) (table : MemberTable)
    (ho : ∀ ids, o ≠ .remove ids) : table.Grows (o.tableAfter now table) := by
  intro id member hget
  rcases o.get_tableAfter now hget with ⟨ids, hrem, _⟩ | hkept | ⟨rumor, _, _, _, _, hkey, hnew⟩
  · exact absurd hrem (ho ids)
  · exact ⟨member, hkept, le_refl _⟩
  · refine ⟨_, hnew, ?_⟩
    rw [Member.key_update]
    exact le_of_lt hkey

/-- Looking at a table that only grows. -/
def growing : Contract Op Op.Res MemberTable where
  later := MemberTable.Grows
  later_refl := .refl
  later_trans := .trans
  pre _ _ := True
  post o r table :=
    match o, r with
    | .get id, member => ∀ m ∈ member, table.get id = some m
    | _, _ => True

/-- A target comes from the table. -/
def Chosen (found : Option Member × List NodeId) (table : MemberTable) : Prop :=
  ∀ target, found.1 = some target → table.Has target ∧ target.state.isDead = false

lemma follows_nextInPass (order : List NodeId) (table : MemberTable) :
    Follows growing Chosen (nextInPass order) table := by
  induction order generalizing table with
  | nil => exact Follows.pure fun _ _ target htarget => absurd htarget (by simp)
  | cons id order ih =>
    refine Follows.call_bind (fun _ _ => trivial) fun member table₁ _ hget => ?_
    cases member with
    | none => exact ih table₁
    | some member =>
      simp only
      split_ifs with hdead
      · exact ih table₁
      · refine Follows.pure fun table₂ hgrows target htarget => ⟨?_, ?_⟩
        · obtain rfl := Option.some.inj htarget
          have hget : table₁.get id = some member := hget member rfl
          have hhas : table₁.Has member :=
            ⟨member, by rw [MemberTable.id_of_get hget, hget], le_refl _⟩
          exact hhas.of_grows hgrows
        · obtain rfl := Option.some.inj htarget
          simpa using hdead

lemma follows_nextInPasses (passes : ℕ) (order : List NodeId) (table : MemberTable) :
    Follows growing Chosen (nextInPasses passes order) table := by
  induction passes generalizing order table with
  | zero => exact Follows.pure fun _ _ target htarget => absurd htarget (by simp)
  | succ passes ih =>
    refine Follows.bind (follows_nextInPass order table) fun found table₁ _ hchosen => ?_
    obtain ⟨found, rest⟩ := found
    cases found with
    | none => exact Follows.call_bind (fun _ _ => trivial) fun order table₂ _ _ => ih order table₂
    | some member =>
      refine Follows.pure fun table₂ hgrows target htarget => ?_
      have hmember := hchosen target htarget
      exact ⟨hmember.1.of_grows hgrows, hmember.2⟩

/-- What a task of the detector may rely on. -/
def Task.Grounded (table : MemberTable) : Task → Prop
  | ⟨.choosing _, prog⟩ => Follows growing Chosen prog table
  | ⟨.probing target, _⟩ => table.Has target ∧ target.state.isDead = false
  | ⟨.judging target _, _⟩ => table.Has target ∧ target.state.isDead = false
  | _ => True

lemma Task.Grounded.of_grows {task : Task} {table table' : MemberTable}
    (h : task.Grounded table) (hgrows : table.Grows table') : task.Grounded table' := by
  obtain ⟨kind, prog⟩ := task
  cases kind with
  | choosing order => exact Follows.mono (C := growing) h hgrows
  | probing target => exact ⟨h.1.of_grows hgrows, h.2⟩
  | judging target acked => exact ⟨h.1.of_grows hgrows, h.2⟩
  | _ => trivial

/-- The task of the detector holds off the only operation that drops entries. -/
lemma Run.grows_of_evolves (hrun : Run h) {l : Label} (hp : h.now.procs q = some p)
    (hev : p.Evolves h.now l q p') (hother : ∀ o r, l ≠ .op q .detector .reaping o r) :
    p.shared.table.Grows p'.shared.table := by
  cases hev with
  | quiet _ _ hshared =>
    rw [hshared]
    exact .refl _
  | op slot kind o next r shared net halive htask hl hop =>
    have htable : shared.table = o.tableAfter h.now.clock p.shared.table := hop.table
    show p.shared.table.Grows shared.table
    rw [htable]
    refine o.grows_tableAfter _ _ ?_
    rintro ids rfl
    obtain rfl := hrun.remove_kind hp halive htask
    have hslot := hrun.slots hp halive htask
    cases slot with
    | detector => exact hother _ _ hl
    | _ => exact hslot

/-- What the detector has in hand is in the table, at least as high. -/
lemma Run.grounded (hrun : Run h) (hp : h.now.procs q = some p) (halive : p.stopped = false)
    {task : Task} (htask : p.tasks .detector = some task) : task.Grounded p.shared.table := by
  have hall : ∀ q p task, h.now.procs q = some p → p.stopped = false →
      p.tasks .detector = some task → task.Grounded p.shared.table := by
    refine hrun.invariant (P := fun c => ∀ q p task, c.procs q = some p →
      p.stopped = false → p.tasks .detector = some task → task.Grounded p.shared.table) ?_ ?_
    · exact fun q p task hp => absurd hp (by simp [Cluster.empty])
    · intro h l c hrun ih hstep q p' task hp' halive htask
      have hevolves : ∀ {p : Process}, h.now.procs q = some p → p.Evolves h.now l q p' := by
        intro p hp
        obtain ⟨p'', hp'', hev⟩ := hstep.exists_evolves hp
        obtain rfl : p'' = p' := Option.some.inj (hp''.symm.trans hp')
        exact hev
      cases Task.arises hstep hp' halive htask with
      | kept p _ hp halive htask hl hl' =>
        have hgrows := hrun.grows_of_evolves hp (hevolves hp) (hl _)
        exact (ih q p task hp halive htask).of_grows hgrows
      | moved p kind o next r net hp halive htask₀ hl hop =>
        have hih := ih q p _ hp halive htask₀
        -- the table only grows until the turn reaps, and then the detector has nothing in hand
        have hgrows : kind ≠ .reaping → p.shared.table.Grows p'.shared.table := by
          intro hkind
          refine hrun.grows_of_evolves hp (hevolves hp) ?_
          rintro o' r' rfl
          injection hl with _ _ hk
          exact hkind hk.symm
        cases kind with
        | choosing order =>
          have hfollows : Follows growing Chosen (.step o next) p.shared.table := hih
          refine hfollows.step.2 r _ (hgrows (by simp)) ?_
          cases o with
          | get id =>
            intro m hm
            have hnow : p'.shared = p.shared := congrArg World.shared hop.2
            have hget : r = p.shared.table.get id := hop.1
            rw [hnow, ← hget]
            exact hm
          | _ => trivial
        | probing target => exact ⟨hih.1.of_grows (hgrows (by simp)), hih.2⟩
        | judging target acked => exact ⟨hih.1.of_grows (hgrows (by simp)), hih.2⟩
        | _ => trivial
      | followed p slot₀ kind₀ out free kind hp halive htask₀ hl hnext =>
        have hgrows : p.shared.table.Grows p'.shared.table := by
          refine hrun.grows_of_evolves hp (hevolves hp) ?_
          rintro o' r' rfl
          exact absurd hl (by simp)
        cases hnext with
        | probing order rest target =>
          have hfollows : Follows growing Chosen (.ret (some target, rest)) p.shared.table :=
            ih q p _ hp halive htask₀
          have hchosen := hfollows.result target rfl
          exact ⟨hchosen.1.of_grows hgrows, hchosen.2⟩
        | judging target acked => exact (ih q p _ hp halive htask₀).of_grows hgrows
        | _ => trivial
      | begun p kind hp halive haborted hl hbegins =>
        cases hbegins with
        | detector hserving => exact follows_nextInPasses 2 p.order p'.shared.table
      | received p src body hp halive hslot => exact absurd hslot (by simp)
      | accepted p n conn body hp halive hslot => exact absurd hslot (by simp)
      | joining seeds hslot => exact absurd hslot (by simp)
  exact hall q p task hp halive htask

/-! ## An entry between two reaps -/

/-- An entry that is not dropped stays, no lower. -/
lemma Step.exists_entry {c c' : Cluster} {l : Label} (hstep : Step c l c') {id : NodeId}
    {m : Member} (hreap : ¬ l.reaps q id) (hp : c.procs q = some p)
    (hget : p.shared.table.get id = some m) :
    ∃ p' m', c'.procs q = some p' ∧ p'.shared.table.get id = some m' ∧ m.key ≤ m'.key := by
  obtain ⟨p', hp', hev⟩ := hstep.exists_evolves hp
  rcases hev.shared with hshared | ⟨slot, kind, o, r, net, rfl, hop⟩
  · exact ⟨p', m, hp', by rw [hshared, hget], le_refl _⟩
  · have htable : p'.shared.table = o.tableAfter c.clock p.shared.table := hop.table
    rcases o.get_tableAfter c.clock hget with ⟨ids, rfl, hid, _⟩ | hkept |
      ⟨rumor, me, _, _, _, hkey, hnew⟩
    · exact absurd ⟨rfl, hid⟩ hreap
    · exact ⟨p', m, hp', by rw [htable, hkept], le_refl _⟩
    · refine ⟨p', _, hp', by rw [htable, hnew], ?_⟩
      rw [Member.key_update]
      exact le_of_lt hkey

lemma LaterBy.later {ok : Label → Prop} (hlater : LaterBy ok h h') : Later h h' :=
  hlater.mono fun _ _ _ hstep => hstep.1

/-- Only who reaps drops entries. -/
lemma Run.not_reaps (hrun : Run h) {l : Label} {c : Cluster} (hstep : Step h.now l c)
    (hkind : ∀ slot o r, l ≠ .op q slot .reaping o r) (id : NodeId) : ¬ l.reaps q id := by
  intro hreaps
  cases l with
  | op q' slot kind o r =>
    cases o with
    | remove ids =>
      obtain ⟨rfl, _⟩ := hreaps
      obtain ⟨p, next, _, _, hp, halive, htask, _⟩ := hstep.of_op
      obtain rfl := hrun.remove_kind hp halive htask
      exact hkind slot (.remove ids) r rfl
    | _ => exact hreaps
  | _ => exact hreaps

/-- Where nobody reaps, entries stay. -/
lemma LaterBy.keeps {ok : Label → Prop} (hlater : LaterBy ok h h') (hrun : Run h)
    (hkind : ∀ l, ok l → ∀ slot o r, l ≠ .op q slot .reaping o r) (id : NodeId) :
    LaterBy (fun l => ¬ l.reaps q id) h h' := by
  induction hlater with
  | refl => exact .refl _
  | @push h' l c hext hstep ih =>
    have hrun' : Run h' := hrun.extends (LaterBy.later hext)
    exact ih.push ⟨hstep.1, hrun'.not_reaps hstep.1 (hkind l hstep.2) id⟩

/-- An entry that is not reaped stays and is never lowered. -/
lemma LaterBy.exists_entry {id : NodeId} {m : Member}
    (hlater : LaterBy (fun l => ¬ l.reaps q id) h h') (hp : h.now.procs q = some p)
    (hget : p.shared.table.get id = some m) :
    ∃ p' m', h'.now.procs q = some p' ∧ p'.shared.table.get id = some m' ∧ m.key ≤ m'.key := by
  induction hlater with
  | refl => exact ⟨p, m, hp, hget, le_refl _⟩
  | push hext hstep ih =>
    obtain ⟨p', m', hp', hget', hle⟩ := ih
    obtain ⟨p'', m'', hp'', hget'', hle'⟩ := hstep.1.exists_entry hstep.2 hp' hget'
    exact ⟨p'', m'', hp'', hget'', hle.trans hle'⟩

/-- An entry that is not dropped and ends up as high as it was has been so all along. -/
lemma LaterBy.exists_between {a : Trace} {id : NodeId} {p' : Process} {m m' : Member}
    (hlater : LaterBy (fun l => ¬ l.reaps q id) h h') (ha : Later h a) (ha' : Later a h')
    (hp : h.now.procs q = some p) (hget : p.shared.table.get id = some m)
    (hp' : h'.now.procs q = some p') (hget' : p'.shared.table.get id = some m')
    (hkey : m'.key = m.key) :
    ∃ p₀ m₀, a.now.procs q = some p₀ ∧ p₀.shared.table.get id = some m₀ ∧ m₀.key = m.key := by
  have hfirst : LaterBy (fun l => ¬ l.reaps q id) h a := hlater.initial ha ha'
  have hlast : LaterBy (fun l => ¬ l.reaps q id) a h' := hlater.suffix ha' ha.length_le
  obtain ⟨p₀, m₀, hp₀, hget₀, hle⟩ := hfirst.exists_entry hp hget
  obtain ⟨p₁, m₁, hp₁, hget₁, hle₁⟩ := hlast.exists_entry hp₀ hget₀
  obtain rfl := Option.some.inj (hp'.symm.trans hp₁)
  obtain rfl := Option.some.inj (hget'.symm.trans hget₁)
  exact ⟨p₀, m₀, hp₀, hget₀, le_antisymm (hkey ▸ hle₁) hle⟩

end Dalila
